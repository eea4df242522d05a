import ReplicatedTree.Entry

/-!
# Messages (`sdmessage.proto`, `message-private.c`)

The generated structs, with the union of `Message` as an inductive type: a constructor per
`content_case`. Sub-message pointers may be NULL; `string` fields never are (the generated
initialisers point them at the empty string, the unpacker and the callers at a copy).

The length of a `bytes` field is a `size_t`, but it is only ever assigned from an `int`, or
by the unpacker from a frame shorter than 2^31, and only ever read back into an `int`.
-/

namespace ReplicatedTree

/-! ## Message types -/

/-- `DataMessage`, with the block behind its `data.data` pointer. -/
structure DataMessage where
  len : ℤ
  data : Option (List UInt8)
  data_length : ∀ b ∈ data, b.length = len.toNat

theorem DataMessage.eq_iff (m m' : DataMessage) :
    m.len = m'.len ∧ m.data = m'.data ↔ m = m' := by
  cases m
  cases m'
  simp

instance instDecidableEqDataMessage : DecidableEq DataMessage :=
  fun m m' => decidable_of_iff _ (DataMessage.eq_iff m m')

structure NullableString where
  str : CString
deriving DecidableEq

structure EntryMessage where
  key : Option NullableString
  value : Option DataMessage
deriving DecidableEq

/-- `KeysMessage`: `n_keys` is the length of the list. -/
structure KeysMessage where
  keys : List CString
deriving DecidableEq

/-- The `content_case` of a `Message` and the union member it selects. -/
inductive Content
  | notSet
  | key (key : CString)
  | value (value : Option DataMessage)
  | entry (entry : Option EntryMessage)
  | keys (keys : Option KeysMessage)
  | intResult (intResult : ℤ)
  | opId (opId : ℤ)
  | unknown (contentCase : ℤ)
deriving DecidableEq

structure Message where
  opCode : ℤ
  content : Content
deriving DecidableEq

/-- `Message__OperationCode`; a response carries the code of its request plus one. -/
def opBad : ℤ := 0
def opSize : ℤ := 10
def opDel : ℤ := 20
def opGet : ℤ := 30
def opPut : ℤ := 40
def opGetKeys : ℤ := 50
def opHeight : ℤ := 60
def opVerify : ℤ := 70
def opError : ℤ := 99

/-! ## Conversions and copies -/

def dataToMsg (dataStruct : Option DataT) : Option DataMessage :=
  dataStruct.map fun d =>
    ⟨d.datasize, copy d.data d.datasize, d.length_copy_data⟩

/-- `_DataMessage_dup`. -/
def dataMessageDup (msg : Option DataMessage) : Option DataMessage :=
  msg.map fun m => ⟨m.len, copy m.data m.len, length_copy m.data_length⟩

def msgToData (msg : Option DataMessage) : Option DataT :=
  msg.bind fun m => dataCreate2 m.len (copy m.data m.len) (length_copy m.data_length)

def stringToMsg (string : Option CString) : Option NullableString := string.map fun s => ⟨s⟩

def msgToString (msg : Option NullableString) : Option CString := msg.map fun m => m.str

def entryToMsg (entry : Option EntryT) : Option EntryMessage :=
  entry.map fun e => ⟨stringToMsg e.key, dataToMsg e.value⟩

/-- `_EntryMessage_dup`. -/
def entryMessageDup (msg : Option EntryMessage) : Option EntryMessage :=
  msg.map fun m => ⟨m.key.bind fun k => stringToMsg (some k.str), dataMessageDup m.value⟩

def msgToEntry (msg : Option EntryMessage) : Option EntryT :=
  msg.map fun m => entryCreate (msgToString m.key) (msgToData m.value)

/-- The strings before the closing NULL of a key array: `_keys_count` and
`_str_arr_copy`. -/
def strArrCopy : List (Option CString) → List CString
  | some s :: strs => s :: strArrCopy strs
  | _ => []

def keysToMsg (keys : Option (List (Option CString))) : Option KeysMessage :=
  keys.map fun ks => ⟨strArrCopy ks⟩

/-- `_KeysMessage_dup`. -/
def keysMessageDup (msg : Option KeysMessage) : Option KeysMessage :=
  msg.map fun m => ⟨strArrCopy (m.keys.map some)⟩

def messageCreate : Message := ⟨opBad, .notSet⟩

/-- `Message_dup`; NULL for a content case it does not know. -/
def messageDup (msg : Message) : Option Message :=
  match msg.content with
  | .notSet => some ⟨msg.opCode, .notSet⟩
  | .key k => some ⟨msg.opCode, .key k⟩
  | .value v => some ⟨msg.opCode, .value (dataMessageDup v)⟩
  | .entry e => some ⟨msg.opCode, .entry (entryMessageDup e)⟩
  | .keys ks => some ⟨msg.opCode, .keys (keysMessageDup ks)⟩
  | .intResult r => some ⟨msg.opCode, .intResult r⟩
  | .opId id => some ⟨msg.opCode, .opId id⟩
  | .unknown _ => none

/-! ## Well-formed messages -/

/-- The length of a `bytes` field is not negative. -/
def DataMessage.Wf (m : DataMessage) : Prop := 0 ≤ m.len

def EntryMessage.Wf (m : EntryMessage) : Prop := ∀ v ∈ m.value, v.Wf

/-- A message whose `bytes` fields have proper lengths, as the unpacker and the
constructors of this file leave them. -/
def Message.Wf (m : Message) : Prop :=
  match m.content with
  | .value v => ∀ d ∈ v, d.Wf
  | .entry e => ∀ em ∈ e, em.Wf
  | _ => True

/-- A content case the copy functions know. -/
def Content.Known : Content → Prop
  | .unknown _ => False
  | _ => True

instance (c : Content) : Decidable c.Known :=
  match c with
  | .unknown _ => isFalse id
  | .notSet | .key _ | .value _ | .entry _ | .keys _ | .intResult _ | .opId _ => isTrue trivial

theorem dataMessageDup_eq {v : Option DataMessage} (h : ∀ d ∈ v, d.Wf) :
    dataMessageDup v = v := by
  cases v with
  | none => rfl
  | some d =>
    have hcopy : copy d.data d.len = d.data := copy_eq_self (h d rfl) d.data_length
    cases d
    simp only [dataMessageDup, Option.map_some, hcopy]

theorem entryMessageDup_eq {e : Option EntryMessage} (h : ∀ em ∈ e, em.Wf) :
    entryMessageDup e = e := by
  cases e with
  | none => rfl
  | some em =>
    have hv := dataMessageDup_eq (h em rfl)
    rcases em with ⟨_ | k, v⟩ <;> simp [entryMessageDup, hv, stringToMsg]

theorem strArrCopy_map_some (ks : List CString) : strArrCopy (ks.map some) = ks := by
  induction ks with
  | nil => rfl
  | cons k ks ih => rw [List.map_cons, strArrCopy, ih]

theorem keysMessageDup_eq (ks : Option KeysMessage) : keysMessageDup ks = ks := by
  cases ks with
  | none => rfl
  | some m => simp [keysMessageDup, strArrCopy_map_some]

/-- The copy of a well-formed message is equal to it; only an unknown case has none. -/
theorem messageDup_eq {m : Message} (h : m.Wf) :
    messageDup m = if m.content.Known then some m else none := by
  obtain ⟨op, content⟩ := m
  cases content with
  | value v => simp [messageDup, dataMessageDup_eq h, Content.Known]
  | entry e => simp [messageDup, entryMessageDup_eq h, Content.Known]
  | keys ks => simp [messageDup, keysMessageDup_eq, Content.Known]
  | _ => simp [messageDup, Content.Known]

theorem messageDup_of_known {m : Message} (h : m.Wf) (hk : m.content.Known) :
    messageDup m = some m := by
  rw [messageDup_eq h, if_pos hk]

end ReplicatedTree
