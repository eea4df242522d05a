import ReplicatedTree.Buffers
import ReplicatedTree.Inet

/-!
# Messages on the wire (`sdmessage.proto`)

What is relied on of `message__pack` and `message__unpack`, and the encoding of `Message`
record by record: the operation code unless it is 0, then the member of the union that is set,
also if its string is empty. It is a faithful codec (`messageWire_faithful`), and a key takes at
least two bytes of it (`messageWire_keysFit`). The reader knows varints and length-delimited
fields: where protobuf-c skips an unknown field of another wire type, it rejects the message.
-/

namespace ReplicatedTree

open Wire

/-! ## What is asked of a codec -/

/-- The same contents, up to whether a block without bytes is NULL. -/
def Content.Equal : Content → Content → Prop
  | .value (some v), .value (some v') => v.len = v'.len ∧ v.bytes = v'.bytes
  | .entry (some e), .entry (some e') => e.Equal e'
  | c, c' => c = c'

structure Message.Equal (m m' : Message) : Prop where
  opCode_eq : m.opCode = m'.opCode
  content_equal : m.content.Equal m'.content

/-- The union member is set, its blocks have the bytes their lengths speak of, and its numbers
are `int32`. -/
def Content.Packable : Content → Prop
  | .notSet | .key _ => True
  | .value v => ∃ d, v = some d ∧ areParamsInvalid d.len d.data = false
  | .entry e => ∃ m, e = some m ∧ m.Packable
  | .keys ks => ks.isSome
  | .intResult n | .opId n => FitsInt32 n
  | .unknown _ => False

structure Message.Packable (m : Message) : Prop where
  opCode_fits : FitsInt32 m.opCode
  content_packable : m.content.Packable

/-- What is relied on: an unpacked message is equal to the one that was packed. -/
def MessageCodec.Faithful (codec : MessageCodec) : Prop :=
  ∀ m : Message, m.Packable → ∃ m', codec.unpack (codec.pack m) = some m' ∧ m.Equal m'

/-- What is relied on: a key takes the byte of its tag and a byte of its length. -/
def MessageCodec.KeysFit (codec : MessageCodec) : Prop :=
  ∀ bytes m ks, codec.unpack bytes = some m → m.content = .keys (some ks) →
    2 * ks.keys.length ≤ bytes.length

/-- What was packed comes back as a message that the copy functions take. -/
theorem Message.Equal.wf {m m' : Message} (h : m.Equal m') (hm : m.Packable) :
    m'.Wf ∧ m'.content.Known := by
  obtain ⟨op, content⟩ := m
  obtain ⟨op', content'⟩ := m'
  have hequal : content.Equal content' := h.content_equal
  have hpack : content.Packable := hm.content_packable
  cases content with
  | value v =>
    obtain ⟨d, rfl, hd⟩ := hpack
    cases content' with
    | value v' =>
      refine ⟨?_, trivial⟩
      rintro d' rfl
      have hlen : d.len = d'.len := hequal.1
      exact (nonneg_of_params hd).trans_eq hlen
    | _ => exact absurd hequal (by simp [Content.Equal])
  | entry e =>
    obtain ⟨em, rfl, hem⟩ := hpack
    cases content' with
    | entry e' =>
      refine ⟨?_, trivial⟩
      rintro em' rfl v' hv'
      have hentry : em.Equal em' := hequal
      obtain ⟨v, hv⟩ := Option.isSome_iff_exists.1
        (hentry.isSome_eq.trans (Option.isSome_of_mem hv'))
      have hlen := (hentry.value_eq v hv v' hv').1
      exact (nonneg_of_params (hem v hv)).trans_eq hlen
    | _ => exact absurd hequal (by simp [Content.Equal])
  | unknown c => exact hpack.elim
  | _ =>
    simp only [Content.Equal] at hequal
    subst hequal
    exact ⟨trivial, trivial⟩

/-! ## The encoding -/

/-- `keys_message__pack`. -/
def packKeysMessage (m : KeysMessage) : List UInt8 :=
  encodeFields (m.keys.map fun k => (1, k.bytes))

def opCodeRecords (opCode : ℤ) : List Record :=
  if opCode = 0 then [] else [(1, .varint (opCode % 2 ^ 64).toNat)]

/-- A sub-message that is NULL is left out. -/
def contentRecords : Content → List Record
  | .notSet | .unknown _ => []
  | .key k => [(10, .delimited k.bytes)]
  | .value v => v.toList.map fun d => (20, .delimited (packDataMessage d))
  | .entry e => e.toList.map fun m => (30, .delimited (packEntryMessage m))
  | .keys ks => ks.toList.map fun m => (40, .delimited (packKeysMessage m))
  | .intResult n => [(50, .varint (zigzag n))]
  | .opId n => [(60, .varint (zigzag n))]

/-- `message__pack`. -/
def packMessage (m : Message) : List UInt8 :=
  encodeRecords (opCodeRecords m.opCode ++ contentRecords m.content)

def unpackKeys (bytes : List UInt8) : Option KeysMessage :=
  (decodeFields bytes).map fun fs =>
    ⟨(fs.filter fun f => f.1 = 1).map fun f => cStringOf f.2⟩

/-- A `sint32`. -/
def unpackInt32 (n : ℕ) : ℤ := unzigzag (n % 2 ^ 32)

def unpackContent (num : ℕ) : Payload → Option Content
  | .delimited bytes =>
    if num = 10 then some (.key (cStringOf bytes))
    else if num = 20 then (unpackData bytes).map fun d => .value (some d)
    else if num = 30 then (unpackEntryMessage bytes).map fun m => .entry (some m)
    else if num = 40 then (unpackKeys bytes).map fun m => .keys (some m)
    else none
  | .varint n =>
    if num = 50 then some (.intResult (unpackInt32 n))
    else if num = 60 then some (.opId (unpackInt32 n))
    else none

/-- A record sets the operation code or the union, unless it has the wrong wire type. One with
another number is skipped. -/
def unpackRecord (m : Message) (r : Record) : Option Message :=
  if r.1 = 1 then
    match r.2 with
    | .varint n => some { m with opCode := toInt32 n }
    | .delimited _ => none
  else if r.1 ∈ [10, 20, 30, 40, 50, 60] then
    (unpackContent r.1 r.2).map fun content => { m with content := content }
  else some m

/-- `message__unpack`, for messages without repeated sub-messages. -/
def unpackMessage (bytes : List UInt8) : Option Message :=
  (decodeRecords bytes).bind fun rs => rs.foldlM unpackRecord messageCreate

def messageWire : MessageCodec := ⟨packMessage, unpackMessage⟩

/-! ## Round trip -/

theorem unpackKeys_pack (m : KeysMessage) : unpackKeys (packKeysMessage m) = some m := by
  obtain ⟨keys⟩ := m
  have hfilter : (keys.map fun k => ((1, k.bytes) : Field)).filter (fun f => f.1 = 1)
      = keys.map fun k => (1, k.bytes) := by
    rw [List.filter_eq_self]
    intro f hf
    obtain ⟨k, -, rfl⟩ := List.mem_map.1 hf
    rfl
  have hkeys : (keys.map fun k => ((1, k.bytes) : Field)).map (fun f => cStringOf f.2) = keys := by
    rw [List.map_map]
    conv_rhs => rw [← List.map_id keys]
    exact List.map_congr_left fun k _ => cStringOf_bytes k
  unfold unpackKeys packKeysMessage
  rw [decodeFields_encode, Option.map_some, hfilter, hkeys]

theorem unpackInt32_zigzag {n : ℤ} (h : FitsInt32 n) : unpackInt32 (zigzag n) = n := by
  have hlt : zigzag n < 2 ^ (31 + 1) := zigzag_lt (k := 31) h.1 h.2
  rw [unpackInt32, Nat.mod_eq_of_lt hlt, unzigzag_zigzag]

/-- The operation code comes back, with the sign that its 64 bits carry. -/
theorem unpackRecords_opCode {opCode : ℤ} (h : FitsInt32 opCode) (rs : List Record) :
    (opCodeRecords opCode ++ rs).foldlM unpackRecord messageCreate
      = rs.foldlM unpackRecord ⟨opCode, .notSet⟩ := by
  unfold opCodeRecords
  split_ifs with hzero
  · rw [hzero]
    rfl
  · have hint : toInt32 (opCode % 2 ^ 64).toNat = opCode := by
      have hbounds := h
      unfold FitsInt32 at hbounds
      unfold toInt32
      rw [Int.toNat_of_nonneg (by omega), Int.bmod_eq_emod]
      split_ifs <;> omega
    rw [List.singleton_append, List.foldlM_cons, unpackRecord, if_pos rfl]
    simp only [hint]
    rfl

/-- A record of the union. -/
theorem unpackRecord_content {m : Message} {num : ℕ} {payload : Payload} {content : Content}
    (hnum : num ∈ [10, 20, 30, 40, 50, 60]) (h : unpackContent num payload = some content) :
    [(num, payload)].foldlM unpackRecord m = some { m with content := content } := by
  have hne : num ≠ 1 := by
    rintro rfl
    exact absurd hnum (by decide)
  show (unpackRecord m (num, payload)).bind _ = _
  rw [unpackRecord, if_neg hne, if_pos hnum, h]
  rfl

theorem unpackContentRecords {content : Content} (h : content.Packable) (opCode : ℤ) :
    ∃ content', (contentRecords content).foldlM unpackRecord ⟨opCode, .notSet⟩
      = some ⟨opCode, content'⟩ ∧ content.Equal content' := by
  cases content with
  | notSet => exact ⟨.notSet, rfl, rfl⟩
  | key k =>
    refine ⟨_, unpackRecord_content (by decide) (by rw [unpackContent, if_pos rfl]), ?_⟩
    rw [cStringOf_bytes]
    rfl
  | value v =>
    obtain ⟨d, rfl, hd⟩ := h
    have hunpack : unpackContent 20 (.delimited (packDataMessage d))
        = some (.value (some (dataMessageOf d.bytes))) := by
      rw [unpackContent, if_neg (by decide), if_pos rfl, packDataMessage, unpackData_pack]
      rfl
    refine ⟨_, unpackRecord_content (by decide) hunpack, ?_, (bytes_dataMessageOf d.bytes).symm⟩
    exact length_of_params hd d.data_length
  | entry e =>
    obtain ⟨em, rfl, hem⟩ := h
    obtain ⟨em', hpacked, hequal⟩ := wireCodec_faithful em hem
    have hunpack : unpackContent 30 (.delimited (packEntryMessage em))
        = some (.entry (some em')) := by
      have hpacked' : unpackEntryMessage (packEntryMessage em) = some em' := hpacked
      rw [unpackContent, if_neg (by decide), if_neg (by decide), if_pos rfl, hpacked']
      rfl
    exact ⟨_, unpackRecord_content (by decide) hunpack, hequal⟩
  | keys ks =>
    obtain ⟨keys, rfl⟩ := Option.isSome_iff_exists.1 h
    have hunpack : unpackContent 40 (.delimited (packKeysMessage keys))
        = some (.keys (some keys)) := by
      rw [unpackContent, if_neg (by decide), if_neg (by decide), if_neg (by decide), if_pos rfl,
        unpackKeys_pack]
      rfl
    exact ⟨_, unpackRecord_content (by decide) hunpack, rfl⟩
  | intResult n =>
    refine ⟨_, unpackRecord_content (by decide) (by rw [unpackContent, if_pos rfl]), ?_⟩
    rw [unpackInt32_zigzag h]
    rfl
  | opId n =>
    refine ⟨_, unpackRecord_content (by decide)
      (by rw [unpackContent, if_neg (by decide), if_pos rfl]), ?_⟩
    rw [unpackInt32_zigzag h]
    rfl
  | unknown c => exact h.elim

/-- The wire format keeps messages. -/
theorem messageWire_faithful : messageWire.Faithful := by
  intro m hm
  rcases unpackContentRecords hm.content_packable m.opCode with ⟨content, hrecords, hequal⟩
  refine ⟨⟨m.opCode, content⟩, ?_, rfl, hequal⟩
  show unpackMessage (packMessage m) = _
  rw [unpackMessage, packMessage, decodeRecords_encode, Option.bind_some,
    unpackRecords_opCode hm.opCode_fits, hrecords]

/-! ## Lengths -/

/-- A packed put is a little longer than its value, and not much longer than key and value. -/
theorem length_packMessage_put {k : CString} {d : DataT} (hd : d.Valid)
    (hlen : k.bytes.length + d.datasize.toNat < 2 ^ 32) :
    let packed := packMessage ⟨opPut, .entry (some (entryMessage ⟨some k, some d⟩))⟩
    d.datasize.toNat + 2 ≤ packed.length ∧
      packed.length ≤ k.bytes.length + d.datasize.toNat + 40 := by
  intro packed
  have hentry := length_packEntryMessage (k := k) hd hlen
  have hfield := length_encodeField_le
    (f := (30, packEntryMessage (entryMessage ⟨some k, some d⟩))) (k := 1)
    (show 8 * 30 + 2 < 128 ^ 2 by decide) (by dsimp only; omega)
  dsimp only at hfield
  have hopCode : (encodeRecords (opCodeRecords opPut)).length = 2 := by decide +kernel
  have hlength : packed.length = (encodeRecords (opCodeRecords opPut)).length
      + (encodeField (30, packEntryMessage (entryMessage ⟨some k, some d⟩))).length := by
    show (encodeRecords (opCodeRecords opPut ++
      [(30, .delimited (packEntryMessage (entryMessage ⟨some k, some d⟩)))])).length = _
    simp [encodeRecords, encodeRecord]
  omega

theorem unpackKeys_length {bytes : List UInt8} {m : KeysMessage} (h : unpackKeys bytes = some m) :
    2 * m.keys.length ≤ bytes.length := by
  obtain ⟨fs, hfs, rfl⟩ := Option.map_eq_some_iff.1 h
  have hsum := sum_of_decodeFields hfs
  have hcount : 2 * fs.length ≤ (fs.map fun f => f.2.length + 2).sum := by
    clear hsum h hfs
    induction fs with
    | nil => simp
    | cons f fs ih =>
      rw [List.map_cons, List.sum_cons, List.length_cons]
      omega
  have hfilter := List.length_filter_le (fun f : Field => f.1 = 1) fs
  rw [List.length_map]
  omega

theorem unpackContent_keys {num : ℕ} {payload : Payload} {ks : KeysMessage}
    (h : unpackContent num payload = some (.keys (some ks))) :
    2 * ks.keys.length ≤ payload.length := by
  cases payload with
  | varint n =>
    rw [unpackContent] at h
    split_ifs at h <;> simp at h
  | delimited bytes =>
    rw [unpackContent] at h
    split_ifs at h
    · simp at h
    · simp at h
    · simp at h
    · obtain ⟨m, hm, heq⟩ := Option.map_eq_some_iff.1 h
      obtain rfl : m = ks := by simpa using heq
      exact unpackKeys_length hm

/-- The keys of a message come from one of its records. -/
theorem unpackRecords_keys {rs : List Record} {m m' : Message} {bound : ℕ} {ks : KeysMessage}
    (h : rs.foldlM unpackRecord m = some m') (hks : m'.content = .keys (some ks))
    (hrs : ∀ r ∈ rs, r.2.length ≤ bound)
    (hm : ∀ ks, m.content = .keys (some ks) → 2 * ks.keys.length ≤ bound) :
    2 * ks.keys.length ≤ bound := by
  induction rs generalizing m with
  | nil =>
    obtain rfl := Option.some.inj h
    exact hm ks hks
  | cons r rs ih =>
    rw [List.foldlM_cons] at h
    rcases Option.bind_eq_some_iff.1 h with ⟨m₁, hr, hrest⟩
    refine ih hrest (fun r' hr' => hrs r' (List.mem_cons_of_mem r hr')) fun ks' hks' => ?_
    unfold unpackRecord at hr
    split_ifs at hr
    · split at hr
      · obtain rfl := Option.some.inj hr
        exact hm ks' hks'
      · exact absurd hr (by simp)
    · obtain ⟨content, hcontent, rfl⟩ := Option.map_eq_some_iff.1 hr
      have hcontent' : content = .keys (some ks') := hks'
      rw [hcontent'] at hcontent
      exact (unpackContent_keys hcontent).trans (hrs r (List.mem_cons_self))
    · obtain rfl := Option.some.inj hr
      exact hm ks' hks'

theorem messageWire_keysFit : messageWire.KeysFit := by
  intro bytes m ks hunpack hks
  rcases Option.bind_eq_some_iff.1 hunpack with ⟨rs, hrs, hfold⟩
  apply unpackRecords_keys hfold hks
  · intro r hr
    exact length_le_of_decodeRecords hrs hr
  · intro ks' hks'
    exact absurd hks' (by simp [messageCreate])

end ReplicatedTree
