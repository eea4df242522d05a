import ReplicatedTree.Lib.Wire
import ReplicatedTree.SerializationTheorems

/-!
# Entries on the wire (`sdmessage.proto`)

The encoding of `EntryMessage` and of the messages inside it, field by field: a field whose
string or bytes are empty is left out, a sub-message is left out when it is NULL. It is a
faithful codec (`wireCodec_faithful`), so that the round trip of trees can be had for it, and
its lengths show where the `int` sizes of `serialization.c` end. The reader knows
length-delimited fields only: where protobuf-c skips an unknown field of another wire type, it
rejects the message.
-/

namespace ReplicatedTree

open Wire

/-- The fields of a message with one string or bytes field. -/
def singleField (payload : List UInt8) : List Field :=
  if payload = [] then [] else [(1, payload)]

/-- The fields of an `EntryMessage`. -/
def entryFields (m : EntryMessage) : List Field :=
  (m.key.toList.map fun k => (1, encodeFields (singleField k.str.bytes)))
    ++ m.value.toList.map fun v => (2, encodeFields (singleField v.bytes))

/-- `entry_message__pack`. -/
def packEntryMessage (m : EntryMessage) : List UInt8 := encodeFields (entryFields m)

def unpackString (bytes : List UInt8) : Option NullableString :=
  (decodeFields bytes).map fun fs => ⟨cStringOf ((lastField 1 fs).getD [])⟩

/-- A block without bytes is NULL. -/
def dataMessageOf (bytes : List UInt8) : DataMessage where
  len := bytes.length
  data := if bytes = [] then none else some bytes
  data_length := by
    intro b hb
    split_ifs at hb
    · simp at hb
    · obtain rfl := Option.some.inj hb
      simp

def unpackData (bytes : List UInt8) : Option DataMessage :=
  (decodeFields bytes).map fun fs => dataMessageOf ((lastField 1 fs).getD [])

/-- Unpack a sub-message that may be missing. -/
def unpackOptional {α : Type} (unpack : List UInt8 → Option α) :
    Option (List UInt8) → Option (Option α)
  | none => some none
  | some bytes => (unpack bytes).map some

/-- `entry_message__unpack`, for buffers without repeated fields. -/
def unpackEntryMessage (bytes : List UInt8) : Option EntryMessage := do
  let fs ← decodeFields bytes
  let key ← unpackOptional unpackString (lastField 1 fs)
  let value ← unpackOptional unpackData (lastField 2 fs)
  return ⟨key, value⟩

def wireCodec : EntryCodec := ⟨packEntryMessage, unpackEntryMessage⟩

/-! ## Round trip -/

theorem lastField_singleField (payload : List UInt8) :
    (lastField 1 (singleField payload)).getD [] = payload := by
  unfold singleField lastField
  split_ifs with h
  · simp [h]
  · simp

theorem unpackString_pack (k : NullableString) :
    unpackString (encodeFields (singleField k.str.bytes)) = some k := by
  unfold unpackString
  rw [decodeFields_encode, Option.map_some, lastField_singleField, cStringOf_bytes]

theorem unpackData_pack (v : DataMessage) :
    unpackData (encodeFields (singleField v.bytes)) = some (dataMessageOf v.bytes) := by
  unfold unpackData
  rw [decodeFields_encode, Option.map_some, lastField_singleField]

theorem unpackEntryMessage_pack (m : EntryMessage) : unpackEntryMessage (packEntryMessage m)
    = some ⟨m.key, m.value.map fun v => dataMessageOf v.bytes⟩ := by
  obtain ⟨key, value⟩ := m
  unfold unpackEntryMessage packEntryMessage
  rw [decodeFields_encode]
  cases key <;> cases value <;>
    simp [entryFields, lastField, unpackOptional, unpackString_pack, unpackData_pack]

theorem bytes_dataMessageOf (bytes : List UInt8) : (dataMessageOf bytes).bytes = bytes := by
  cases bytes with
  | nil => rfl
  | cons b bytes => rfl

/-- The wire format keeps entries. -/
theorem wireCodec_faithful : wireCodec.Faithful := by
  intro m hm
  refine ⟨_, unpackEntryMessage_pack m, rfl, by simp, ?_⟩
  intro v hv v' hv'
  obtain ⟨v₀, hv₀, rfl⟩ := Option.map_eq_some_iff.1 hv'
  rw [Option.mem_def.1 hv, Option.some.injEq] at hv₀
  subst hv₀
  exact ⟨length_of_params (hm v hv) v.data_length, (bytes_dataMessageOf v.bytes).symm⟩

/-! ## Lengths -/

theorem length_singleField {payload : List UInt8} (h : payload.length < 2 ^ 33) :
    payload.length ≤ (encodeFields (singleField payload)).length ∧
      (encodeFields (singleField payload)).length ≤ payload.length + 6 := by
  unfold singleField
  split_ifs with hnil
  · simp [encodeFields, hnil]
  · have hfield := length_encodeField_le (f := (1, payload)) (k := 0) (by dsimp only; omega)
      (by dsimp only; omega)
    simp only [encodeFields, List.flatMap_cons, List.flatMap_nil, List.append_nil]
    dsimp only at hfield
    omega

/-- A packed entry is a little longer than its value, and not much longer than key and
value. -/
theorem length_packEntryMessage {k : CString} {d : DataT} (hd : d.Valid)
    (hlen : k.bytes.length + d.datasize.toNat < 2 ^ 32) :
    d.datasize.toNat + 2 ≤ (packEntryMessage (entryMessage ⟨some k, some d⟩)).length ∧
      (packEntryMessage (entryMessage ⟨some k, some d⟩)).length
        ≤ k.bytes.length + d.datasize.toNat + 24 := by
  have hbytes : ((copy d.data d.datasize).getD []).length = d.datasize.toNat := by
    have hlength := length_of_params (areParamsInvalid_copy hd) d.length_copy_data
    omega
  have hkey := @length_singleField k.bytes (by omega)
  have hvalue := @length_singleField ((copy d.data d.datasize).getD []) (by omega)
  have hkey' := length_encodeField_le (f := (1, encodeFields (singleField k.bytes))) (k := 0)
    (by dsimp only; omega) (by dsimp only; omega)
  have hvalue' := length_encodeField_le
    (f := (2, encodeFields (singleField ((copy d.data d.datasize).getD [])))) (k := 0)
    (by dsimp only; omega) (by dsimp only; omega)
  dsimp only at hkey' hvalue'
  have hlength : (packEntryMessage (entryMessage ⟨some k, some d⟩)).length
      = (encodeField (1, encodeFields (singleField k.bytes))).length
        + (encodeField
            (2, encodeFields (singleField ((copy d.data d.datasize).getD [])))).length := by
    show (encodeFields [(1, encodeFields (singleField k.bytes)),
      (2, encodeFields (singleField ((copy d.data d.datasize).getD [])))]).length = _
    simp [encodeFields]
  omega

/-- The tree after one `put`. -/
theorem treeAfter_put (k : CString) {d : DataT} (hd : d.Valid) :
    treeAfter [.put (some k) (some ⟨d, hd⟩)]
      = ⟨.node ⟨some k, some d⟩ .nil .nil, 1, 0⟩ := by
  show (treePut treeCreate (some k) (some d)).1 = _
  rw [treePut_eq treeCreate_inv.shape, dataDup_of_valid hd]
  rfl

/-! ## Where sizes end -/

/-- A value of 2^31 - 1 bytes is a valid one, but its packed entry is too long for an `int`. -/
theorem entryToBuffer_tooLong (k : CString) {d : DataT} (hd : d.Valid)
    (hsize : d.datasize = 2 ^ 31 - 1) (hk : k.bytes.length < 2 ^ 30) :
    entryToBuffer wireCodec ⟨some k, some d⟩ = .ok (-1, none) := by
  obtain ⟨hge, hle⟩ := length_packEntryMessage (k := k) hd (by omega)
  have hint : toInt32 ((packEntryMessage (entryMessage ⟨some k, some d⟩)).length : ℤ) < 0 := by
    unfold toInt32
    rw [Int.bmod_eq_emod]
    split_ifs <;> omega
  unfold entryToBuffer
  exact if_pos hint

/-- `entry_to_buffer` returns -1, and `tree_to_buffer` copies from a block that was never
set. -/
theorem treeToBuffer_tooLong (k : CString) {d : DataT} (hd : d.Valid)
    (hsize : d.datasize = 2 ^ 31 - 1) (hk : k.bytes.length < 2 ^ 30) :
    treeToBuffer wireCodec (treeAfter [.put (some k) (some ⟨d, hd⟩)]) = .error .fault := by
  have hentry := entryToBuffer_tooLong k hd hsize hk
  have hcollect : collectEntryBufs wireCodec (.node ⟨some k, some d⟩ .nil .nil)
      (Cells.alloc 1) (Cells.alloc 1) 0 = .ok ([none], [some (-1)], 1) := by
    rw [collectEntryBufs, hentry, ok_bind]
    rfl
  have hlens : Cells.contents ([some (-1)] : Cells ℤ) = some [-1] := rfl
  have hsum : sumLengths [-1] 0 = .ok 3 := by decide
  have hbufs : Cells.contents ([none] : Cells (List UInt8)) = none := rfl
  rw [treeAfter_put k hd]
  unfold treeToBuffer
  show (collectEntryBufs wireCodec (.node ⟨some k, some d⟩ .nil .nil)
    (Cells.alloc 1) (Cells.alloc 1) 0 >>= _) = _
  rw [hcollect, ok_bind]
  simp only [hlens, orFault_some, ok_bind, hsum]
  rw [if_neg (by decide), hbufs]
  rfl

/-- There are values of every size. -/
theorem exists_value (n : ℕ) : ∃ d : DataT, d.Valid ∧ d.datasize = n := by
  refine ⟨⟨n, some (List.replicate n 0), by simp⟩, ?_, rfl⟩
  simp [DataT.Valid, areParamsInvalid]

theorem tree_round_trip_tooLong : wireCodec.Faithful ∧
    ∃ (k : CString) (d : DataT) (hd : d.Valid), d.datasize = 2 ^ 31 - 1 ∧
      (treeAfter [.put (some k) (some ⟨d, hd⟩)]).root ≠ .nil ∧
      treeToBuffer wireCodec (treeAfter [.put (some k) (some ⟨d, hd⟩)]) = .error .fault := by
  obtain ⟨d, hd, hsize⟩ := exists_value (2 ^ 31 - 1)
  have hlong : d.datasize = 2 ^ 31 - 1 := by rw [hsize]; rfl
  refine ⟨wireCodec_faithful, ⟨[107], by decide⟩, d, hd, hlong, ?_, ?_⟩
  · rw [treeAfter_put _ hd]
    simp
  · exact treeToBuffer_tooLong _ hd hlong (by decide)

theorem tree_round_trip_three : (treeAfter threePuts).size = 3 ∧ ∃ buffer tree',
    treeToBuffer wireCodec (treeAfter threePuts)
      = .ok ((encodedLength wireCodec (treeAfter threePuts) : ℤ), buffer) ∧
    bufferToTree wireCodec buffer (encodedLength wireCodec (treeAfter threePuts)) = .ok tree' ∧
    SameNodes (treeAfter threePuts).root tree'.root ∧
    tree'.size = (treeAfter threePuts).size ∧ tree'.height = (treeAfter threePuts).height := by
  have hne : (treeAfter threePuts).root ≠ .nil := by decide +kernel
  have hlen : encodedLength wireCodec (treeAfter threePuts) < 2 ^ 31 := by decide +kernel
  exact ⟨rfl, tree_round_trip wireCodec_faithful threePuts hne hlen⟩

end ReplicatedTree
