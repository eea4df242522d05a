import ReplicatedTree.EntryWire

/-!
# Entries, values and key arrays on their own (`serialization.c`, `message-private.c`)

NULL, empty and absent stay apart at every level: a NULL key or value is a missing
sub-message, an empty key or value is a sub-message without fields. What ends the round trips
are the `int` sizes: the packed message must be shorter than 2^31 bytes, and a key array must
have room for its closing NULL below that number.
-/

namespace ReplicatedTree

open Wire

/-! ## Values -/

/-- `data_message__pack`. -/
def packDataMessage (m : DataMessage) : List UInt8 := encodeFields (singleField m.bytes)

/-- `data_to_msg` of a value that is not NULL. -/
def dataMessage (d : DataT) : DataMessage :=
  ⟨d.datasize, copy d.data d.datasize, d.length_copy_data⟩

/-- The size returned, and the block stored unless `malloc` refused. -/
def dataToBuffer (d : DataT) : Except Failure (ℤ × Option (List UInt8)) :=
  let packed := packDataMessage (dataMessage d)
  let bufferSize := toInt32 packed.length
  if bufferSize < 0 then .ok (-1, none)
  -- the packed message is longer than the block
  else if bufferSize.toNat < packed.length then .error .fault
  else .ok (bufferSize, some packed)

/-- `buffer_to_data`, reading from the head of a block. -/
def bufferToData (buffer : List UInt8) (bufferSize : ℤ) : Except Failure (Option DataT) :=
  if bufferSize < 0 then .ok none
  else if buffer.length < bufferSize.toNat then .error .fault
  else .ok (msgToData (unpackData (buffer.take bufferSize.toNat)))

/-! ## Key arrays -/

/-- The array is `malloc`ed for `n_keys + 1` pointers, where `n_keys` is an `int`. -/
def msgToKeys (msg : Option KeysMessage) : Except Failure (Option (List (Option CString))) :=
  match msg with
  | none => .ok none
  | some m =>
    let nKeys := toInt32 m.keys.length
    if 0 ≤ nKeys ∧ FitsInt32 (nKeys + 1) then
      .ok (some ((m.keys.take nKeys.toNat).map some ++ [none]))
    else .error .fault

/-- A key array with its closing NULL. -/
def keyArray (ks : List CString) : List (Option CString) := ks.map some ++ [none]

theorem strArrCopy_keyArray (ks : List CString) : strArrCopy (keyArray ks) = ks := by
  induction ks with
  | nil => rfl
  | cons k ks ih =>
    show k :: strArrCopy (keyArray ks) = k :: ks
    rw [ih]

theorem msgToKeys_some {ks : List CString} (h : ks.length < 2 ^ 31 - 1) :
    msgToKeys (some ⟨ks⟩) = .ok (some (keyArray ks)) := by
  have hint : toInt32 ks.length = (ks.length : ℤ) := toInt32_of_lt (by omega) (by omega)
  have hfits : 0 ≤ (ks.length : ℤ) ∧ FitsInt32 ((ks.length : ℤ) + 1) := by
    unfold FitsInt32
    omega
  unfold msgToKeys
  simp only [hint]
  rw [if_pos hfits, Int.toNat_natCast, List.take_length]
  rfl

/-! ## Round trips -/

/-- Both are NULL, or neither is and they have the same bytes. -/
def SameValue : Option DataT → Option DataT → Prop
  | none, none => True
  | some d, some d' => d.SameBytes d'
  | _, _ => False

/-- What comes back from the bytes of a valid value. -/
theorem msgToData_unpacked {d : DataT} (hd : d.Valid) :
    ∃ d', msgToData (some (dataMessageOf (dataMessage d).bytes)) = some d' ∧ d.SameBytes d' := by
  have hlen : d.datasize = (dataMessageOf (dataMessage d).bytes).len :=
    length_of_params (areParamsInvalid_copy hd) d.length_copy_data
  rcases msgToData_of_bytes hd hlen (bytes_dataMessageOf _).symm with ⟨d', hd', -, hsame⟩
  exact ⟨d', hd', hsame⟩

/-- The size and the block of a packed message that is not too long. -/
theorem dataToBuffer_eq {d : DataT} (h : (packDataMessage (dataMessage d)).length < 2 ^ 31) :
    dataToBuffer d = .ok (((packDataMessage (dataMessage d)).length : ℤ),
      some (packDataMessage (dataMessage d))) := by
  have hint : toInt32 (packDataMessage (dataMessage d)).length
      = ((packDataMessage (dataMessage d)).length : ℤ) := toInt32_of_lt (by omega) (by omega)
  unfold dataToBuffer
  simp only [hint]
  rw [if_neg (by omega), if_neg (by omega)]

theorem data_round_trip {d : DataT} (hd : d.Valid)
    (h : (packDataMessage (dataMessage d)).length < 2 ^ 31) :
    ∃ size buffer d', dataToBuffer d = .ok (size, some buffer) ∧
      bufferToData buffer size = .ok (some d') ∧ d.SameBytes d' := by
  rcases msgToData_unpacked hd with ⟨d', hd', hsame⟩
  refine ⟨_, _, d', dataToBuffer_eq h, ?_, hsame⟩
  unfold bufferToData
  rw [if_neg (by omega), if_neg (by omega), Int.toNat_natCast, List.take_length]
  show Except.ok (msgToData (unpackData (encodeFields (singleField (dataMessage d).bytes)))) = _
  rw [unpackData_pack, hd']

theorem entry_round_trip {e : EntryT} (hvalue : ∀ d ∈ e.value, d.Valid) (h : e.Small wireCodec) :
    ∃ size buffer e', entryToBuffer wireCodec e = .ok (size, some buffer) ∧
      bufferToEntry wireCodec buffer size = .ok (some e') ∧ e'.key = e.key ∧
        SameValue e.value e'.value := by
  obtain ⟨key, value⟩ := e
  have hkey : msgToString (stringToMsg key) = key := by
    cases key with
    | none => rfl
    | some k => rfl
  have hread : ∀ size buffer, (size : ℤ) = (buffer : List UInt8).length →
      buffer = packEntryMessage (entryMessage ⟨key, value⟩) →
      bufferToEntry wireCodec buffer size = .ok (some ⟨key,
        msgToData ((dataToMsg value).map fun v => dataMessageOf v.bytes)⟩) := by
    rintro _ _ rfl rfl
    unfold bufferToEntry
    rw [if_neg (by omega), if_neg (by omega), Int.toNat_natCast, List.take_length]
    show Except.ok (msgToEntry (unpackEntryMessage _)) = _
    rw [unpackEntryMessage_pack]
    show Except.ok (some (entryCreate (msgToString (stringToMsg key)) _)) = _
    rw [hkey]
    rfl
  refine ⟨_, _, _, entryToBuffer_eq h, hread _ _ rfl rfl, rfl, ?_⟩
  cases value with
  | none => trivial
  | some d =>
    rcases msgToData_unpacked (hvalue d rfl) with ⟨d', hd', hsame⟩
    show SameValue (some d) (msgToData (some (dataMessageOf (dataMessage d).bytes)))
    rw [hd']
    exact hsame

theorem keys_round_trip {ks : List CString} (h : ks.length < 2 ^ 31 - 1) :
    msgToKeys (keysToMsg (some (keyArray ks))) = .ok (some (keyArray ks)) := by
  show msgToKeys (some ⟨strArrCopy (keyArray ks)⟩) = _
  rw [strArrCopy_keyArray]
  exact msgToKeys_some h

/-- **Codec round trip.** An entry whose packed message is shorter than 2^31 bytes comes back
with the same key and the same value, where NULL stays NULL and empty stays empty; so does a
value; and so does an array of less than 2^31 - 1 keys. -/
theorem codec_round_trip :
    (∀ e : EntryT, (∀ d ∈ e.value, d.Valid) → e.Small wireCodec →
      ∃ size buffer e', entryToBuffer wireCodec e = .ok (size, some buffer) ∧
        bufferToEntry wireCodec buffer size = .ok (some e') ∧ e'.key = e.key ∧
          SameValue e.value e'.value) ∧
    (∀ d : DataT, d.Valid → (packDataMessage (dataMessage d)).length < 2 ^ 31 →
      ∃ size buffer d', dataToBuffer d = .ok (size, some buffer) ∧
        bufferToData buffer size = .ok (some d') ∧ d.SameBytes d') ∧
    ∀ ks : List CString, ks.length < 2 ^ 31 - 1 →
      msgToKeys (keysToMsg (some (keyArray ks))) = .ok (some (keyArray ks)) :=
  ⟨fun _ => entry_round_trip, fun _ => data_round_trip, fun _ => keys_round_trip⟩

/-- An empty key and an empty value stay apart from a key and a value that are missing. -/
theorem codec_round_trip_empty : ∃ size buffer e',
    entryToBuffer wireCodec ⟨some ⟨[], by simp⟩, some emptyData⟩ = .ok (size, some buffer) ∧
      bufferToEntry wireCodec buffer size = .ok (some e') ∧ e'.key = some ⟨[], by simp⟩ ∧
        SameValue (some emptyData) e'.value :=
  codec_round_trip.1 ⟨some ⟨[], by simp⟩, some emptyData⟩ (by simp; decide)
    (by unfold EntryT.Small; decide +kernel)

/-- A value of 2^31 - 1 bytes has no buffer. -/
theorem entryToBuffer_longValue : ∃ (k : CString) (d : DataT), d.Valid ∧
    d.datasize = 2 ^ 31 - 1 ∧ entryToBuffer wireCodec ⟨some k, some d⟩ = .ok (-1, none) := by
  rcases exists_value (2 ^ 31 - 1) with ⟨d, hd, hsize⟩
  have hlong : d.datasize = 2 ^ 31 - 1 := by rw [hsize]; rfl
  exact ⟨⟨[107], by decide⟩, d, hd, hlong, entryToBuffer_tooLong _ hd hlong (by decide)⟩

end ReplicatedTree
