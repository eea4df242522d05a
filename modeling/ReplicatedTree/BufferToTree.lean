import ReplicatedTree.EntryWire

/-!
# Which buffers `buffer_to_tree` decodes

`EntryFrames` is the format: one encoding after another, each with its length in front.
`bufferToTree_ok_iff` says that the loop decodes exactly this format. On any other buffer it
reads outside the buffer or through NULL, and it never returns NULL for a buffer that is not
empty; an entry without key or value is in the format, and left out of the tree without a word.
-/

namespace ReplicatedTree

section

variable (codec : EntryCodec)

/-- Both parts of the entry are there. -/
def EntryMessage.Complete (m : EntryMessage) : Prop := m.key.isSome ∧ m.value.isSome

/-- What is asked of `buffer_to_tree`: it returns NULL, and the buffer is no concatenation of
encodings with key and value, or it returns the tree of those entries. -/
def DecodesOrRefuses (buffer : List UInt8) : Prop :=
  bufferToTree codec buffer buffer.length = .error .refused ∧
      (¬ ∃ ms, EntryFrames codec buffer ms ∧ ∀ m ∈ ms, m.Complete) ∨
    ∃ ms, EntryFrames codec buffer ms ∧ (∀ m ∈ ms, m.Complete) ∧
      bufferToTree codec buffer buffer.length = .ok (ms.foldl putEntryMessage treeCreate)

end

/-! ## Headers -/

/-- A header that can be read is there as a whole. -/
theorem readInt_eq_some {bytes : List UInt8} {n : ℤ} (h : readInt bytes = some n) :
    (bytes.take 4).length = 4 ∧ readInt (bytes.take 4) = some n := by
  match bytes, h with
  | b0 :: b1 :: b2 :: b3 :: rest, h => exact ⟨rfl, h⟩

/-! ## The loop decodes the format -/

section Loop

variable {codec : EntryCodec}

/-- An entry that was read is the whole of its block. -/
theorem bufferToEntry_eq_some {buffer : List UInt8} {len : ℤ} {entry : EntryT}
    (h : bufferToEntry codec buffer len = .ok (some entry)) : 0 ≤ len ∧
      len.toNat ≤ buffer.length ∧ ∃ m, codec.unpack (buffer.take len.toNat) = some m ∧
        entry = entryCreate (msgToString m.key) (msgToData m.value) := by
  unfold bufferToEntry at h
  split_ifs at h with hneg hroom
  · exact absurd (Except.ok.inj h) (by simp)
  have hentry := Except.ok.inj h
  cases hm : codec.unpack (buffer.take len.toNat) with
  | none =>
    rw [hm] at hentry
    exact absurd hentry (by simp [msgToEntry])
  | some m =>
    rw [hm] at hentry
    exact ⟨by omega, by omega, m, rfl, (Option.some.inj hentry).symm⟩

/-- What the loop reads to the end are frames. -/
theorem frames_of_bufferToTreeLoop {buffer : List UInt8} (tree : TreeT) (i : ℕ) {tree' : TreeT}
    (h : bufferToTreeLoop codec buffer buffer.length tree i = .ok tree') :
    ∃ ms, EntryFrames codec (buffer.drop i) ms ∧ tree' = ms.foldl putEntryMessage tree := by
  induction tree, i using bufferToTreeLoop.induct codec buffer buffer.length with
  | case1 tree i hmore hhead =>
    rw [bufferToTreeLoop, if_pos hmore, hhead] at h
    exact absurd h (by simp)
  | case2 tree i hmore len hhead failure hentry =>
    rw [bufferToTreeLoop, if_pos hmore, hhead] at h
    simp [hentry] at h
  | case3 tree i hmore len hhead hentry =>
    rw [bufferToTreeLoop, if_pos hmore, hhead] at h
    simp [hentry] at h
  | case4 tree i hmore len hhead entry hentry ih =>
    rw [bufferToTreeLoop, if_pos hmore, hhead] at h
    simp only [hentry] at h
    obtain ⟨ms, hframes, htree⟩ := ih h
    obtain ⟨hnonneg, hroom, m, hm, rfl⟩ := bufferToEntry_eq_some hentry
    obtain ⟨hheader, hlen⟩ := readInt_eq_some hhead
    -- the bytes from `i` on: header, block, and what the rest of the loop reads
    have hsplit : buffer.drop i = (buffer.drop i).take 4
        ++ ((buffer.drop (i + 4)).take len.toNat ++ buffer.drop (i + 4 + len.toNat)) := by
      rw [← List.drop_drop (i := len.toNat), List.take_append_drop, ← List.drop_drop,
        List.take_append_drop]
    have hblock : ((buffer.drop (i + 4)).take len.toNat).length = len.toNat := by
      rw [List.length_take]
      omega
    refine ⟨m :: ms, ?_, htree⟩
    rw [hsplit]
    refine .cons hheader ?_ hm hframes
    rw [hlen, hblock]
    congr 1
    omega
  | case5 tree i hdone =>
    rw [bufferToTreeLoop, if_neg hdone] at h
    have hnil : buffer.drop i = [] := by
      rw [List.drop_eq_nil_iff]
      omega
    rw [hnil]
    exact ⟨[], .nil, (Except.ok.inj h).symm⟩

theorem bufferToTreeLoop_ne_refused {buffer : List UInt8} (tree : TreeT) (i : ℕ) :
    bufferToTreeLoop codec buffer buffer.length tree i ≠ .error .refused := by
  induction tree, i using bufferToTreeLoop.induct codec buffer buffer.length with
  | case1 tree i hmore hhead =>
    rw [bufferToTreeLoop, if_pos hmore, hhead]
    simp
  | case2 tree i hmore len hhead failure hentry =>
    rw [bufferToTreeLoop, if_pos hmore, hhead]
    have hfault : failure = .fault := by
      unfold bufferToEntry at hentry
      split_ifs at hentry
      exact (Except.error.inj hentry).symm
    simp [hentry, hfault]
  | case3 tree i hmore len hhead hentry =>
    rw [bufferToTreeLoop, if_pos hmore, hhead]
    simp [hentry]
  | case4 tree i hmore len hhead entry hentry ih =>
    rw [bufferToTreeLoop, if_pos hmore, hhead]
    simp only [hentry]
    exact ih
  | case5 tree i hdone =>
    rw [bufferToTreeLoop, if_neg hdone]
    simp

/-! ## Buffers -/

theorem bufferToTree_eq_loop {buffer : List UInt8} (hne : buffer ≠ []) :
    bufferToTree codec buffer buffer.length
      = bufferToTreeLoop codec buffer buffer.length treeCreate 0 := by
  have hpos := List.length_pos_iff.2 hne
  rw [bufferToTree, if_neg (by omega)]

/-- Exactly the frames are decoded, to the tree of their entries. -/
theorem bufferToTree_ok_iff {buffer : List UInt8} (hne : buffer ≠ []) (tree : TreeT) :
    bufferToTree codec buffer buffer.length = .ok tree ↔
      ∃ ms, EntryFrames codec buffer ms ∧ tree = ms.foldl putEntryMessage treeCreate := by
  rw [bufferToTree_eq_loop hne]
  constructor
  · intro h
    exact frames_of_bufferToTreeLoop treeCreate 0 h
  · intro ⟨ms, hframes, htree⟩
    rw [htree]
    exact bufferToTreeLoop_of_frames hframes [] treeCreate

/-- **When `buffer_to_tree` keeps to its contract.** For every buffer that is not empty,
`buffer_to_tree` returns NULL for want of a well-formed buffer, or the tree of the entries in the
buffer, if and only if the buffer is a concatenation of length-prefixed encodings, each of an
entry with key and value. -/
theorem bufferToTree_decodesOrRefuses_iff (codec : EntryCodec) {buffer : List UInt8}
    (hne : buffer ≠ []) : DecodesOrRefuses codec buffer ↔
      ∃ ms, EntryFrames codec buffer ms ∧ ∀ m ∈ ms, m.Complete := by
  constructor
  · intro h
    rcases h with ⟨hrefused, -⟩ | ⟨ms, hframes, hcomplete, -⟩
    · rw [bufferToTree_eq_loop hne] at hrefused
      exact absurd hrefused (bufferToTreeLoop_ne_refused treeCreate 0)
    · exact ⟨ms, hframes, hcomplete⟩
  · intro ⟨ms, hframes, hcomplete⟩
    exact Or.inr ⟨ms, hframes, hcomplete, (bufferToTree_ok_iff hne _).2 ⟨ms, hframes, rfl⟩⟩

end Loop

/-- The frame of an entry, in front of other frames. -/
theorem entryFrames_frame {e : EntryT} {rest : List UInt8} {ms : List EntryMessage}
    (hsmall : (packEntryMessage (entryMessage e)).length < 2 ^ 31)
    (h : EntryFrames wireCodec rest ms) : ∃ m, wireCodec.unpack (wireCodec.pack (entryMessage e))
      = some m ∧ EntryFrames wireCodec (frame wireCodec e ++ rest) (m :: ms) := by
  have hread := readInt_intBytes hsmall []
  rw [List.append_nil] at hread
  refine ⟨_, unpackEntryMessage_pack _, ?_⟩
  rw [frame, List.append_assoc]
  exact .cons (length_intBytes _) hread (unpackEntryMessage_pack _) h

/-- Two entries, the second with an empty value. -/
theorem bufferToTree_decodesOrRefuses_two : DecodesOrRefuses wireCodec
    (frame wireCodec entryK ++ frame wireCodec ⟨some ⟨[106], by decide⟩, some emptyData⟩) := by
  have hne : frame wireCodec entryK ++ frame wireCodec ⟨some ⟨[106], by decide⟩, some emptyData⟩
      ≠ [] := by decide +kernel
  obtain ⟨m₂, hm₂, hframe₂⟩ := @entryFrames_frame ⟨some ⟨[106], by decide⟩, some emptyData⟩ _ _
    (by decide +kernel) .nil
  obtain ⟨m₁, hm₁, hframes⟩ := @entryFrames_frame entryK _ _ (by decide +kernel) hframe₂
  rw [List.append_nil] at hframes
  refine (bufferToTree_decodesOrRefuses_iff wireCodec hne).2 ⟨_, hframes, ?_⟩
  intro m hm
  rcases List.mem_cons.1 hm with rfl | hm
  · obtain rfl := Option.some.inj ((unpackEntryMessage_pack _).symm.trans hm₁)
    exact ⟨rfl, rfl⟩
  · obtain rfl := List.mem_singleton.1 hm
    obtain rfl := Option.some.inj ((unpackEntryMessage_pack _).symm.trans hm₂)
    exact ⟨rfl, rfl⟩

/-- An entry of length -1: `buffer_to_entry` answers NULL, and the key is read through it. -/
theorem bufferToTree_negative_length : ∃ buffer : List UInt8, buffer ≠ [] ∧
    bufferToTree wireCodec buffer buffer.length = .error .fault ∧
      ¬ DecodesOrRefuses wireCodec buffer := by
  have hne : ([255, 255, 255, 255] : List UInt8) ≠ [] := by simp
  have hhead : readInt (([255, 255, 255, 255] : List UInt8).drop 0) = some (-1) := by decide
  have hfault : bufferToTree wireCodec [255, 255, 255, 255]
      ([255, 255, 255, 255] : List UInt8).length = .error .fault := by
    rw [bufferToTree_eq_loop hne, bufferToTreeLoop, if_pos (by decide), hhead]
    rfl
  refine ⟨[255, 255, 255, 255], hne, hfault, ?_⟩
  intro h
  rcases h with ⟨hrefused, -⟩ | ⟨ms, -, -, hok⟩
  · rw [hfault] at hrefused
    exact absurd hrefused (by decide)
  · rw [hfault] at hok
    exact absurd hok (by simp)

end ReplicatedTree
