import Mathlib.Algebra.Order.BigOperators.Group.List
import Mathlib.Algebra.Order.Group.Nat
import ReplicatedTree.Serialization
import ReplicatedTree.TreeTheorems

/-!
# A tree survives its buffer — theorems about `Serialization`

`tree_to_buffer` writes one frame for each node, in pre-order, and fills the buffer exactly
(`treeToBuffer_eq`). `buffer_to_tree` puts the entries back in that order
(`bufferToTreeLoop_of_frames`), and inserting the pre-order listing of a search tree rebuilds
the tree (`SearchTree.foldl_insert_preorder`).
-/

namespace ReplicatedTree

open SearchTree

/-! ## Integers -/

theorem toInt32_of_lt {n : ℤ} (h0 : 0 ≤ n) (h : n < 2 ^ 31) : toInt32 n = n := by
  unfold toInt32
  apply Int.bmod_eq_of_le_mul_two <;> omega

theorem toInt32_le (n : ℕ) : toInt32 n ≤ n := by
  unfold toInt32
  rw [Int.bmod_def]
  split_ifs <;> omega

@[simp] theorem length_intBytes (n : ℤ) : (intBytes n).length = 4 := by simp [intBytes]

/-- A length that fits an `int` is read back. -/
theorem readInt_intBytes {n : ℕ} (h : n < 2 ^ 31) (rest : List UInt8) :
    readInt (intBytes n ++ rest) = some (n : ℤ) := by
  have hmod : ((n : ℤ) % 2 ^ 32).toNat = n := by omega
  have hbytes : intBytes n = [UInt8.ofNat n, UInt8.ofNat (n / 256), UInt8.ofNat (n / 65536),
      UInt8.ofNat (n / 16777216)] := by
    unfold intBytes
    rw [hmod]
    simp [List.range_succ]
  rw [hbytes]
  simp only [List.cons_append, List.nil_append, readInt, UInt8.toNat_ofNat', Option.some.injEq]
  have hsum : ((n % 2 ^ 8 : ℕ) : ℤ) + 256 * ((n / 256 % 2 ^ 8 : ℕ) : ℤ)
      + 256 ^ 2 * ((n / 65536 % 2 ^ 8 : ℕ) : ℤ) + 256 ^ 3 * ((n / 16777216 % 2 ^ 8 : ℕ) : ℤ)
      = n := by omega
  rw [hsum]
  exact toInt32_of_lt (by omega) (by omega)

/-! ## Encoding -/

section Encoding

variable (codec : EntryCodec)

/-- The bytes of an entry, with their length in front. -/
def frame (e : EntryT) : List UInt8 :=
  intBytes (codec.pack (entryMessage e)).length ++ codec.pack (entryMessage e)

/-- The packed entry is not too long for an `int`. -/
def EntryT.Small (e : EntryT) : Prop := (codec.pack (entryMessage e)).length < 2 ^ 31

variable {codec}

theorem entryToBuffer_eq {e : EntryT} (h : e.Small codec) : entryToBuffer codec e
    = .ok (((codec.pack (entryMessage e)).length : ℤ), some (codec.pack (entryMessage e))) := by
  have hlen : (codec.pack (entryMessage e)).length < 2 ^ 31 := h
  have hint : toInt32 (codec.pack (entryMessage e)).length
      = ((codec.pack (entryMessage e)).length : ℤ) := toInt32_of_lt (by omega) (by omega)
  unfold entryToBuffer
  simp only [hint]
  rw [if_neg (by omega), if_neg (by omega)]

/-! ### The writes, index by index -/

/-- The writes of `_collect_entry_bufs` into its two arrays, and the index it returns. -/
def collectEntryBufsWrites (codec : EntryCodec) : BinaryTree EntryT → ℕ →
    Except Failure (List (ℕ × List UInt8) × List (ℕ × ℤ) × ℕ)
  | .nil, nextIndex => .ok ([], [], nextIndex)
  | .node entry left right, nextIndex => do
    let (len, buf) ← entryToBuffer codec entry
    let (leftBufs, leftLens, nextIndex') ← collectEntryBufsWrites codec left (nextIndex + 1)
    let (rightBufs, rightLens, lastIndex) ← collectEntryBufsWrites codec right nextIndex'
    return (buf.toList.map (nextIndex, ·) ++ (leftBufs ++ rightBufs),
      (nextIndex, len) :: (leftLens ++ rightLens), lastIndex)

/-- The bytes that the second loop of `tree_to_buffer` writes, and its last `current_index`. -/
def copyEntriesWrites : List (List UInt8 × ℤ) → ℕ → Except Failure (List (ℕ × UInt8) × ℕ)
  | [], currentIndex => .ok ([], currentIndex)
  | (entryBuf, len) :: rest, currentIndex =>
    if len < 0 ∨ entryBuf.length < len.toNat then .error .fault
    else do
      let (bytes, lastIndex) ← copyEntriesWrites rest (currentIndex + 4 + len.toNat)
      return (Cells.writesFrom currentIndex (intBytes len)
        ++ (Cells.writesFrom (currentIndex + 4) (entryBuf.take len.toNat) ++ bytes), lastIndex)

/-- `_collect_entry_bufs` changes the arrays by these writes only. -/
def CollectsBy (codec : EntryCodec) (node : BinaryTree EntryT) (i : ℕ)
    (bufs : List (ℕ × List UInt8)) (lens : List (ℕ × ℤ)) (j : ℕ) : Prop :=
  ∀ entriesBufs lenEntriesBufs, collectEntryBufs codec node entriesBufs lenEntriesBufs i = do
    let entriesBufs ← orFault (entriesBufs.writes bufs)
    let lenEntriesBufs ← orFault (lenEntriesBufs.writes lens)
    return (entriesBufs, lenEntriesBufs, j)

/-- The loop changes the buffer by these writes only. -/
def CopiesBy (entries : List (List UInt8 × ℤ)) (i : ℕ) (bytes : List (ℕ × UInt8)) : Prop :=
  ∀ buffer, copyEntries entries buffer i = orFault (buffer.writes bytes)

theorem collectEntryBufs_eq_writes {node : BinaryTree EntryT} {i j : ℕ}
    {bufs : List (ℕ × List UInt8)} {lens : List (ℕ × ℤ)}
    (h : collectEntryBufsWrites codec node i = .ok (bufs, lens, j)) :
    CollectsBy codec node i bufs lens j := by
  induction node generalizing i j bufs lens with
  | nil =>
    cases h
    intro entriesBufs lenEntriesBufs
    rfl
  | node e l r ihl ihr =>
    intro entriesBufs lenEntriesBufs
    rw [collectEntryBufsWrites] at h
    obtain ⟨⟨len, buf⟩, he, h⟩ := exists_of_bind_ok h
    obtain ⟨⟨leftBufs, leftLens, next⟩, hl, h⟩ := exists_of_bind_ok h
    obtain ⟨⟨rightBufs, rightLens, last⟩, hr, h⟩ := exists_of_bind_ok h
    cases h
    have hleft := ihl hl
    have hright := ihr hr
    unfold CollectsBy at hleft hright
    -- the writes below the node
    have hbelow : ∀ c d, (collectEntryBufs codec l c d (i + 1) >>= fun w =>
        collectEntryBufs codec r w.1 w.2.1 w.2.2) = do
          let c ← orFault (c.writes (leftBufs ++ rightBufs))
          let d ← orFault (d.writes (leftLens ++ rightLens))
          return (c, d, j) := by
      intro c d
      rw [hleft, Cells.writes_append, Cells.writes_append, orFault_bind, orFault_bind]
      simp only [bind_assoc, pure_bind, hright]
      exact bind_congr fun c => orFault_comm _ _ _
    rw [collectEntryBufs, he, ok_bind]
    cases buf with
    | none =>
      rw [Option.toList_none, List.map_nil, List.nil_append]
      show (orFault (lenEntriesBufs.write i len) >>= fun d =>
        collectEntryBufs codec l entriesBufs d (i + 1) >>= fun w =>
          collectEntryBufs codec r w.1 w.2.1 w.2.2) = _
      simp only [hbelow, Cells.writes, orFault_bind, bind_assoc]
      exact orFault_comm _ _ _
    | some buf =>
      show (orFault (entriesBufs.write i buf) >>= fun c => orFault (lenEntriesBufs.write i len)
        >>= fun d => collectEntryBufs codec l c d (i + 1) >>= fun w =>
          collectEntryBufs codec r w.1 w.2.1 w.2.2) = _
      simp only [hbelow, Option.toList_some, List.map_cons, List.map_nil, List.singleton_append,
        Cells.writes, orFault_bind, bind_assoc]
      exact bind_congr fun c => orFault_comm _ _ _

theorem copyEntries_eq_writes {entries : List (List UInt8 × ℤ)} {i j : ℕ}
    {bytes : List (ℕ × UInt8)} (h : copyEntriesWrites entries i = .ok (bytes, j)) :
    CopiesBy entries i bytes := by
  induction entries generalizing i j bytes with
  | nil =>
    cases h
    intro buffer
    rfl
  | cons entry rest ih =>
    obtain ⟨entryBuf, len⟩ := entry
    by_cases hlen : len < 0 ∨ entryBuf.length < len.toNat
    · rw [copyEntriesWrites, if_pos hlen] at h
      cases h
    · rw [copyEntriesWrites, if_neg hlen] at h
      obtain ⟨⟨restBytes, last⟩, hrest, h⟩ := exists_of_bind_ok h
      cases h
      have hcopies := ih hrest
      unfold CopiesBy at hcopies
      intro buffer
      have hheader : intBytes len ≠ [] := by
        intro hnil
        have := length_intBytes len
        rw [hnil] at this
        exact absurd this (by decide)
      rw [copyEntries, Cells.writeBlock_eq_writes (Or.inl hheader), Cells.writes_append,
        orFault_bind]
      cases hwritten : buffer.writes (Cells.writesFrom i (intBytes len)) with
      | none => rfl
      | some buffer' =>
        -- the header was written, so the body starts inside the buffer
        have hroom : i + 4 ≤ buffer'.length := by
          rw [← Cells.writeBlock_eq_writes (Or.inl hheader)] at hwritten
          unfold Cells.writeBlock at hwritten
          split_ifs at hwritten with hfits
          rw [length_intBytes] at hfits
          rw [← Option.some.inj hwritten]
          simp only [List.length_append, List.length_take, List.length_map, List.length_drop,
            length_intBytes]
          omega
        rw [orFault_some, ok_bind, if_neg hlen, ok_bind,
          Cells.writeBlock_eq_writes (Or.inr hroom), Cells.writes_append, orFault_bind]
        exact bind_congr hcopies

theorem collectEntryBufsWrites_eq {node : BinaryTree EntryT}
    (h : ∀ e ∈ preorder node, e.Small codec) (i : ℕ) : collectEntryBufsWrites codec node i = .ok
      (Cells.writesFrom i ((preorder node).map fun e => codec.pack (entryMessage e)),
        Cells.writesFrom i ((preorder node).map fun e =>
          ((codec.pack (entryMessage e)).length : ℤ)),
        i + (preorder node).length) := by
  induction node generalizing i with
  | nil => rfl
  | node e l r ihl ihr =>
    simp only [preorder_node, List.mem_cons, List.mem_append] at h
    have he := entryToBuffer_eq (h e (Or.inl rfl))
    have hl := ihl (fun a ha => h a (Or.inr (Or.inl ha))) (i + 1)
    have hr := ihr (fun a ha => h a (Or.inr (Or.inr ha))) (i + 1 + (preorder l).length)
    rw [collectEntryBufsWrites, he, ok_bind]
    dsimp only
    rw [hl, ok_bind, hr, ok_bind, preorder_node, List.map_cons, List.map_append, List.map_cons,
      List.map_append, Cells.writesFrom, Cells.writesFrom, Cells.writesFrom_append,
      Cells.writesFrom_append, List.length_map, List.length_map, List.length_cons,
      List.length_append]
    have hlast : i + 1 + (preorder l).length + (preorder r).length
        = i + ((preorder l).length + (preorder r).length + 1) := by omega
    rw [hlast]
    rfl

theorem copyEntriesWrites_eq (bufs : List (List UInt8)) (i : ℕ) :
    copyEntriesWrites (bufs.map fun buf => (buf, (buf.length : ℤ))) i = .ok
      (Cells.writesFrom i (bufs.flatMap fun buf => intBytes buf.length ++ buf),
        i + (bufs.map fun buf => 4 + buf.length).sum) := by
  induction bufs generalizing i with
  | nil => rfl
  | cons buf bufs ih =>
    have hlen : ¬ ((buf.length : ℤ) < 0 ∨ buf.length < (buf.length : ℤ).toNat) := by omega
    rw [List.map_cons, copyEntriesWrites, if_neg hlen, Int.toNat_natCast, ih, ok_bind,
      List.flatMap_cons, Cells.writesFrom_append, Cells.writesFrom_append, List.length_append,
      length_intBytes, List.take_length, List.append_assoc, List.map_cons, List.sum_cons]
    have hnext : i + 4 + buf.length = i + (4 + buf.length) := by omega
    rw [hnext, Nat.add_assoc]
    rfl

/-! ### The buffer -/

theorem sumLengths_eq (lens : List ℕ) (total : ℕ)
    (h : total + (lens.map fun n => 4 + n).sum < 2 ^ 31) :
    sumLengths (lens.map Int.ofNat) total
      = .ok ((total + (lens.map fun n => 4 + n).sum : ℕ) : ℤ) := by
  induction lens generalizing total with
  | nil => rfl
  | cons n lens ih =>
    rw [List.map_cons, List.sum_cons] at h
    have hint : toInt32 ((total : ℤ) + 4) = ((total + 4 : ℕ) : ℤ) := by
      rw [toInt32_of_lt (by omega) (by omega)]
      rfl
    have hfits : FitsInt32 (((total + 4 : ℕ) : ℤ) + Int.ofNat n) := by
      unfold FitsInt32
      rw [Int.ofNat_eq_natCast]
      omega
    have hsum : ((total + 4 : ℕ) : ℤ) + Int.ofNat n = ((total + 4 + n : ℕ) : ℤ) := rfl
    rw [List.map_cons, sumLengths]
    simp only [hint]
    have htotal : total + 4 + n + (lens.map fun n => 4 + n).sum
        = total + (4 + n + (lens.map fun n => 4 + n).sum) := by omega
    rw [if_pos hfits, hsum, ih (total + 4 + n) (by omega), List.map_cons, List.sum_cons, htotal]

theorem length_flatMap_frames (bufs : List (List UInt8)) :
    (bufs.flatMap fun buf => intBytes buf.length ++ buf).length
      = (bufs.map fun buf => 4 + buf.length).sum := by
  rw [List.length_flatMap]
  simp only [List.length_append, length_intBytes]

/-- The frames fill the buffer front to back. -/
theorem copyEntries_filled (bufs : List (List UInt8)) (bytes : List UInt8) (n : ℕ) :
    copyEntries (bufs.map fun buf => (buf, (buf.length : ℤ)))
        (Cells.filled bytes ((bufs.map fun buf => 4 + buf.length).sum + n)) bytes.length
      = .ok (Cells.filled (bytes ++ bufs.flatMap fun buf => intBytes buf.length ++ buf) n) := by
  have hfilled := Cells.writes_filled bytes
    (bufs.flatMap fun buf => intBytes buf.length ++ buf) n
  rw [length_flatMap_frames] at hfilled
  rw [copyEntries_eq_writes (copyEntriesWrites_eq bufs bytes.length), hfilled, orFault_some]

theorem small_of_mem {tree : TreeT} (hlen : encodedLength codec tree < 2 ^ 31) {e : EntryT}
    (he : e ∈ preorder tree.root) : e.Small codec := by
  have hle := List.single_le_sum (fun x _ => Nat.zero_le x) _
    (List.mem_map_of_mem (f := fun e => 4 + (codec.pack (entryMessage e)).length) he)
  unfold encodedLength at hlen
  unfold EntryT.Small
  omega

/-- The packed entries in pre-order. -/
def packedEntries (codec : EntryCodec) (tree : TreeT) : List (List UInt8) :=
  (preorder tree.root).map fun e => codec.pack (entryMessage e)

theorem size_packedEntries {tree : TreeT} (h : tree.Shape) :
    tree.size.toNat = (packedEntries codec tree).length := by
  rw [h.size_eq, packedEntries, List.length_map, length_preorder]
  omega

theorem sum_packedEntries (tree : TreeT) :
    ((packedEntries codec tree).map fun buf => 4 + buf.length).sum
      = encodedLength codec tree := by
  rw [packedEntries, List.map_map]
  rfl

theorem flatMap_packedEntries (tree : TreeT) :
    ((packedEntries codec tree).flatMap fun buf => intBytes buf.length ++ buf)
      = (preorder tree.root).flatMap (frame codec) := by
  rw [packedEntries, List.flatMap_map]
  rfl

theorem zip_lengths (bufs : List (List UInt8)) :
    bufs.zip (bufs.map fun buf => (buf.length : ℤ))
      = bufs.map fun buf => (buf, (buf.length : ℤ)) := by
  have hpairs := @List.zip_map' _ _ _ id (fun buf : List UInt8 => (buf.length : ℤ)) bufs
  rwa [List.map_id] at hpairs

theorem sumLengths_packedEntries {tree : TreeT} (hlen : encodedLength codec tree < 2 ^ 31) :
    sumLengths ((packedEntries codec tree).map fun buf => (buf.length : ℤ)) 0
      = .ok ((encodedLength codec tree : ℕ) : ℤ) := by
  have htotal : (((packedEntries codec tree).map List.length).map fun n => 4 + n).sum
      = encodedLength codec tree := by
    rw [List.map_map]
    exact sum_packedEntries tree
  have hsum := sumLengths_eq ((packedEntries codec tree).map List.length) 0
    (by rw [htotal]; omega)
  rwa [htotal, Nat.zero_add, List.map_map] at hsum

/-- What `_collect_entry_bufs` writes for a tree, from index 0 on. -/
theorem collectEntryBufsWrites_tree {tree : TreeT} (h : tree.Shape)
    (hlen : encodedLength codec tree < 2 ^ 31) : collectEntryBufsWrites codec tree.root 0 = .ok
      (Cells.writesFrom 0 (packedEntries codec tree),
        Cells.writesFrom 0 ((packedEntries codec tree).map fun buf => (buf.length : ℤ)),
        tree.size.toNat) := by
  rw [collectEntryBufsWrites_eq (fun e he => small_of_mem hlen he) 0, Nat.zero_add,
    size_packedEntries h, packedEntries, List.map_map, List.length_map]
  rfl

/-- The buffer of a tree: the frames of its entries in pre-order. -/
theorem treeToBuffer_of_shape {tree : TreeT} (h : tree.Shape)
    (hlen : encodedLength codec tree < 2 ^ 31) : treeToBuffer codec tree
      = .ok ((encodedLength codec tree : ℤ), (preorder tree.root).flatMap (frame codec)) := by
  have hsize : tree.size.toNat = (packedEntries codec tree).length := size_packedEntries h
  have hbufs := Cells.writes_filled [] (packedEntries codec tree) 0
  have hlens := Cells.writes_filled []
    ((packedEntries codec tree).map fun buf => (buf.length : ℤ)) 0
  have hcopy := copyEntries_filled (packedEntries codec tree) [] 0
  rw [List.length_map] at hlens
  rw [sum_packedEntries, flatMap_packedEntries] at hcopy
  simp only [List.length_nil, List.nil_append, Nat.add_zero] at hbufs hlens hcopy
  have hcollect : collectEntryBufs codec tree.root (Cells.filled [] tree.size.toNat)
      (Cells.filled [] tree.size.toNat) 0 = .ok (Cells.filled (packedEntries codec tree) 0,
        Cells.filled ((packedEntries codec tree).map fun buf => (buf.length : ℤ)) 0,
        tree.size.toNat) := by
    rw [collectEntryBufs_eq_writes (collectEntryBufsWrites_tree h hlen), hsize, hbufs,
      orFault_some, ok_bind, hlens, orFault_some, ok_bind]
    rfl
  have hnonneg : ¬ ((encodedLength codec tree : ℤ) < 0) := by omega
  unfold treeToBuffer
  simp only [Cells.alloc_eq, hcollect, orFault_some, ok_bind, Cells.contents_filled,
    sumLengths_packedEntries hlen, if_neg hnonneg, zip_lengths, Int.toNat_natCast, hcopy]
  rfl

theorem treeToBuffer_eq {tree : TreeT} (h : tree.Inv)
    (hlen : encodedLength codec tree < 2 ^ 31) : treeToBuffer codec tree
      = .ok ((encodedLength codec tree : ℤ), (preorder tree.root).flatMap (frame codec)) :=
  treeToBuffer_of_shape h.shape hlen

/-! ## Decoding -/

variable (codec)

/-- The format of the buffer: a concatenation of encodings, each after the `int` that is its
length. -/
inductive EntryFrames : List UInt8 → List EntryMessage → Prop
  | nil : EntryFrames [] []
  | cons {header bytes rest : List UInt8} {m : EntryMessage} {ms : List EntryMessage}
    (hheader : header.length = 4) (hlen : readInt header = some (bytes.length : ℤ))
    (hm : codec.unpack bytes = some m) (hrest : EntryFrames rest ms) :
    EntryFrames (header ++ (bytes ++ rest)) (m :: ms)

/-- `tree_put` of a decoded entry. -/
def putEntryMessage (tree : TreeT) (m : EntryMessage) : TreeT :=
  (treePut tree (msgToString m.key) (msgToData m.value)).1

/-- An entry after it was packed and unpacked. -/
def reread (e : EntryT) : EntryT :=
  (msgToEntry (codec.unpack (codec.pack (entryMessage e)))).getD e

variable {codec}

theorem readInt_append {header : List UInt8} (h : header.length = 4) (rest : List UInt8) :
    readInt (header ++ rest) = readInt header := by
  match header, h with
  | [b0, b1, b2, b3], _ => rfl

theorem bufferToEntry_of_unpack {bytes : List UInt8} {m : EntryMessage}
    (hm : codec.unpack bytes = some m) (rest : List UInt8) :
    bufferToEntry codec (bytes ++ rest) bytes.length
      = .ok (some (entryCreate (msgToString m.key) (msgToData m.value))) := by
  have hneg : ¬ ((bytes.length : ℤ) < 0) := by omega
  have hroom : ¬ ((bytes ++ rest).length < (bytes.length : ℤ).toNat) := by
    rw [List.length_append]
    omega
  rw [bufferToEntry, if_neg hneg, if_neg hroom, Int.toNat_natCast, List.take_left, hm]
  rfl

/-- The loop puts the entries of the frames one after another. -/
theorem bufferToTreeLoop_of_frames {rest : List UInt8} {ms : List EntryMessage}
    (h : EntryFrames codec rest ms) (done : List UInt8) (tree : TreeT) :
    bufferToTreeLoop codec (done ++ rest) ((done ++ rest).length : ℤ) tree done.length
      = .ok (ms.foldl putEntryMessage tree) := by
  induction h generalizing done tree with
  | nil =>
    rw [bufferToTreeLoop]
    simp
  | @cons header bytes rest m ms hheader hlen hm _ ih =>
    have hmore : (done.length : ℤ) < ((done ++ (header ++ (bytes ++ rest))).length : ℤ) := by
      rw [List.length_append, List.length_append, hheader]
      omega
    have hbody : (done ++ (header ++ (bytes ++ rest))).drop (done.length + 4)
        = bytes ++ rest := by
      rw [← List.drop_drop, List.drop_left, List.drop_left' hheader]
    have hnext : done.length + 4 + (bytes.length : ℤ).toNat
        = (done ++ (header ++ bytes)).length := by
      rw [List.length_append, List.length_append, hheader, Int.toNat_natCast]
      omega
    rw [bufferToTreeLoop, if_pos hmore, List.drop_left, readInt_append hheader, hlen, hbody]
    simp only [bufferToEntry_of_unpack hm, hnext]
    have hrest := ih (done ++ (header ++ bytes)) (putEntryMessage tree m)
    simp only [List.append_assoc] at hrest ⊢
    exact hrest

/-- What `tree_to_buffer` writes has the format. -/
theorem entryFrames_frames (es : List EntryT) (hsmall : ∀ e ∈ es, e.Small codec)
    (hread : ∀ e ∈ es, (codec.unpack (codec.pack (entryMessage e))).isSome) :
    ∃ ms, EntryFrames codec (es.flatMap (frame codec)) ms ∧ ∀ tree,
      ms.foldl putEntryMessage tree
        = (es.map (reread codec)).foldl (fun t e => (treePut t e.key e.value).1) tree := by
  induction es with
  | nil => exact ⟨[], .nil, fun _ => rfl⟩
  | cons e es ih =>
    obtain ⟨ms, hframes, hput⟩ := ih (fun a ha => hsmall a (List.mem_cons_of_mem _ ha))
      fun a ha => hread a (List.mem_cons_of_mem _ ha)
    obtain ⟨m, hm⟩ := Option.isSome_iff_exists.1 (hread e List.mem_cons_self)
    have hlen : readInt (intBytes (codec.pack (entryMessage e)).length)
        = some ((codec.pack (entryMessage e)).length : ℤ) := by
      rw [← List.append_nil (intBytes _)]
      exact readInt_intBytes (hsmall e List.mem_cons_self) []
    have hreread : reread codec e = entryCreate (msgToString m.key) (msgToData m.value) := by
      rw [reread, hm]
      rfl
    refine ⟨m :: ms, ?_, ?_⟩
    · rw [List.flatMap_cons, frame, List.append_assoc]
      exact .cons (length_intBytes _) hlen hm hframes
    · intro tree
      rw [List.foldl_cons, List.map_cons, List.foldl_cons, hreread]
      exact hput _

/-! ## The entries that come back -/

/-- A value read from a message with the length and the bytes of a valid one. -/
theorem msgToData_of_bytes {d : DataT} (hvalid : d.Valid) {v : DataMessage}
    (hlen : d.datasize = v.len) (hbytes : (copy d.data d.datasize).getD [] = v.bytes) :
    ∃ d', msgToData (some v) = some d' ∧ d'.Valid ∧ d.SameBytes d' := by
  rw [hvalid.copy_data] at hbytes
  have hnonneg := hvalid.nonneg
  have hcopy : copy v.data v.len = v.data := copy_eq_self (by omega) v.data_length
  -- a block that is not empty is not NULL
  have hdata : v.len ≠ 0 → v.data.isSome := by
    intro hzero
    obtain ⟨b, hb⟩ := Option.isSome_iff_exists.1 (isSome_of_params hvalid (by omega))
    have hblen := d.data_length b hb
    by_contra hnone
    rw [Option.not_isSome_iff_eq_none] at hnone
    rw [hb, DataMessage.bytes, hnone] at hbytes
    have hbnil : b = [] := hbytes
    rw [hbnil, List.length_nil] at hblen
    omega
  have hok : areParamsInvalid v.len (copy v.data v.len) = false := by
    have hv : ¬ v.len < 0 := by omega
    rw [hcopy]
    simpa [areParamsInvalid, hv] using hdata
  refine ⟨⟨v.len, copy v.data v.len, length_copy v.data_length⟩, ?_, hok, hlen, ?_⟩
  · show dataCreate2 _ _ _ = _
    rw [dataCreate2, if_neg (by rw [hok]; decide)]
  · show d.data.getD [] = (copy v.data v.len).getD []
    rw [hcopy]
    exact hbytes

/-- A stored entry comes back with the same key and an equal value. -/
theorem reread_same (hcodec : codec.Faithful) {e : EntryT} (h : e.Stored) :
    (codec.unpack (codec.pack (entryMessage e))).isSome ∧
      e.Same (reread codec e) ∧ (reread codec e).Stored := by
  obtain ⟨key, value⟩ := e
  obtain ⟨k, rfl⟩ := Option.ne_none_iff_exists'.1 h.key_ne_null
  obtain ⟨d, hd, hvalid⟩ := h.value_valid
  dsimp only at hd
  subst hd
  have hpack : (entryMessage ⟨some k, some d⟩).Packable := by
    intro v hv
    obtain rfl := Option.some.inj hv
    exact areParamsInvalid_copy hvalid
  obtain ⟨⟨mkey, mvalue⟩, hm, hequal⟩ := hcodec _ hpack
  have hkey : mkey = some ⟨k⟩ := hequal.key_eq.symm
  have hsome : mvalue.isSome = true := hequal.isSome_eq.symm
  obtain ⟨v, rfl⟩ := Option.isSome_iff_exists.1 hsome
  obtain ⟨hlen, hbytes⟩ := hequal.value_eq _ rfl v rfl
  obtain ⟨d', hd', hvalid', hsame⟩ := msgToData_of_bytes hvalid hlen hbytes
  have hread : msgToEntry (codec.unpack (codec.pack (entryMessage ⟨some k, some d⟩)))
      = some ⟨some k, some d'⟩ := by
    rw [hm, hkey]
    simp only [msgToEntry, Option.map_some, hd']
    rfl
  have hreread : reread codec ⟨some k, some d⟩ = ⟨some k, some d'⟩ := by
    rw [reread, hread]
    rfl
  rw [hreread, hm]
  exact ⟨rfl, ⟨rfl, d, d', rfl, rfl, hsame⟩, ⟨by simp, d', rfl, hvalid'⟩⟩

end Encoding

/-! ## The tree that comes back -/

/-- Putting stored entries one after another inserts them one after another. -/
theorem foldl_treePut (es : List EntryT) {tree : TreeT} (h : tree.Inv)
    (hes : ∀ e ∈ es, e.Stored) :
    (es.foldl (fun t e => (treePut t e.key e.value).1) tree).Inv ∧
      (es.foldl (fun t e => (treePut t e.key e.value).1) tree).root
        = es.foldl (fun t e => insertNode EntryT.orderKey e t) tree.root := by
  induction es generalizing tree with
  | nil => exact ⟨h, rfl⟩
  | cons e es ih =>
    obtain ⟨key, value⟩ := e
    have he := hes _ List.mem_cons_self
    obtain ⟨k, rfl⟩ := Option.ne_none_iff_exists'.1 he.key_ne_null
    obtain ⟨d, hd, hvalid⟩ := he.value_valid
    dsimp only at hd
    subst hd
    have hroot : (treePut tree (some k) (some d)).1.root
        = insertNode EntryT.orderKey ⟨some k, some d⟩ tree.root := by
      rw [treePut_eq h.shape, dataDup_of_valid hvalid]
      rfl
    rw [List.foldl_cons, List.foldl_cons, ← hroot]
    exact ih (h.put k hvalid) fun a ha => hes a (List.mem_cons_of_mem _ ha)

theorem sameNodes_map {f : EntryT → EntryT} (node : BinaryTree EntryT)
    (h : ∀ e ∈ inorder node, e.Same (f e)) : SameNodes node (node.map f) := by
  induction node with
  | nil => trivial
  | node e l r ihl ihr =>
    simp only [inorder_node, List.mem_append, List.mem_cons] at h
    exact ⟨h e (Or.inr (Or.inl rfl)), ihl fun a ha => h a (Or.inl ha),
      ihr fun a ha => h a (Or.inr (Or.inr ha))⟩

theorem bufferToTree_eq {codec : EntryCodec} (hcodec : codec.Faithful) {tree : TreeT}
    (h : tree.Inv) (hne : tree.root ≠ .nil) (hlen : encodedLength codec tree < 2 ^ 31) :
    ∃ tree', bufferToTree codec ((preorder tree.root).flatMap (frame codec))
        (encodedLength codec tree) = .ok tree' ∧
      tree'.root = tree.root.map (reread codec) ∧ tree'.Inv := by
  have hstored : ∀ e ∈ preorder tree.root, e.Stored := fun e he =>
    h.stored e (mem_preorder.1 he)
  have hsmall : ∀ e ∈ preorder tree.root, e.Small codec := fun e he => small_of_mem hlen he
  have hlength : (([] : List UInt8) ++ (preorder tree.root).flatMap (frame codec)).length
      = encodedLength codec tree := by
    rw [List.nil_append, List.length_flatMap, encodedLength]
    simp only [frame, List.length_append, length_intBytes]
  have hpos : 0 < encodedLength codec tree := by
    cases hroot : tree.root with
    | nil => exact absurd hroot hne
    | node e l r =>
      unfold encodedLength
      rw [hroot, preorder_node, List.map_cons, List.sum_cons]
      omega
  obtain ⟨ms, hframes, hput⟩ := entryFrames_frames (preorder tree.root) hsmall
    fun e he => (reread_same hcodec (hstored e he)).1
  have hloop := bufferToTreeLoop_of_frames hframes [] treeCreate
  rw [hput, hlength, ← preorder_map] at hloop
  have hmapped : ∀ e ∈ preorder (tree.root.map (reread codec)), e.Stored := by
    intro e he
    rw [preorder_map] at he
    obtain ⟨e', he', rfl⟩ := List.mem_map.1 he
    exact (reread_same hcodec (hstored e' he')).2.2
  obtain ⟨hinv, hroot⟩ := foldl_treePut _ treeCreate_inv hmapped
  have hordered : Ordered EntryT.orderKey (tree.root.map (reread codec)) := by
    apply h.orderKey.map
    intro e he
    exact congrArg keyOrder (reread_same hcodec (h.stored e he)).2.1.1.symm
  refine ⟨_, ?_, ?_, hinv⟩
  · unfold bufferToTree
    rw [if_neg (by omega)]
    exact hloop
  · rw [hroot]
    exact foldl_insert_preorder hordered

/-- **Round trip of trees.** For every tree that is not empty and whose buffer is shorter than
2^31 bytes, `tree_to_buffer` fills a buffer of that length, and `buffer_to_tree` makes of it
a tree of the same shape, with the same key and an equal value at every node, the same size
and the same height. -/
theorem tree_round_trip {codec : EntryCodec} (hcodec : codec.Faithful) (ops : List TreeOp)
    (hne : (treeAfter ops).root ≠ .nil)
    (hlen : encodedLength codec (treeAfter ops) < 2 ^ 31) :
    ∃ buffer tree', treeToBuffer codec (treeAfter ops)
        = .ok ((encodedLength codec (treeAfter ops) : ℤ), buffer) ∧
      bufferToTree codec buffer (encodedLength codec (treeAfter ops)) = .ok tree' ∧
      SameNodes (treeAfter ops).root tree'.root ∧
      tree'.size = (treeAfter ops).size ∧ tree'.height = (treeAfter ops).height := by
  have hinv := inv_treeAfter ops
  obtain ⟨tree', hdecode, hroot, hinv'⟩ := bufferToTree_eq hcodec hinv hne hlen
  refine ⟨_, tree', treeToBuffer_eq hinv hlen, hdecode, ?_, ?_, ?_⟩
  · rw [hroot]
    exact sameNodes_map _ fun e he => (reread_same hcodec (hinv.stored e he)).2.1
  · rw [hinv'.size_eq, hinv.size_eq, hroot, numNodes_map]
  · rw [hinv'.height_eq, hinv.height_eq, hroot, height_map]

end ReplicatedTree
