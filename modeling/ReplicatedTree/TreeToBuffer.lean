import ReplicatedTree.EntryWire

/-!
# What `tree_to_buffer` writes

`tree_to_buffer` sizes two arrays by a counter and a buffer by a first pass, and fills them by
a recursion and a second pass. The writes of both are listed here, index by index: on every tree
that calls lead to, each cell is written once and none outside (`treeToBuffer_writes_exact`).
-/

namespace ReplicatedTree

open SearchTree

variable {codec : EntryCodec}

/-! ## The two arrays and the buffer -/

/-- What is asked of `tree_to_buffer`. The writes `bufs` and `lens` into the arrays hit each of
the `tree->size` indices once and no other, with the entries in pre-order; the writes `bytes`
hit each byte of the buffer once and none outside, and the last `current_index` is its length. -/
structure WritesExact (codec : EntryCodec) (tree : TreeT) (bufs : List (ℕ × List UInt8))
    (lens : List (ℕ × ℤ)) (bytes : List (ℕ × UInt8)) (lenBuffer : ℕ) : Prop where
  collected : collectEntryBufsWrites codec tree.root 0 = .ok (bufs, lens, tree.size.toNat)
  collects : CollectsBy codec tree.root 0 bufs lens tree.size.toNat
  bufs_once : Cells.OnceEach tree.size.toNat bufs
  lens_once : Cells.OnceEach tree.size.toNat lens
  bufs_preorder : bufs = Cells.writesFrom 0 (packedEntries codec tree)
  lens_preorder :
    lens = Cells.writesFrom 0 ((packedEntries codec tree).map fun buf => (buf.length : ℤ))
  lens_nonneg : ∀ w ∈ lens, 0 ≤ w.2
  summed : sumLengths (lens.map Prod.snd) 0 = .ok (lenBuffer : ℤ)
  copied : copyEntriesWrites ((bufs.map Prod.snd).zip (lens.map Prod.snd)) 0
    = .ok (bytes, lenBuffer)
  copies : CopiesBy ((bufs.map Prod.snd).zip (lens.map Prod.snd)) 0 bytes
  bytes_once : Cells.OnceEach lenBuffer bytes
  buffer : ∃ contents, (Cells.alloc lenBuffer).writes bytes = some (Cells.filled contents 0) ∧
    treeToBuffer codec tree = .ok ((lenBuffer : ℤ), contents)

theorem writesExact_of_shape {tree : TreeT} (h : tree.Shape)
    (hlen : encodedLength codec tree < 2 ^ 31) :
    WritesExact codec tree (Cells.writesFrom 0 (packedEntries codec tree))
      (Cells.writesFrom 0 ((packedEntries codec tree).map fun buf => (buf.length : ℤ)))
      (Cells.writesFrom 0 ((preorder tree.root).flatMap (frame codec)))
      (encodedLength codec tree) := by
  have hsize : tree.size.toNat = (packedEntries codec tree).length := size_packedEntries h
  have hbytes : ((preorder tree.root).flatMap (frame codec)).length
      = encodedLength codec tree := by
    rw [← flatMap_packedEntries, length_flatMap_frames, sum_packedEntries]
  have hcollected := collectEntryBufsWrites_tree h hlen
  have hcopied := copyEntriesWrites_eq (packedEntries codec tree) 0
  rw [flatMap_packedEntries, sum_packedEntries, Nat.zero_add] at hcopied
  refine ⟨hcollected, collectEntryBufs_eq_writes hcollected, ?_, ?_, rfl, rfl, ?_, ?_, ?_, ?_, ?_,
    ?_⟩
  · rw [hsize]
    exact Cells.onceEach_writesFrom _
  · have honce := Cells.onceEach_writesFrom
      ((packedEntries codec tree).map fun buf => (buf.length : ℤ))
    rwa [List.length_map, ← hsize] at honce
  · -- what is recorded is the length of a list
    intro w hw
    have hmem := List.mem_map_of_mem (f := Prod.snd) hw
    rw [Cells.snd_writesFrom] at hmem
    obtain ⟨buf, _, hbuf⟩ := List.mem_map.1 hmem
    rw [← hbuf]
    omega
  · rw [Cells.snd_writesFrom]
    exact sumLengths_packedEntries hlen
  · rw [Cells.snd_writesFrom, Cells.snd_writesFrom, zip_lengths]
    exact hcopied
  · rw [Cells.snd_writesFrom, Cells.snd_writesFrom, zip_lengths]
    exact copyEntries_eq_writes hcopied
  · rw [← hbytes]
    exact Cells.onceEach_writesFrom _
  · have hfilled := Cells.writes_filled [] ((preorder tree.root).flatMap (frame codec)) 0
    rw [Nat.add_zero, hbytes, List.nil_append] at hfilled
    exact ⟨_, hfilled, treeToBuffer_of_shape h hlen⟩

/-- On every tree that calls lead to, and whose buffer is shorter than 2^31 bytes,
`tree_to_buffer` fills its arrays and its buffer exactly. -/
theorem treeToBuffer_writes_exact {tree : TreeT} (h : tree.Reachable)
    (hlen : encodedLength codec tree < 2 ^ 31) :
    ∃ bufs lens bytes lenBuffer, WritesExact codec tree bufs lens bytes lenBuffer :=
  ⟨_, _, _, _, writesExact_of_shape h.shape hlen⟩

theorem treeToBuffer_writes_exact_three : (treeAfter threePuts).size = 3 ∧
    ∃ bufs lens bytes lenBuffer,
      WritesExact wireCodec (treeAfter threePuts) bufs lens bytes lenBuffer := by
  have hlen : encodedLength wireCodec (treeAfter threePuts) < 2 ^ 31 := by decide +kernel
  exact ⟨rfl, treeToBuffer_writes_exact (reachable_treeAfter threePuts) hlen⟩

end ReplicatedTree
