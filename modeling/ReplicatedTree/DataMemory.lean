import ReplicatedTree.Blocks

/-!
# Values and entries in memory (`data.c`, `entry.c`)

The functions of `Entry` once more, as the code has them: on structs that live in blocks of memory
and refer to each other by pointers. Each struct, string and byte array is a block of its own, as
`malloc` makes it. What a function of this file does is said by a triple: which blocks it takes
and which it leaves, where `dataAt d p` are the blocks of the value `d` behind the pointer `p`.
The result is always that of the function of the same name in `Entry`.
-/

namespace ReplicatedTree
namespace InMemory

open Heap
open scoped Pointwise

def strdup (s : Ptr) : HeapM Block Ptr := do
  let s ← load Block.asString s
  malloc (.string s)

/-! ## `data.c` -/

/-- `_areParamsInvalid`. -/
def areParamsInvalid (size : ℤ) (data : Ptr) : Bool := size < 0 || (size != 0 && data.isNone)

def dataCreate2 (size : ℤ) (data : Ptr) : HeapM Block Ptr :=
  if areParamsInvalid size data then pure none else malloc (.data ⟨size, data⟩)

/-- `uninit` is what `malloc` leaves in the block. -/
def dataCreate (uninit : ℕ → UInt8) (size : ℤ) : HeapM Block Ptr :=
  if size < 0 then pure none
  else if size = 0 then dataCreate2 0 none
  else do
    let data ← malloc (.bytes ((List.range size.toNat).map uninit))
    dataCreate2 size data

def dataDestroy (dataStruct : Ptr) : HeapM Block Unit :=
  match dataStruct with
  | none => pure ()
  | some _ => do
    let d ← load Block.asData dataStruct
    free d.data
    free dataStruct

def copy (something : Ptr) (size : ℤ) : HeapM Block Ptr :=
  match something with
  | none => pure none
  | some _ =>
    if size < 0 then pure none
    else do
      let bytes ← load (Block.firstBytes size) something
      malloc (.bytes bytes)

def dataDup (dataStruct : Ptr) : HeapM Block Ptr :=
  match dataStruct with
  | none => pure none
  | some _ => do
    let d ← load Block.asData dataStruct
    if areParamsInvalid d.datasize d.data then pure none
    else do
      let copiedData ← copy d.data d.datasize
      dataCreate2 d.datasize copiedData

/-! ## `entry.c` -/

def entryCreate (key data : Ptr) : HeapM Block Ptr := malloc (.entry ⟨key, data⟩)

def entryDestroy (entry : Ptr) : HeapM Block Unit :=
  match entry with
  | none => pure ()
  | some _ => do
    let e ← load Block.asEntry entry
    free e.key
    dataDestroy e.value
    free entry

/-- `key_compare`. Two different pointers may refer to equal strings, but one pointer refers to
one string; so the pointer test at its head only shows for NULL. -/
def keyCompare (key1 key2 : Ptr) : HeapM Block ℤ :=
  if key1 = key2 then pure 0
  else if key1 = none then pure (-1)
  else if key2 = none then pure 1
  else do
    let s ← load Block.asString key1
    let t ← load Block.asString key2
    let comparison := strcmp s t
    pure (if comparison < 0 then -1 else if comparison = 0 then 0 else 1)

/-! ## The blocks of a value and of an entry -/

def stringAt : Option CString → Ptr → Assertion Block := nullable fun s p => cell p (.string s)

def bytesAt : Option (List UInt8) → Ptr → Assertion Block :=
  nullable fun bytes p => cell p (.bytes bytes)

theorem stringAt_none (p : Ptr) : stringAt none p = fact (p = none) := rfl

theorem stringAt_some (s : CString) (p : Ptr) : stringAt (some s) p = cell p (.string s) := rfl

def dataAt : Option DataT → Ptr → Assertion Block :=
  nullable fun d p => ⋃ q, cell p (.data ⟨d.datasize, q⟩) + bytesAt d.data q

def entryAt : Option EntryT → Ptr → Assertion Block :=
  nullable fun e p => ⋃ b : EntryBlock,
    cell p (.entry b) + (stringAt e.key b.key + dataAt e.value b.value)

/-! ## What the functions do -/

theorem strdup_spec (s : CString) (p : Ptr) :
    Triple (stringAt (some s) p) (strdup p) fun r => stringAt (some s) r + stringAt (some s) p := by
  refine Triple.load rfl 0 (add_zero _).symm ?_
  exact (Triple.malloc _).last (cell p (.string s)) (zero_add _).symm fun _ => Set.Subset.rfl

section Nullable

variable {α : Type} {P : Assertion Block} {c : HeapM Block α} {Q : α → Assertion Block} {p : Ptr}

theorem of_stringAt {key : Option CString}
    (h : (p = none ↔ key = none) → Triple (stringAt key p + P) c Q) :
    Triple (stringAt key p + P) c Q := Triple.of_nullable Block.string h

theorem of_bytesAt {data : Option (List UInt8)}
    (h : (p = none ↔ data = none) → Triple (bytesAt data p + P) c Q) :
    Triple (bytesAt data p + P) c Q := Triple.of_nullable Block.bytes h

theorem of_dataAt {d : Option DataT} (h : (p = none ↔ d = none) → Triple (dataAt d p + P) c Q) :
    Triple (dataAt d p + P) c Q := by
  cases d with
  | none =>
    intro s hs
    obtain ⟨_, ⟨hp, -⟩, -⟩ := id hs
    exact h (iff_of_true hp rfl) s hs
  | some d =>
    rw [dataAt, nullable, Set.iUnion_add] at h ⊢
    refine Triple.iUnion.2 fun q => ?_
    rw [add_assoc]
    refine Triple.of_cell ?_
    rintro a rfl
    have hopen := Triple.iUnion.1 (h (by simp)) q
    rwa [add_assoc] at hopen

theorem free_stringAt (key : Option CString) (p : Ptr) :
    Triple (stringAt key p) (free p) fun _ => 0 := Triple.free_nullable Block.string key p

theorem free_bytesAt (data : Option (List UInt8)) (p : Ptr) :
    Triple (bytesAt data p) (free p) fun _ => 0 := Triple.free_nullable Block.bytes data p

end Nullable

/-- Whether a pointer is NULL is all that is asked of it. -/
theorem areParamsInvalid_eq {size : ℤ} {data : Option (List UInt8)} {p : Ptr}
    (h : p = none ↔ data = none) :
    areParamsInvalid size p = ReplicatedTree.areParamsInvalid size data := by
  have hnone : p.isNone = data.isNone := by
    rw [Bool.eq_iff_iff, Option.isNone_iff_eq_none, Option.isNone_iff_eq_none, h]
  unfold areParamsInvalid ReplicatedTree.areParamsInvalid
  rw [hnone]

theorem dataCreate2_spec {size : ℤ} {data : Option (List UInt8)}
    (hlength : ∀ b ∈ data, b.length = size.toNat)
    (h : ReplicatedTree.areParamsInvalid size data = false) (p : Ptr) :
    Triple (bytesAt data p) (dataCreate2 size p) fun r =>
      dataAt (ReplicatedTree.dataCreate2 size data hlength) r := by
  rw [← add_zero (bytesAt data p)]
  refine of_bytesAt fun hp => ?_
  obtain ⟨d, hd, rfl, rfl⟩ := dataCreate2_of_params hlength h
  unfold dataCreate2
  rw [areParamsInvalid_eq hp, if_neg (by simp [h]), hd, add_zero]
  refine (Triple.malloc _).last (bytesAt d.data p) (zero_add _).symm fun r => ?_
  exact Set.subset_iUnion (fun q => cell r (.data ⟨d.datasize, q⟩) + bytesAt d.data q) p

theorem dataDestroy_spec (d : Option DataT) (p : Ptr) :
    Triple (dataAt d p) (dataDestroy p) fun _ => 0 := by
  cases d with
  | none =>
    refine Triple.of_fact fun hp => ?_
    rw [hp]
    exact Triple.pure Set.Subset.rfl
  | some d =>
    refine Triple.iUnion.2 fun q => Triple.of_cell ?_
    rintro a rfl
    refine Triple.load rfl _ rfl ?_
    refine (free_bytesAt d.data q).seq (cell (some a) _) (add_comm _ _) ?_
    intro _
    exact Triple.free.last 0 (add_comm _ _) fun _ => (add_zero _).le

/-- A block is copied where it has as many bytes as are copied. -/
theorem copy_spec {size : ℤ} {data : Option (List UInt8)}
    (hlength : ∀ b ∈ data, b.length = size.toNat) (p : Ptr) :
    Triple (bytesAt data p) (copy p size) fun r =>
      bytesAt (ReplicatedTree.copy data size) r + bytesAt data p := by
  cases data with
  | none =>
    refine Triple.of_fact fun hp => ?_
    rw [hp]
    refine Triple.pure ?_
    simp [bytesAt, nullable, ReplicatedTree.copy]
  | some bytes =>
    rw [← add_zero (bytesAt _ _)]
    refine Triple.of_cell ?_
    rintro a rfl
    simp only [add_zero]
    unfold copy ReplicatedTree.copy
    by_cases hneg : size < 0
    · simp only [if_pos hneg]
      refine Triple.pure ?_
      simp [bytesAt, nullable]
    · have hfirst : Block.firstBytes size (.bytes bytes) = some (bytes.take size.toNat) :=
        if_pos (hlength bytes rfl).ge
      simp only [if_neg hneg]
      refine Triple.load hfirst 0 (add_zero _).symm ?_
      exact (Triple.malloc _).last _ (zero_add _).symm fun _ => Set.Subset.rfl

/-- `data_dup` leaves the value where it is, next to the copy. -/
theorem dataDup_spec (d : Option DataT) (p : Ptr) :
    Triple (dataAt d p) (dataDup p) fun r => dataAt (ReplicatedTree.dataDup d) r + dataAt d p := by
  cases d with
  | none =>
    refine Triple.of_fact fun hp => ?_
    rw [hp]
    refine Triple.pure ?_
    simp [dataAt, nullable, ReplicatedTree.dataDup]
  | some d =>
    refine Triple.iUnion.2 fun q => Triple.of_cell ?_
    rintro a rfl
    refine Triple.load rfl _ rfl ?_
    -- the blocks of the value once they were read
    have hkept : cell (some a) (.data ⟨d.datasize, q⟩) + bytesAt d.data q
        ⊆ dataAt (some d) (some a) :=
      Set.subset_iUnion (fun q => cell (some a) (.data ⟨d.datasize, q⟩) + bytesAt d.data q) q
    rw [add_comm]
    refine of_bytesAt fun hq => ?_
    rw [areParamsInvalid_eq hq]
    by_cases hv : d.Valid
    · have hparams : ReplicatedTree.areParamsInvalid d.datasize d.data = false := hv
      have hcopied := areParamsInvalid_copy hv
      rw [if_neg (by simp [hparams])]
      refine (copy_spec d.data_length q).seq (cell (some a) _) rfl fun r => ?_
      refine (dataCreate2_spec d.length_copy_data hcopied r).last
        (bytesAt d.data q + cell (some a) _) (add_assoc _ _ _) fun r' => ?_
      rw [add_comm (bytesAt d.data q)]
      refine Set.add_subset_add ?_ hkept
      simp [ReplicatedTree.dataDup, hparams]
    · have hparams : ReplicatedTree.areParamsInvalid d.datasize d.data = true := by
        simpa [DataT.Valid] using hv
      rw [if_pos hparams]
      refine Triple.pure ?_
      simpa [ReplicatedTree.dataDup, hparams, dataAt, nullable, add_comm] using hkept

theorem dataCreate_spec (uninit : ℕ → UInt8) (size : ℤ) :
    Triple 0 (dataCreate uninit size) fun r =>
      dataAt (ReplicatedTree.dataCreate uninit size) r := by
  unfold dataCreate ReplicatedTree.dataCreate
  split_ifs with hneg hzero
  · exact Triple.pure (fact_of rfl).ge
  · refine (dataCreate2_spec _ (by decide) none).pre ?_
    exact (fact_of rfl).ge
  · refine (Triple.malloc _).seq 0 (add_zero _).symm fun p => ?_
    have hparams : ReplicatedTree.areParamsInvalid size
        (some ((List.range size.toNat).map uninit)) = false := by
      simp only [ReplicatedTree.areParamsInvalid, Option.isNone_some, Bool.and_false,
        Bool.or_false, decide_eq_false_iff_not]
      exact hneg
    rw [add_zero]
    exact dataCreate2_spec _ hparams p

/-! ### Entries -/

/-- The struct of an entry with the blocks it refers to. -/
theorem entryAt_mk (e : EntryT) (p k v : Ptr) :
    cell p (.entry ⟨k, v⟩) + (stringAt e.key k + dataAt e.value v) ⊆ entryAt (some e) p :=
  Set.subset_iUnion
    (fun b : EntryBlock => cell p (.entry b) + (stringAt e.key b.key + dataAt e.value b.value))
    ⟨k, v⟩

/-- The entry takes over the key and the value. -/
theorem entryCreate_spec (e : EntryT) (k v : Ptr) :
    Triple (stringAt e.key k + dataAt e.value v) (entryCreate k v) fun r => entryAt (some e) r :=
  (Triple.malloc _).last _ (zero_add _).symm fun r => entryAt_mk e r k v

theorem entryDestroy_spec (e : Option EntryT) (p : Ptr) :
    Triple (entryAt e p) (entryDestroy p) fun _ => 0 := by
  cases e with
  | none =>
    refine Triple.of_fact fun hp => ?_
    rw [hp]
    exact Triple.pure Set.Subset.rfl
  | some e =>
    refine Triple.iUnion.2 fun b => Triple.of_cell ?_
    rintro a rfl
    refine Triple.load rfl _ rfl ?_
    refine (free_stringAt e.key b.key).seq
      (dataAt e.value b.value + cell (some a) (.entry b)) (by ac_rfl) fun _ => ?_
    refine (dataDestroy_spec e.value b.value).seq (cell (some a) (.entry b)) (zero_add _)
      fun _ => ?_
    exact Triple.free.last 0 (add_comm _ _) fun _ => (add_zero _).le

/-- A comparison reads both keys and changes none. -/
theorem keyCompare_spec (key1 key2 : Option CString) (p q : Ptr) :
    Triple (stringAt key1 p + stringAt key2 q) (keyCompare p q) fun r =>
      fact (r = ReplicatedTree.keyCompare key1 key2) + (stringAt key1 p + stringAt key2 q) := by
  have hpure : ∀ {n : ℤ}, n = ReplicatedTree.keyCompare key1 key2 →
      Triple (stringAt key1 p + stringAt key2 q) (pure n) fun r =>
        fact (r = ReplicatedTree.keyCompare key1 key2) + (stringAt key1 p + stringAt key2 q) := by
    intro n hn
    refine Triple.pure ?_
    rw [fact_of hn, zero_add]
  refine of_stringAt fun hp => ?_
  rw [add_comm]
  refine of_stringAt fun hq => ?_
  rw [add_comm]
  unfold keyCompare
  cases key1 with
  | none =>
    have hp := hp.2 rfl
    cases key2 with
    | none =>
      rw [if_pos (hp.trans (hq.2 rfl).symm)]
      exact hpure rfl
    | some t =>
      have hpq : p ≠ q := fun h => absurd (hq.1 (h.symm.trans hp)) (by simp)
      rw [if_neg hpq, if_pos hp]
      exact hpure rfl
  | some s =>
    have hp : p ≠ none := fun h => absurd (hp.1 h) (by simp)
    cases key2 with
    | none =>
      have hq := hq.2 rfl
      rw [if_neg (hq ▸ hp), if_neg hp, if_pos hq]
      exact hpure rfl
    | some t =>
      have hq : q ≠ none := fun h => absurd (hq.1 h) (by simp)
      rw [← add_zero (stringAt (some t) q)]
      refine Triple.of_cells fun hpq => ?_
      simp only [if_neg hpq, if_neg hp, if_neg hq, add_zero]
      refine Triple.load rfl _ rfl (Triple.load rfl _ (add_comm _ _) ?_)
      exact hpure rfl

end InMemory
end ReplicatedTree
