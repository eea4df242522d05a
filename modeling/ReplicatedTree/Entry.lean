import ReplicatedTree.CString
import ReplicatedTree.Lib.Comparator

/-!
# Values and entries (`data.c`, `entry.c`)

A pointer that may be NULL is an `Option`. Allocation is taken to succeed, except for a
negative size, which `malloc` reads as a huge one and refuses.

A `struct data_t` is stored together with the memory its size speaks about: `data` is the
block behind the pointer, and `data_length` says that it holds `datasize` bytes. A struct
with a negative size, or with a positive size and a NULL pointer, can be built; it is these
two that `areParamsInvalid` rejects.
-/

namespace ReplicatedTree

open Comparator

/-! ## `data.c` -/

/-- `struct data_t`. -/
structure DataT where
  datasize : ℤ
  data : Option (List UInt8)
  data_length : ∀ b ∈ data, b.length = datasize.toNat
deriving DecidableEq

theorem DataT.ext {d d' : DataT} (hs : d.datasize = d'.datasize) (hd : d.data = d'.data) :
    d = d' := by
  cases d
  cases d'
  congr

/-- `_areParamsInvalid`. -/
def areParamsInvalid (size : ℤ) (data : Option (List UInt8)) : Bool :=
  size < 0 || (size != 0 && data.isNone)

/-- A value the library functions accept. -/
def DataT.Valid (d : DataT) : Prop := areParamsInvalid d.datasize d.data = false

instance (d : DataT) : Decidable d.Valid := inferInstanceAs (Decidable (_ = _))

def dataCreate2 (size : ℤ) (data : Option (List UInt8))
    (h : ∀ b ∈ data, b.length = size.toNat) : Option DataT :=
  if areParamsInvalid size data then none else some ⟨size, data, h⟩

theorem dataCreate2_of_params {size : ℤ} {data : Option (List UInt8)}
    (hlength : ∀ b ∈ data, b.length = size.toNat) (h : areParamsInvalid size data = false) :
    ∃ d, dataCreate2 size data hlength = some d ∧ d.datasize = size ∧ d.data = data := by
  rw [dataCreate2, if_neg (by simp [h])]
  exact ⟨_, rfl, rfl, rfl⟩

/-- `uninit` is what `malloc` leaves in the block. -/
def dataCreate (uninit : ℕ → UInt8) (size : ℤ) : Option DataT :=
  if size < 0 then none
  else if size = 0 then dataCreate2 0 none (by simp)
  else dataCreate2 size (some ((List.range size.toNat).map uninit)) (by simp)

/-- Duplicate `size` bytes of a block. -/
def copy (something : Option (List UInt8)) (size : ℤ) : Option (List UInt8) :=
  if size < 0 then none else something.map (List.take size.toNat)

theorem length_copy {something : Option (List UInt8)} {size : ℤ}
    (h : ∀ b ∈ something, b.length = size.toNat) :
    ∀ b ∈ copy something size, b.length = size.toNat := by
  intro b hb
  unfold copy at hb
  split_ifs at hb with hs
  · simp at hb
  · obtain ⟨b', hb', rfl⟩ := Option.map_eq_some_iff.1 hb
    rw [List.length_take, h b' hb', min_self]

theorem DataT.length_copy_data (d : DataT) :
    ∀ b ∈ copy d.data d.datasize, b.length = d.datasize.toNat :=
  length_copy d.data_length

/-- A copy of the whole block is equal to it. -/
theorem copy_eq_self {something : Option (List UInt8)} {size : ℤ} (hs : 0 ≤ size)
    (h : ∀ b ∈ something, b.length = size.toNat) : copy something size = something := by
  unfold copy
  rw [if_neg (by omega)]
  cases something with
  | none => rfl
  | some b => rw [Option.map_some, List.take_of_length_le (h b rfl).le]

def dataDup (dataStruct : Option DataT) : Option DataT :=
  match dataStruct with
  | none => none
  | some d =>
    if areParamsInvalid d.datasize d.data then none
    else dataCreate2 d.datasize (copy d.data d.datasize) d.length_copy_data

section Params

variable {size : ℤ} {data : Option (List UInt8)}

theorem nonneg_of_params (h : areParamsInvalid size data = false) : 0 ≤ size := by
  simp only [areParamsInvalid, Bool.or_eq_false_iff, decide_eq_false_iff_not] at h
  omega

/-- The data pointer of a valid value is NULL only for size 0. -/
theorem isSome_of_params (h : areParamsInvalid size data = false) (hs : size ≠ 0) :
    data.isSome := by
  simp only [areParamsInvalid, Bool.or_eq_false_iff] at h
  simpa [hs] using h.2

/-- A valid value has as many bytes as its size says, also where the pointer is NULL. -/
theorem length_of_params (h : areParamsInvalid size data = false)
    (hlength : ∀ b ∈ data, b.length = size.toNat) : size = ((data.getD []).length : ℤ) := by
  have hnonneg := nonneg_of_params h
  cases data with
  | none =>
    by_contra hne
    exact absurd (isSome_of_params h hne) (by decide)
  | some b =>
    have hb := hlength b rfl
    rw [Option.getD_some]
    omega

end Params

theorem DataT.Valid.nonneg {d : DataT} (h : d.Valid) : 0 ≤ d.datasize := nonneg_of_params h

theorem DataT.Valid.copy_data {d : DataT} (h : d.Valid) : copy d.data d.datasize = d.data :=
  copy_eq_self h.nonneg d.data_length

/-- The copy of a valid value is valid. -/
theorem areParamsInvalid_copy {d : DataT} (h : d.Valid) :
    areParamsInvalid d.datasize (copy d.data d.datasize) = false := by
  rw [h.copy_data]
  exact h

/-- `data_dup` copies exactly the valid values. -/
theorem dataDup_some (d : DataT) : dataDup (some d) = if d.Valid then some d else none := by
  unfold dataDup
  by_cases hv : d.Valid
  · have hcopy := hv.copy_data
    unfold DataT.Valid at hv
    simp [dataCreate2, hcopy, hv, DataT.Valid]
  · have hv' : areParamsInvalid d.datasize d.data = true := by
      simpa [DataT.Valid] using hv
    simp [hv', hv]

theorem dataDup_of_valid {d : DataT} (h : d.Valid) : dataDup (some d) = some d := by
  rw [dataDup_some, if_pos h]

theorem length_absent : ∀ b ∈ (none : Option (List UInt8)), b.length = (0 : ℤ).toNat := by simp

/-- The empty value, which stands for "not found". -/
def emptyData : DataT := ⟨0, none, length_absent⟩

/-! ## `entry.c` -/

/-- `struct entry_t`. -/
structure EntryT where
  key : Option CString
  value : Option DataT
deriving DecidableEq

def entryCreate (key : Option CString) (data : Option DataT) : EntryT := ⟨key, data⟩

/-- `key_compare`. Two pointers to one string compare like two equal strings, so the
pointer test at its head only shows for NULL. -/
def keyCompare (key1 key2 : Option CString) : ℤ :=
  match key1, key2 with
  | none, none => 0
  | none, some _ => -1
  | some _, none => 1
  | some s, some t =>
    let comparison := strcmp s t
    if comparison < 0 then -1 else if comparison = 0 then 0 else 1

/-- A key in the order of `key_compare`, where NULL is below every string. -/
def keyOrder (key : Option CString) : WithBot CString := key

theorem keyOrder_injective : Function.Injective keyOrder := fun _ _ h => h

/-- The key a tree of entries is ordered by. -/
def EntryT.orderKey (e : EntryT) : WithBot CString := keyOrder e.key

theorem strcmp_comparesBy : ComparesBy strcmp id := ⟨strcmp_neg, strcmp_eq_zero⟩

/-- The sign of `strcmp`, with NULL below every string. -/
theorem keyCompare_eq_liftNull (key1 key2 : Option CString) :
    keyCompare key1 key2 = liftNull (fun s t => (strcmp s t).sign) key1 key2 := by
  cases key1 with
  | none => cases key2 <;> rfl
  | some s =>
    cases key2 with
    | none => rfl
    | some t =>
      show (if strcmp s t < 0 then -1 else if strcmp s t = 0 then 0 else 1) = (strcmp s t).sign
      split_ifs with hneg hzero
      · rw [Int.sign_eq_neg_one_of_neg hneg]
      · rw [hzero, Int.sign_zero]
      · rw [Int.sign_eq_one_of_pos (by omega)]

theorem keyCompare_threeWay : ThreeWay keyCompare keyOrder := by
  have hkey : nullKey id = keyOrder := by
    funext key
    cases key <;> rfl
  have hcmp : liftNull (fun s t => (strcmp s t).sign) = keyCompare := by
    funext key1 key2
    exact (keyCompare_eq_liftNull key1 key2).symm
  have hlift := strcmp_comparesBy.sign.liftNull
  rwa [hkey, hcmp] at hlift

theorem keyCompare_eq_zero (a b : Option CString) : keyCompare a b = 0 ↔ a = b :=
  (keyCompare_threeWay.zero_iff a b).trans keyOrder_injective.eq_iff

theorem length_v : ∀ b ∈ some ([118] : List UInt8), b.length = (1 : ℤ).toNat := by simp

/-- The entry `k` with the value `v`. -/
def entryK : EntryT := ⟨some ⟨[107], nul_notMem_k⟩, some ⟨1, some [118], length_v⟩⟩

end ReplicatedTree
