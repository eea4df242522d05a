import ReplicatedTree.Entry

/-!
# Entries in memory (`entry_compare`)

`key_compare` and `entry_compare` look at their pointers before they look at what lies there. So
pointers are addresses here, or NULL, and a memory holds the strings and the entries; two
addresses may hold equal strings, and two entries may share a key.

Whatever lies in memory, the answers depend on the strings only (`Memory.keyCompare_eq`), and
order all pointers to entries, NULL first, then the entries without a key, then the others by
their keys (`entryCompare_totalPreorder`).
-/

namespace ReplicatedTree

open Comparator

/-- What lies at an address: a string, or an entry, of which only `entry->key` is read here. -/
structure Memory (Address : Type*) where
  string : Address → CString
  key : Address → Option Address

namespace Memory

variable {Address : Type*} [DecidableEq Address] (mem : Memory Address)

/-- `key_compare`. -/
def keyCompare (key1 key2 : Option Address) : ℤ :=
  if key1 = key2 then 0
  else
    match key1, key2 with
    | none, _ => -1
    | some _, none => 1
    | some key1, some key2 =>
      let comparison := strcmp (mem.string key1) (mem.string key2)
      if comparison < 0 then -1 else if comparison = 0 then 0 else 1

def entryCompare (entry1 entry2 : Option Address) : ℤ :=
  if entry1 = entry2 then 0
  else
    match entry1, entry2 with
    | none, _ => -1
    | some _, none => 1
    | some entry1, some entry2 => mem.keyCompare (mem.key entry1) (mem.key entry2)

/-- The string behind a key. -/
def stringAt (key : Option Address) : Option CString := key.map mem.string

/-- Both keys are NULL, or they are equal as strings. -/
def SameKey (key1 key2 : Option Address) : Prop :=
  key1 = none ∧ key2 = none ∨
    ∃ s t, key1 = some s ∧ key2 = some t ∧ mem.string s = mem.string t

/-! ## What is asked of them -/

/-- A total preorder on the pointers to entries, with NULL below all others. -/
structure ComparesEntries : Prop where
  swap : ∀ a b, mem.entryCompare b a = -mem.entryCompare a b
  trans : ∀ a b c, mem.entryCompare a b ≤ 0 → mem.entryCompare b c ≤ 0 → mem.entryCompare a c ≤ 0
  total : ∀ a b, mem.entryCompare a b ≤ 0 ∨ mem.entryCompare b a ≤ 0
  null_nonpos : ∀ b, mem.entryCompare none b ≤ 0
  null_neg : ∀ entry, mem.entryCompare none (some entry) < 0
  zero_iff : ∀ entry1 entry2, mem.entryCompare (some entry1) (some entry2) = 0 ↔
    mem.SameKey (mem.key entry1) (mem.key entry2)

/-- A strict total order on the keys, with NULL below every string. Keys with equal strings are
one key: on what lies behind the pointers no two are equal in the order. -/
structure ComparesKeys : Prop where
  irrefl : ∀ a, ¬mem.keyCompare a a < 0
  trans : ∀ a b c, mem.keyCompare a b < 0 → mem.keyCompare b c < 0 → mem.keyCompare a c < 0
  trichotomous : ∀ a b, mem.keyCompare a b < 0 ∨ mem.SameKey a b ∨ mem.keyCompare b a < 0
  same_zero : ∀ a b, mem.SameKey a b → mem.keyCompare a b = 0
  null_neg : ∀ key, mem.keyCompare none (some key) < 0
  strings : ∀ a b, mem.keyCompare a b = ReplicatedTree.keyCompare (mem.stringAt a) (mem.stringAt b)
  strict : IsStrictTotalOrder (Option CString) fun k k' => ReplicatedTree.keyCompare k k' < 0

/-! ## The pointers do not matter -/

omit [DecidableEq Address] in
theorem sameKey_iff (key1 key2 : Option Address) :
    mem.SameKey key1 key2 ↔ mem.stringAt key1 = mem.stringAt key2 := by
  unfold SameKey stringAt
  cases key1 <;> cases key2 <;> simp

/-- Equal pointers are pointers to equal strings. -/
theorem keyCompare_eq (key1 key2 : Option Address) : mem.keyCompare key1 key2
    = ReplicatedTree.keyCompare (mem.stringAt key1) (mem.stringAt key2) := by
  unfold keyCompare
  split_ifs with hsame
  · rw [hsame]
    exact ((keyCompare_eq_zero _ _).2 rfl).symm
  · cases key1 with
    | none =>
      cases key2 with
      | none => exact absurd rfl hsame
      | some _ => rfl
    | some _ => cases key2 <;> rfl

theorem keyCompare_threeWay :
    ThreeWay mem.keyCompare fun key => keyOrder (mem.stringAt key) := by
  have hcmp : mem.keyCompare
      = fun a b => ReplicatedTree.keyCompare (mem.stringAt a) (mem.stringAt b) := by
    funext a b
    exact mem.keyCompare_eq a b
  rw [hcmp]
  exact ReplicatedTree.keyCompare_threeWay.comap mem.stringAt

/-- NULL first, then by the key; of the keys, NULL first. -/
def entryOrder : Option Address → WithBot (WithBot CString) :=
  nullKey fun entry => keyOrder (mem.stringAt (mem.key entry))

theorem entryCompare_threeWay : ThreeWay mem.entryCompare mem.entryOrder := by
  have hlift := (mem.keyCompare_threeWay.comap mem.key).liftNull
  have hcmp : mem.entryCompare
      = liftNull fun entry1 entry2 => mem.keyCompare (mem.key entry1) (mem.key entry2) := by
    funext entry1 entry2
    rw [← hlift.shortcut_eq]
    unfold entryCompare shortcut
    cases entry1 with
    | none => cases entry2 <;> rfl
    | some _ => cases entry2 <;> rfl
  rw [hcmp]
  exact hlift

theorem keyCompare_eq_zero_iff (key1 key2 : Option Address) :
    mem.keyCompare key1 key2 = 0 ↔ mem.SameKey key1 key2 := by
  rw [mem.keyCompare_threeWay.zero_iff, keyOrder_injective.eq_iff, sameKey_iff]

/-! ## The orders -/

theorem comparesEntries (mem : Memory Address) : mem.ComparesEntries where
  swap := mem.entryCompare_threeWay.swap
  trans := fun _ _ _ => mem.entryCompare_threeWay.trans
  total := mem.entryCompare_threeWay.total
  null_nonpos := fun b => (mem.entryCompare_threeWay.nonpos_iff none b).2 bot_le
  null_neg := fun entry =>
    (mem.entryCompare_threeWay.neg_iff none (some entry)).2 (WithBot.bot_lt_coe _)
  zero_iff := by
    intro entry1 entry2
    rw [← keyCompare_eq_zero_iff, mem.entryCompare_threeWay.zero_iff,
      mem.keyCompare_threeWay.zero_iff]
    exact WithBot.coe_inj

theorem comparesKeys (mem : Memory Address) : mem.ComparesKeys where
  irrefl := mem.keyCompare_threeWay.irrefl
  trans := fun _ _ _ => mem.keyCompare_threeWay.trans_neg
  trichotomous := by
    intro a b
    rw [← keyCompare_eq_zero_iff]
    exact mem.keyCompare_threeWay.trichotomy a b
  same_zero := fun a b => (mem.keyCompare_eq_zero_iff a b).2
  null_neg := fun key => (mem.keyCompare_threeWay.neg_iff none (some key)).2 (WithBot.bot_lt_coe _)
  strings := mem.keyCompare_eq
  strict := ReplicatedTree.keyCompare_threeWay.strictTotalOrder keyOrder_injective

end Memory

/-- Whatever lies in memory, `entry_compare` is a total preorder on all pointers to entries, and
`key_compare` a strict total order on all keys. -/
theorem entryCompare_totalPreorder {Address : Type*} [DecidableEq Address]
    (mem : Memory Address) : mem.ComparesEntries ∧ mem.ComparesKeys :=
  ⟨mem.comparesEntries, mem.comparesKeys⟩

end ReplicatedTree
