import Mathlib.Algebra.Order.Ring.Int
import Mathlib.Algebra.Order.Ring.Nat
import Mathlib.Data.List.Lex
import Mathlib.Data.List.TakeWhile
import Mathlib.Order.WithBot
import Mathlib.Tactic.Common

/-!
# C strings

A `CString` is the content of a `char*` that is not NULL: bytes up to the terminator, hence
without a zero byte. A `char*` that may be NULL is an `Option CString`.

`strcmp` follows its specification: it compares unsigned bytes and its result has the sign
of the first difference, where the terminator counts as a zero byte.
-/

namespace ReplicatedTree

/-- The bytes of a NUL-terminated string, terminator excluded. -/
structure CString where
  bytes : List UInt8
  no_nul : (0 : UInt8) ∉ bytes
deriving DecidableEq

namespace CString

@[ext] theorem ext {s t : CString} (h : s.bytes = t.bytes) : s = t := by
  cases s
  cases t
  congr

/-- The code points `strcmp` compares. -/
def codes (s : CString) : List ℕ := s.bytes.map UInt8.toNat

theorem codes_injective : Function.Injective codes := by
  intro s t h
  exact ext (List.map_injective_iff.2 (fun _ _ => UInt8.toNat_inj.1) h)

/-- Strings in the order of `strcmp`: lexicographic in the unsigned bytes. -/
instance : LinearOrder CString := LinearOrder.lift' codes codes_injective

end CString

/-- A C string ends at its first zero byte. -/
def cStringOf (bytes : List UInt8) : CString where
  bytes := bytes.takeWhile fun b => b ≠ 0
  no_nul := by
    intro h
    have := List.mem_takeWhile_imp h
    simp at this

/-- Bytes without a zero byte are a string already. -/
theorem bytes_cStringOf {bytes : List UInt8} (h : 0 ∉ bytes) : (cStringOf bytes).bytes = bytes := by
  apply List.takeWhile_eq_self_iff.2
  intro b hb
  simp only [ne_eq, decide_not, Bool.not_eq_eq_eq_not, Bool.not_true, decide_eq_false_iff_not]
  exact fun h0 => h (h0 ▸ hb)

theorem cStringOf_bytes (s : CString) : cStringOf s.bytes = s :=
  CString.ext (bytes_cStringOf s.no_nul)

/-! ## `strcmp` -/

/-- A byte before the terminator is not zero. -/
theorem toNat_ne_zero_of_mem {l : List UInt8} {b : UInt8} (hl : 0 ∉ l) (hb : b ∈ l) :
    b.toNat ≠ 0 := by
  intro h
  have h0 : b = 0 := UInt8.toNat_inj.1 h
  exact hl (h0 ▸ hb)

/-- The loop of `strcmp`: the difference of the first bytes that differ. -/
def strcmpLoop : List UInt8 → List UInt8 → ℤ
  | [], [] => 0
  | [], b :: _ => 0 - (b.toNat : ℤ)
  | a :: _, [] => (a.toNat : ℤ) - 0
  | a :: as, b :: bs => if a = b then strcmpLoop as bs else (a.toNat : ℤ) - b.toNat

def strcmp (s t : CString) : ℤ := strcmpLoop s.bytes t.bytes

theorem strcmpLoop_eq_zero {as bs : List UInt8} (ha : 0 ∉ as) (hb : 0 ∉ bs) :
    strcmpLoop as bs = 0 ↔ as = bs := by
  induction as generalizing bs with
  | nil =>
    cases bs with
    | nil => simp [strcmpLoop]
    | cons b bs =>
      have := toNat_ne_zero_of_mem hb List.mem_cons_self
      simp only [strcmpLoop, reduceCtorEq, iff_false]
      omega
  | cons a as ih =>
    cases bs with
    | nil =>
      have := toNat_ne_zero_of_mem ha List.mem_cons_self
      simp only [strcmpLoop, reduceCtorEq, iff_false]
      omega
    | cons b bs =>
      rw [strcmpLoop]
      split_ifs with hab
      · have ha' : 0 ∉ as := fun h => ha (List.mem_cons_of_mem _ h)
        have hb' : 0 ∉ bs := fun h => hb (List.mem_cons_of_mem _ h)
        simp [ih ha' hb', hab]
      · have : a.toNat ≠ b.toNat := fun h => hab (UInt8.toNat_inj.1 h)
        simp only [List.cons.injEq, hab, false_and, iff_false]
        omega

theorem strcmpLoop_neg {as bs : List UInt8} (hb : 0 ∉ bs) :
    strcmpLoop as bs < 0 ↔ as.map UInt8.toNat < bs.map UInt8.toNat := by
  induction as generalizing bs with
  | nil =>
    cases bs with
    | nil => simp [strcmpLoop]
    | cons b bs =>
      have := toNat_ne_zero_of_mem hb List.mem_cons_self
      simp only [strcmpLoop, List.map_nil, List.map_cons, List.nil_lt_cons, iff_true]
      omega
  | cons a as ih =>
    cases bs with
    | nil =>
      simp only [strcmpLoop, List.map_cons, List.map_nil, List.not_lt_nil, iff_false]
      omega
    | cons b bs =>
      rw [strcmpLoop, List.map_cons, List.map_cons, List.cons_lt_cons_iff]
      split_ifs with hab
      · rw [ih fun h => hb (List.mem_cons_of_mem _ h)]
        simp [hab]
      · have : a.toNat ≠ b.toNat := fun h => hab (UInt8.toNat_inj.1 h)
        omega

theorem strcmp_eq_zero (s t : CString) : strcmp s t = 0 ↔ s = t := by
  rw [strcmp, strcmpLoop_eq_zero s.no_nul t.no_nul]
  exact ⟨CString.ext, congrArg _⟩

theorem strcmp_neg (s t : CString) : strcmp s t < 0 ↔ s < t := by
  rw [strcmp, strcmpLoop_neg t.no_nul]
  exact Iff.rfl

theorem nul_notMem_k : (0 : UInt8) ∉ [107] := by decide

end ReplicatedTree
