import Mathlib.Data.Nat.Digits.Lemmas
import ReplicatedTree.Lib.Tokens
import ReplicatedTree.SerializationTheorems

/-!
# Words and numbers in strings (`strtok`, `atoi`, `sprintf`)

`strtok` stands for `strtok` and `strtok_r`: what is saved between two calls is passed on. A
call that finds no word saves the end of the string, as the GNU library does. `atoi` is its
`strtol`, for a `long` of 64 bits, cut to an `int`.
-/

namespace ReplicatedTree

open Tokens

/-! ## Words -/

/-- The word that is found, or NULL, and where the next call goes on. -/
def strtok (delimiter : UInt8) (s : CString) : Option CString × CString :=
  let found := nextToken (· == delimiter) s.bytes
  (found.1.map cStringOf, cStringOf found.2)

theorem bytes_strtok (delimiter : UInt8) (s : CString) :
    (strtok delimiter s).1.map CString.bytes = (nextToken (· == delimiter) s.bytes).1 ∧
      (strtok delimiter s).2.bytes = (nextToken (· == delimiter) s.bytes).2 := by
  have hrest : 0 ∉ (nextToken (· == delimiter) s.bytes).2 :=
    fun h => s.no_nul (mem_of_nextToken (Or.inr h))
  refine ⟨?_, bytes_cStringOf hrest⟩
  show ((nextToken (· == delimiter) s.bytes).1.map cStringOf).map CString.bytes = _
  cases hword : (nextToken (· == delimiter) s.bytes).1 with
  | none => rfl
  | some w =>
    have hw : 0 ∉ w := fun h => s.no_nul (mem_of_nextToken (Or.inl ⟨w, hword, h⟩))
    rw [Option.map_some, Option.map_some, bytes_cStringOf hw]

/-- Two calls, of which the second goes on where the first stopped. -/
theorem nextTwo_strtok (delimiter : UInt8) (s : CString) : nextTwo (· == delimiter) s.bytes =
    ((strtok delimiter s).1.map CString.bytes,
      (strtok delimiter (strtok delimiter s).2).1.map CString.bytes,
      (strtok delimiter (strtok delimiter s).2).2.bytes) := by
  have hfirst := bytes_strtok delimiter s
  have hsecond := bytes_strtok delimiter (strtok delimiter s).2
  rw [nextTwo, hfirst.1, hsecond.1, hsecond.2, hfirst.2]

theorem words_strtok (delimiter : UInt8) (s : CString) :
    Words (· == delimiter) s.bytes ((strtok delimiter s).1.map CString.bytes)
      ((strtok delimiter (strtok delimiter s).2).1.map CString.bytes)
      (strtok delimiter (strtok delimiter s).2).2.bytes :=
  nextTwo_eq_iff.1 (nextTwo_strtok delimiter s)

/-- The calls find the words that are there. -/
theorem strtok_of_words {delimiter : UInt8} {s : CString} {word word' : Option CString}
    {rest : List UInt8} (h : Words (· == delimiter) s.bytes (word.map CString.bytes)
      (word'.map CString.bytes) rest) : (strtok delimiter s).1 = word ∧
      (strtok delimiter (strtok delimiter s).2).1 = word' ∧
      (strtok delimiter (strtok delimiter s).2).2.bytes = rest := by
  have heq := (nextTwo_strtok delimiter s).symm.trans (nextTwo_eq_iff.2 h)
  have hinj : Function.Injective CString.bytes := fun _ _ => CString.ext
  rw [Prod.mk.injEq, Prod.mk.injEq] at heq
  exact ⟨Option.map_injective hinj heq.1, Option.map_injective hinj heq.2.1, heq.2.2⟩

theorem isGap_delimiter (delimiter : UInt8) : IsGap (· == delimiter) [delimiter] :=
  fun _ hc => beq_iff_eq.2 (List.mem_singleton.1 hc)

theorem isWord_of_notMem {delimiter : UInt8} {word : List UInt8} (hne : word ≠ [])
    (h : delimiter ∉ word) : IsWord (· == delimiter) word :=
  ⟨hne, fun _ hc => beq_eq_false_iff_ne.2 fun heq => h (heq ▸ hc)⟩

/-! ## Numbers -/

/-- `isspace` -/
def isSpace (b : UInt8) : Bool := b == 32 || (9 ≤ b && b ≤ 13)

/-- `isdigit` -/
def isDigit (b : UInt8) : Bool := 48 ≤ b && b ≤ 57

def digitsValue (digits : List UInt8) : ℕ := digits.foldl (fun v b => 10 * v + (b.toNat - 48)) 0

/-- The sign, if there is one, and what follows it. -/
def splitSign : List UInt8 → Bool × List UInt8
  | 45 :: s => (true, s)
  | 43 :: s => (false, s)
  | s => (false, s)

/-- `strtol(s, NULL, 10)`: what follows the digits does not matter, and a number that is too
large is replaced by the largest. -/
def strtol (s : List UInt8) : ℤ :=
  let (negative, s) := splitSign (s.dropWhile isSpace)
  let value : ℤ := digitsValue (s.takeWhile isDigit)
  if negative then max (-2 ^ 63) (-value) else min (2 ^ 63 - 1) value

def atoi (s : CString) : ℤ := toInt32 (strtol s.bytes)

/-- `%d` of a number that is not negative. -/
def decimal (n : ℕ) : List UInt8 :=
  if n = 0 then [48] else (Nat.digits 10 n).reverse.map fun d => UInt8.ofNat (48 + d)

/-! ### Digits -/

theorem toNat_of_isDigit {b : UInt8} (h : isDigit b = true) : 48 ≤ b.toNat ∧ b.toNat ≤ 57 := by
  simpa [isDigit, UInt8.le_iff_toNat_le] using h

theorem isDigit_of_toNat {b : UInt8} (h : 48 ≤ b.toNat) (h' : b.toNat ≤ 57) :
    isDigit b = true := by
  simp [isDigit, UInt8.le_iff_toNat_le, h, h']

theorem digitsValue_eq_ofDigits (digits : List UInt8) :
    digitsValue digits = Nat.ofDigits 10 (digits.reverse.map fun b => b.toNat - 48) := by
  induction digits using List.reverseRecOn with
  | nil => rfl
  | append_singleton digits b ih =>
    rw [List.reverse_append, List.reverse_singleton, List.singleton_append, List.map_cons,
      Nat.ofDigits_cons, ← ih, digitsValue, digitsValue, List.foldl_append]
    show 10 * _ + (b.toNat - 48) = _
    rw [add_comm]

theorem toNat_digit {d : ℕ} (h : d < 10) : (UInt8.ofNat (48 + d)).toNat = 48 + d := by
  rw [UInt8.toNat_ofNat']
  omega

/-- `atoi` reads what `%d` prints. -/
theorem digitsValue_decimal (n : ℕ) : digitsValue (decimal n) = n := by
  unfold decimal
  split_ifs with hn
  · rw [hn]
    rfl
  · rw [digitsValue_eq_ofDigits, ← List.map_reverse, List.reverse_reverse, List.map_map]
    have hdigits : (Nat.digits 10 n).map ((fun b : UInt8 => b.toNat - 48) ∘ fun d =>
        UInt8.ofNat (48 + d)) = (Nat.digits 10 n).map id := by
      apply List.map_congr_left
      intro d hd
      show (UInt8.ofNat (48 + d)).toNat - 48 = d
      rw [toNat_digit (Nat.digits_lt_base (by omega) hd)]
      omega
    rw [hdigits, List.map_id, Nat.ofDigits_digits]

theorem isDigit_decimal (n : ℕ) : ∀ b ∈ decimal n, isDigit b = true := by
  intro b hb
  unfold decimal at hb
  split_ifs at hb
  · obtain rfl := List.mem_singleton.1 hb
    rfl
  · obtain ⟨d, hd, rfl⟩ := List.mem_map.1 hb
    have hlt : d < 10 := Nat.digits_lt_base (by omega) (List.mem_reverse.1 hd)
    apply isDigit_of_toNat <;> rw [toNat_digit hlt] <;> omega

theorem decimal_ne_nil (n : ℕ) : decimal n ≠ [] := by
  unfold decimal
  split_ifs with hn
  · simp
  · simpa using Nat.digits_ne_nil_iff_ne_zero.2 hn

theorem length_decimal_le {n k : ℕ} (hk : 0 < k) (hn : n < 10 ^ k) : (decimal n).length ≤ k := by
  unfold decimal
  split_ifs
  · exact hk
  · rw [List.length_map, List.length_reverse]
    exact (Nat.digits_length_le_iff (by omega) n).2 hn

/-- A string of digits only is read as their value, if that is an `int`. -/
theorem atoi_digits {s : CString} (hne : s.bytes ≠ []) (hdigits : ∀ b ∈ s.bytes, isDigit b = true)
    (hvalue : digitsValue s.bytes < 2 ^ 31) : atoi s = digitsValue s.bytes := by
  have htake : s.bytes.takeWhile isDigit = s.bytes := List.takeWhile_eq_self_iff.2 hdigits
  have hplain : splitSign (s.bytes.dropWhile isSpace) = (false, s.bytes) := by
    cases hs : s.bytes with
    | nil => exact absurd hs hne
    | cons b rest =>
      -- a digit is neither a space nor a sign
      have hb := toNat_of_isDigit (hdigits b (by simp [hs]))
      have hspace : isSpace b = false := by
        simp only [isSpace, Bool.or_eq_false_iff, Bool.and_eq_false_iff, beq_eq_false_iff_ne,
          decide_eq_false_iff_not, UInt8.le_iff_toNat_le, ne_eq, ← UInt8.toNat_inj]
        have : (32 : UInt8).toNat = 32 := rfl
        have : (13 : UInt8).toNat = 13 := rfl
        omega
      have hminus : b ≠ 45 := by
        intro h
        rw [h] at hb
        exact absurd hb.1 (by decide)
      have hplus : b ≠ 43 := by
        intro h
        rw [h] at hb
        exact absurd hb.1 (by decide)
      rw [List.dropWhile_cons_of_neg (by simp [hspace]), splitSign]
      · simpa using hminus
      · simpa using hplus
  rw [atoi, strtol, hplain]
  show toInt32 (if false = true then _ else min (2 ^ 63 - 1) _) = _
  rw [if_neg Bool.false_ne_true, htake, min_eq_right (by omega)]
  exact toInt32_of_lt (by omega) (by omega)

end ReplicatedTree
