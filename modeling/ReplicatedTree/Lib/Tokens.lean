import Mathlib.Data.List.TakeWhile
import Mathlib.Tactic.Common

/-!
# Words between delimiters

`nextToken` is one call of a tokenizer that keeps its place: it skips delimiters, takes the word
behind them, and drops the one delimiter that ends the word. Runs of delimiters count as one
before a word, but not after it.

What the first two calls find, and where they leave off, is described without the tokenizer by
`Words`; `nextTwo_eq_iff` says that the description fits one answer only.
-/

namespace ReplicatedTree
namespace Tokens

variable {α : Type*} (isDelim : α → Bool)

/-- The next word, if there is one, and what is left after it. -/
def nextToken (s : List α) : Option (List α) × List α :=
  match s.dropWhile isDelim with
  | [] => (none, [])
  | c :: cs => (some ((c :: cs).takeWhile fun c => !isDelim c),
      ((c :: cs).dropWhile fun c => !isDelim c).tail)

/-- The first two words, and what is left after them. -/
def nextTwo (s : List α) : Option (List α) × Option (List α) × List α :=
  ((nextToken isDelim s).1, nextToken isDelim (nextToken isDelim s).2)

/-! ## The shape of a sequence -/

/-- Delimiters only. -/
def IsGap (s : List α) : Prop := ∀ c ∈ s, isDelim c = true

structure IsWord (w : List α) : Prop where
  ne_nil : w ≠ []
  no_delim : ∀ c ∈ w, isDelim c = false

/-- What may follow a word: nothing, or a delimiter first. -/
def EndsWord (tail : List α) : Prop := ∀ c ∈ tail.head?, isDelim c = true

/-- The first two words of a sequence, and what follows the delimiter that ends the second. -/
inductive Words : List α → Option (List α) → Option (List α) → List α → Prop
  | blank {s : List α} (hs : IsGap isDelim s) : Words s none none []
  | one {gap w gap' : List α} (hgap : IsGap isDelim gap) (hw : IsWord isDelim w)
    (hgap' : IsGap isDelim gap') : Words (gap ++ (w ++ gap')) (some w) none []
  | two {gap w gap' w' tail : List α} (hgap : IsGap isDelim gap) (hw : IsWord isDelim w)
    (hgap' : IsGap isDelim gap') (hne : gap' ≠ []) (hw' : IsWord isDelim w')
    (htail : EndsWord isDelim tail) :
    Words (gap ++ (w ++ (gap' ++ (w' ++ tail)))) (some w) (some w') tail.tail

variable {isDelim}

/-- There is no second word without a first one. -/
theorem Words.first_isSome {s : List α} {w w' : Option (List α)} {rest : List α}
    (h : Words isDelim s w w' rest) (hw' : w'.isSome) : w.isSome := by
  cases h with
  | blank hs => exact hw'
  | one hgap hw hgap' => rfl
  | two hgap hw hgap' hne hw' htail => rfl

/-- There is no first word in delimiters only. -/
theorem Words.first_eq_none_iff {s : List α} {w w' : Option (List α)} {rest : List α}
    (h : Words isDelim s w w' rest) : w = none ↔ IsGap isDelim s := by
  have hword : ∀ {gap w tail : List α}, IsWord isDelim w → ¬IsGap isDelim (gap ++ (w ++ tail)) := by
    intro gap w tail hw hgap
    obtain ⟨c, hc⟩ := List.exists_mem_of_ne_nil w hw.ne_nil
    have hdelim := hgap c (by simp [hc])
    rw [hw.no_delim c hc] at hdelim
    exact Bool.false_ne_true hdelim
  cases h with
  | blank hs => exact iff_of_true rfl hs
  | one hgap hw hgap' => exact iff_of_false (Option.some_ne_none _) (hword hw)
  | two hgap hw hgap' hne hw' htail => exact iff_of_false (Option.some_ne_none _) (hword hw)

theorem isGap_nil : IsGap isDelim [] := fun _ hc => absurd hc List.not_mem_nil

theorem IsGap.tail {s : List α} (h : IsGap isDelim s) : IsGap isDelim s.tail :=
  fun c hc => h c (List.mem_of_mem_tail hc)

theorem IsGap.endsWord {s : List α} (h : IsGap isDelim s) : EndsWord isDelim s :=
  fun c hc => h c (List.mem_of_mem_head? hc)

theorem endsWord_gap {gap : List α} (h : IsGap isDelim gap) (hne : gap ≠ []) (rest : List α) :
    EndsWord isDelim (gap ++ rest) := by
  intro c hc
  apply h
  cases gap with
  | nil => exact absurd rfl hne
  | cons d gap => exact List.mem_of_mem_head? hc

/-- A sequence has no word, or it starts with one after a gap. -/
theorem isGap_or_word (isDelim : α → Bool) (s : List α) : IsGap isDelim s ∨
    ∃ gap w tail, IsGap isDelim gap ∧ IsWord isDelim w ∧ EndsWord isDelim tail ∧
      s = gap ++ (w ++ tail) := by
  cases hdrop : s.dropWhile isDelim with
  | nil => exact Or.inl (List.dropWhile_eq_nil_iff.1 hdrop)
  | cons c cs =>
    have hc := List.head?_dropWhile_not isDelim s
    rw [hdrop] at hc
    have hc : isDelim c = false := by simpa using hc
    have hend := List.head?_dropWhile_not (fun c => !isDelim c) (c :: cs)
    refine Or.inr ⟨s.takeWhile isDelim, (c :: cs).takeWhile fun c => !isDelim c,
      (c :: cs).dropWhile fun c => !isDelim c, ?_, ⟨?_, ?_⟩, ?_, ?_⟩
    · intro d hd
      exact List.mem_takeWhile_imp hd
    · simp [hc]
    · intro d hd
      simpa using List.mem_takeWhile_imp hd
    · intro d hd
      rw [Option.mem_def.1 hd] at hend
      simpa using hend
    · rw [List.takeWhile_append_dropWhile, ← hdrop, List.takeWhile_append_dropWhile]

/-! ## The tokenizer -/

theorem nextToken_gap {s : List α} (h : IsGap isDelim s) : nextToken isDelim s = (none, []) := by
  have hdrop : s.dropWhile isDelim = [] := List.dropWhile_eq_nil_iff.2 h
  rw [nextToken, hdrop]

theorem nextToken_word {gap w tail : List α} (hgap : IsGap isDelim gap) (hw : IsWord isDelim w)
    (htail : EndsWord isDelim tail) :
    nextToken isDelim (gap ++ (w ++ tail)) = (some w, tail.tail) := by
  have hnot : ∀ c ∈ w, (!isDelim c) = true := fun c hc => by rw [hw.no_delim c hc]; rfl
  have htake : tail.takeWhile (fun c => !isDelim c) = [] := by
    cases tail with
    | nil => rfl
    | cons c cs => simp [htail c rfl]
  have hrest : tail.dropWhile (fun c => !isDelim c) = tail := by
    cases tail with
    | nil => rfl
    | cons c cs => simp [htail c rfl]
  cases w with
  | nil => exact absurd rfl hw.ne_nil
  | cons c cs =>
    have hc : isDelim c = false := hw.no_delim c List.mem_cons_self
    have hdrop : (gap ++ (c :: cs ++ tail)).dropWhile isDelim = c :: (cs ++ tail) := by
      rw [List.dropWhile_append_of_pos hgap]
      simp [hc]
    have hword : (c :: cs ++ tail).takeWhile (fun c => !isDelim c) = c :: cs := by
      rw [List.takeWhile_append_of_pos hnot, htake, List.append_nil]
    have hleft : (c :: cs ++ tail).dropWhile (fun c => !isDelim c) = tail := by
      rw [List.dropWhile_append_of_pos hnot, hrest]
    rw [nextToken, hdrop]
    show (some ((c :: cs ++ tail).takeWhile _), ((c :: cs ++ tail).dropWhile _).tail) = _
    rw [hword, hleft]

/-- What a call finds and what it leaves are parts of the sequence. -/
theorem mem_of_nextToken {s : List α} {c : α}
    (h : (∃ w ∈ (nextToken isDelim s).1, c ∈ w) ∨ c ∈ (nextToken isDelim s).2) : c ∈ s := by
  rcases isGap_or_word isDelim s with hgap | ⟨gap, w, tail, hgap, hw, htail, rfl⟩
  · rw [nextToken_gap hgap] at h
    simp at h
  · rw [nextToken_word hgap hw htail] at h
    rcases h with ⟨w', hw', hc⟩ | hc
    · obtain rfl := Option.some.inj hw'
      simp [hc]
    · simp [List.mem_of_mem_tail hc]

theorem words_nextTwo (isDelim : α → Bool) (s : List α) :
    Words isDelim s (nextTwo isDelim s).1 (nextTwo isDelim s).2.1 (nextTwo isDelim s).2.2 := by
  rcases isGap_or_word isDelim s with hgap | ⟨gap, w, tail, hgap, hw, htail, rfl⟩
  · have hnil : nextToken isDelim ([] : List α) = (none, []) := rfl
    simp only [nextTwo, nextToken_gap hgap, hnil]
    exact .blank hgap
  · simp only [nextTwo, nextToken_word hgap hw htail]
    cases tail with
    | nil =>
      have hnil : nextToken isDelim ([] : List α).tail = (none, []) := rfl
      rw [hnil]
      exact .one hgap hw isGap_nil
    | cons d rest =>
      have hd : isDelim d = true := htail d rfl
      rcases isGap_or_word isDelim rest with hgap' | ⟨gap', w', tail', hgap', hw', htail', rfl⟩
      · rw [List.tail_cons, nextToken_gap hgap']
        refine .one hgap hw ?_
        intro c hc
        rcases List.mem_cons.1 hc with rfl | hc
        · exact hd
        · exact hgap' c hc
      · rw [List.tail_cons, nextToken_word hgap' hw' htail', ← List.cons_append]
        refine .two hgap hw ?_ (List.cons_ne_nil d gap') hw' htail'
        intro c hc
        rcases List.mem_cons.1 hc with rfl | hc
        · exact hd
        · exact hgap' c hc

theorem nextTwo_of_words {s : List α} {w w' : Option (List α)} {rest : List α}
    (h : Words isDelim s w w' rest) : nextTwo isDelim s = (w, w', rest) := by
  have hnil : nextToken isDelim ([] : List α) = (none, []) := rfl
  cases h with
  | blank hs => rw [nextTwo, nextToken_gap hs, hnil]
  | one hgap hw hgap' =>
    rw [nextTwo, nextToken_word hgap hw hgap'.endsWord, nextToken_gap hgap'.tail]
  | @two gap w gap' w' tail hgap hw hgap' hne hw' htail =>
    have htail' : (gap' ++ (w' ++ tail)).tail = gap'.tail ++ (w' ++ tail) :=
      List.tail_append_of_ne_nil hne
    rw [nextTwo, nextToken_word hgap hw (endsWord_gap hgap' hne _), htail',
      nextToken_word hgap'.tail hw' htail]

/-- The description fits what the tokenizer answers, and nothing else. -/
theorem nextTwo_eq_iff {s : List α} {w w' : Option (List α)} {rest : List α} :
    nextTwo isDelim s = (w, w', rest) ↔ Words isDelim s w w' rest := by
  constructor
  · intro h
    have hwords := words_nextTwo isDelim s
    rwa [h] at hwords
  · exact nextTwo_of_words

end Tokens
end ReplicatedTree
