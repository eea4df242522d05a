import Mathlib.Algebra.Order.BigOperators.Group.List
import Mathlib.Algebra.Order.Ring.Int
import Mathlib.Algebra.Order.Ring.Nat
import Mathlib.Data.Int.Notation
import Mathlib.Data.List.Basic
import Mathlib.Tactic.Common

/-!
# The wire format of messages

A message is a sequence of fields. A field is length-delimited: a tag, which is the field's
number and the wire type 2, the length of the payload, and the payload. Tags and lengths are
varints: seven bits a byte, the lowest first, with the high bit set on every byte but the last.
A record is a field or a number: a tag of the wire type 0 and a varint.
-/

namespace ReplicatedTree
namespace Wire

/-! ## Varints -/

def encodeVarint (n : ℕ) : List UInt8 :=
  if n < 128 then [UInt8.ofNat n]
  else UInt8.ofNat (n % 128 + 128) :: encodeVarint (n / 128)

def decodeVarint : List UInt8 → Option (ℕ × List UInt8)
  | [] => none
  | b :: bytes =>
    if b.toNat < 128 then some (b.toNat, bytes)
    else (decodeVarint bytes).map fun (n, rest) => (b.toNat - 128 + 128 * n, rest)

theorem decodeVarint_encode (n : ℕ) (rest : List UInt8) :
    decodeVarint (encodeVarint n ++ rest) = some (n, rest) := by
  induction n using Nat.strongRecOn with
  | ind n ih =>
    rw [encodeVarint]
    split_ifs with hn
    · have hb : (UInt8.ofNat n).toNat = n := by
        rw [UInt8.toNat_ofNat']
        omega
      rw [List.singleton_append, decodeVarint, hb, if_pos hn]
    · have hb : (UInt8.ofNat (n % 128 + 128)).toNat = n % 128 + 128 := by
        rw [UInt8.toNat_ofNat']
        omega
      rw [List.cons_append, decodeVarint, hb, if_neg (by omega), ih (n / 128) (by omega)]
      simp only [Option.map_some, Option.some.injEq, Prod.mk.injEq, and_true]
      omega

theorem length_encodeVarint_pos (n : ℕ) : 0 < (encodeVarint n).length := by
  rw [encodeVarint]
  split_ifs <;> simp

/-- A varint takes no more bytes than the number has digits to the base 128. -/
theorem length_encodeVarint_le {k n : ℕ} (h : n < 128 ^ (k + 1)) :
    (encodeVarint n).length ≤ k + 1 := by
  induction k generalizing n with
  | zero =>
    rw [encodeVarint, if_pos (by simpa using h)]
    simp
  | succ k ih =>
    rw [encodeVarint]
    split_ifs with hn
    · simp
    · have hdiv : n / 128 < 128 ^ (k + 1) := by
        rw [Nat.div_lt_iff_lt_mul (by decide)]
        rwa [Nat.pow_succ] at h
      rw [List.length_cons]
      have := ih hdiv
      omega

/-- What is left after a varint is shorter. -/
theorem length_of_decodeVarint {bytes rest : List UInt8} {n : ℕ}
    (h : decodeVarint bytes = some (n, rest)) : rest.length + 1 ≤ bytes.length := by
  induction bytes generalizing n rest with
  | nil => exact absurd h (by simp [decodeVarint])
  | cons b bytes ih =>
    rw [decodeVarint] at h
    split_ifs at h with hb
    · simp only [Option.some.injEq, Prod.mk.injEq] at h
      rw [← h.2]
      exact le_rfl
    · rcases Option.map_eq_some_iff.1 h with ⟨⟨m, rest'⟩, hm, heq⟩
      simp only [Prod.mk.injEq] at heq
      have hrest := ih hm
      rw [← heq.2, List.length_cons]
      omega

/-! ## Sequences -/

section Sequences

variable {α : Type} {encode : α → List UInt8} {decode : List UInt8 → Option (α × List UInt8)}

/-- The values that a reader takes from the bytes one after another, with fuel for as many. -/
def decodeManyFuel (decode : List UInt8 → Option (α × List UInt8)) :
    ℕ → List UInt8 → Option (List α)
  | _, [] => some []
  | 0, _ :: _ => none
  | fuel + 1, b :: bytes => do
    let (a, rest) ← decode (b :: bytes)
    let as ← decodeManyFuel decode fuel rest
    return a :: as

theorem decodeManyFuel_encode (hdecode : ∀ a rest, decode (encode a ++ rest) = some (a, rest))
    (hpos : ∀ a, 0 < (encode a).length) (as : List α) {fuel : ℕ} (h : as.length ≤ fuel) :
    decodeManyFuel decode fuel (as.flatMap encode) = some as := by
  induction as generalizing fuel with
  | nil => simp [decodeManyFuel]
  | cons a as ih =>
    rw [List.length_cons] at h
    obtain ⟨fuel, rfl⟩ : ∃ n, fuel = n + 1 := ⟨fuel - 1, by omega⟩
    have hfirst := hdecode a (as.flatMap encode)
    rw [List.flatMap_cons]
    cases hbytes : encode a ++ as.flatMap encode with
    | nil =>
      have := hpos a
      rw [(List.append_eq_nil_iff.1 hbytes).1] at this
      exact absurd this (by simp)
    | cons b bytes =>
      rw [hbytes] at hfirst
      rw [decodeManyFuel, hfirst]
      simp only [Option.bind_eq_bind, Option.bind_some, ih (by omega : as.length ≤ fuel)]
      rfl

theorem length_le_flatMap (hpos : ∀ a, 0 < (encode a).length) (as : List α) :
    as.length ≤ (as.flatMap encode).length := by
  induction as with
  | nil => simp
  | cons a as ih =>
    have := hpos a
    rw [List.flatMap_cons, List.length_append, List.length_cons]
    omega

/-- What was read was in the bytes. -/
theorem sum_of_decodeManyFuel {weight : α → ℕ}
    (hweight : ∀ bytes a rest, decode bytes = some (a, rest) →
      rest.length + weight a ≤ bytes.length)
    {fuel : ℕ} {bytes : List UInt8} {as : List α}
    (h : decodeManyFuel decode fuel bytes = some as) : (as.map weight).sum ≤ bytes.length := by
  induction fuel generalizing bytes as with
  | zero =>
    cases bytes with
    | nil =>
      obtain rfl := Option.some.inj h
      simp
    | cons b bytes => exact absurd h (by simp [decodeManyFuel])
  | succ fuel ih =>
    cases bytes with
    | nil =>
      obtain rfl := Option.some.inj h
      simp
    | cons b bytes =>
      rw [decodeManyFuel] at h
      rcases Option.bind_eq_some_iff.1 h with ⟨⟨a, rest⟩, hfirst, h⟩
      rcases Option.bind_eq_some_iff.1 h with ⟨as', hrest, heq⟩
      obtain rfl := Option.some.inj heq
      have hle := hweight _ _ _ hfirst
      have hsum := ih hrest
      rw [List.map_cons, List.sum_cons]
      omega

end Sequences

/-! ## Fields -/

/-- A field number and a payload. -/
abbrev Field := ℕ × List UInt8

def encodeField (f : Field) : List UInt8 :=
  encodeVarint (8 * f.1 + 2) ++ (encodeVarint f.2.length ++ f.2)

def decodeField (bytes : List UInt8) : Option (Field × List UInt8) := do
  let (tag, bytes) ← decodeVarint bytes
  let (len, bytes) ← decodeVarint bytes
  if tag % 8 = 2 ∧ len ≤ bytes.length then some ((tag / 8, bytes.take len), bytes.drop len)
  else none

/-- The fields of a message, with fuel for as many. -/
def decodeFieldsFuel : ℕ → List UInt8 → Option (List Field)
  | _, [] => some []
  | 0, _ :: _ => none
  | fuel + 1, b :: bytes => do
    let (f, rest) ← decodeField (b :: bytes)
    let fs ← decodeFieldsFuel fuel rest
    return f :: fs

/-- The fields of a message; each takes at least one byte. -/
def decodeFields (bytes : List UInt8) : Option (List Field) :=
  decodeFieldsFuel bytes.length bytes

def encodeFields (fs : List Field) : List UInt8 := fs.flatMap encodeField

theorem decodeField_encode (f : Field) (rest : List UInt8) :
    decodeField (encodeField f ++ rest) = some (f, rest) := by
  obtain ⟨num, payload⟩ := f
  have hnum : (8 * num + 2) / 8 = num := by omega
  have htag : (8 * num + 2) % 8 = 2 := by omega
  have hle : payload.length ≤ (payload ++ rest).length := by
    rw [List.length_append]
    omega
  unfold decodeField encodeField
  simp only [List.append_assoc, decodeVarint_encode, Option.bind_eq_bind, Option.bind_some, htag,
    hle, and_self, if_true, hnum, List.take_left, List.drop_left]

theorem length_encodeField_pos (f : Field) : 0 < (encodeField f).length := by
  have := length_encodeVarint_pos (8 * f.1 + 2)
  unfold encodeField
  rw [List.length_append]
  omega

/-- The tag of a low field number takes few bytes, and a length below 2^35 at most five. -/
theorem length_encodeField_le {f : Field} {k : ℕ} (hnum : 8 * f.1 + 2 < 128 ^ (k + 1))
    (hlen : f.2.length < 2 ^ 35) :
    f.2.length + 2 ≤ (encodeField f).length ∧
      (encodeField f).length ≤ f.2.length + (k + 6) := by
  have htag := length_encodeVarint_le hnum
  have htag' := length_encodeVarint_pos (8 * f.1 + 2)
  have hsize := length_encodeVarint_le (k := 4) (n := f.2.length) (by omega)
  have hsize' := length_encodeVarint_pos f.2.length
  unfold encodeField
  rw [List.length_append, List.length_append]
  omega

theorem decodeFieldsFuel_eq (fuel : ℕ) (bytes : List UInt8) :
    decodeFieldsFuel fuel bytes = decodeManyFuel decodeField fuel bytes := by
  induction fuel generalizing bytes with
  | zero => cases bytes <;> rfl
  | succ fuel ih =>
    cases bytes with
    | nil => rfl
    | cons b bytes =>
      rw [decodeFieldsFuel, decodeManyFuel]
      simp only [ih]

theorem decodeFields_encode (fs : List Field) : decodeFields (encodeFields fs) = some fs := by
  rw [decodeFields, decodeFieldsFuel_eq]
  exact decodeManyFuel_encode decodeField_encode length_encodeField_pos fs
    (length_le_flatMap length_encodeField_pos fs)

theorem length_of_decodeField {bytes rest : List UInt8} {f : Field}
    (h : decodeField bytes = some (f, rest)) : rest.length + (f.2.length + 2) ≤ bytes.length := by
  unfold decodeField at h
  rcases Option.bind_eq_some_iff.1 h with ⟨⟨tag, bytes₁⟩, htag, h⟩
  rcases Option.bind_eq_some_iff.1 h with ⟨⟨len, bytes₂⟩, hlen, h⟩
  dsimp only at h hlen
  split_ifs at h with hle
  simp only [Option.some.injEq, Prod.mk.injEq] at h
  have htag' := length_of_decodeVarint htag
  have hlen' := length_of_decodeVarint hlen
  rw [← h.1, ← h.2, List.length_take, List.length_drop]
  omega

theorem sum_of_decodeFields {bytes : List UInt8} {fs : List Field}
    (h : decodeFields bytes = some fs) :
    (fs.map fun f => f.2.length + 2).sum ≤ bytes.length := by
  rw [decodeFields, decodeFieldsFuel_eq] at h
  exact sum_of_decodeManyFuel (fun _ _ _ => length_of_decodeField) h

/-- The payload of the last field with a number. -/
def lastField (num : ℕ) (fs : List Field) : Option (List UInt8) :=
  ((fs.filter fun f => f.1 = num).map Prod.snd).getLast?

/-! ## Records -/

inductive Payload
  | varint (n : ℕ)
  | delimited (bytes : List UInt8)

/-- A field number with a number or bytes. -/
abbrev Record := ℕ × Payload

def encodeRecord : Record → List UInt8
  | (num, .varint n) => encodeVarint (8 * num) ++ encodeVarint n
  | (num, .delimited bytes) => encodeField (num, bytes)

def decodeRecord (bytes : List UInt8) : Option (Record × List UInt8) := do
  let (tag, rest) ← decodeVarint bytes
  if tag % 8 = 0 then
    let (n, rest) ← decodeVarint rest
    some ((tag / 8, .varint n), rest)
  else
    let (f, rest) ← decodeField bytes
    some ((f.1, .delimited f.2), rest)

def encodeRecords (rs : List Record) : List UInt8 := rs.flatMap encodeRecord

/-- The records of a message; each takes at least one byte. -/
def decodeRecords (bytes : List UInt8) : Option (List Record) :=
  decodeManyFuel decodeRecord bytes.length bytes

theorem decodeRecord_encode (r : Record) (rest : List UInt8) :
    decodeRecord (encodeRecord r ++ rest) = some (r, rest) := by
  obtain ⟨num, payload⟩ := r
  cases payload with
  | varint n =>
    have htag : 8 * num % 8 = 0 := by omega
    have hnum : 8 * num / 8 = num := by omega
    rw [decodeRecord, encodeRecord, List.append_assoc, decodeVarint_encode]
    simp only [Option.bind_eq_bind, Option.bind_some, htag, hnum, if_true, decodeVarint_encode]
  | delimited bytes =>
    have htag : ¬ (8 * num + 2) % 8 = 0 := by omega
    have hfield := decodeField_encode (num, bytes) rest
    have htagged : decodeVarint (encodeField (num, bytes) ++ rest)
        = some (8 * num + 2, encodeVarint bytes.length ++ bytes ++ rest) := by
      rw [encodeField, List.append_assoc, decodeVarint_encode]
    rw [decodeRecord, encodeRecord, htagged]
    simp only [Option.bind_eq_bind, Option.bind_some, htag, if_false, hfield]

theorem length_encodeRecord_pos (r : Record) : 0 < (encodeRecord r).length := by
  obtain ⟨num, payload⟩ := r
  cases payload with
  | varint n =>
    have := length_encodeVarint_pos (8 * num)
    rw [encodeRecord, List.length_append]
    omega
  | delimited bytes => exact length_encodeField_pos (num, bytes)

theorem decodeRecords_encode (rs : List Record) : decodeRecords (encodeRecords rs) = some rs :=
  decodeManyFuel_encode decodeRecord_encode length_encodeRecord_pos rs
    (length_le_flatMap length_encodeRecord_pos rs)

def Payload.length : Payload → ℕ
  | .varint _ => 0
  | .delimited bytes => bytes.length

@[simp] theorem Payload.length_varint (n : ℕ) : (Payload.varint n).length = 0 := rfl

@[simp] theorem Payload.length_delimited (bytes : List UInt8) :
    (Payload.delimited bytes).length = bytes.length := rfl

theorem length_of_decodeRecord {bytes rest : List UInt8} {r : Record}
    (h : decodeRecord bytes = some (r, rest)) : rest.length + r.2.length ≤ bytes.length := by
  unfold decodeRecord at h
  rcases Option.bind_eq_some_iff.1 h with ⟨⟨tag, bytes₁⟩, htag, h⟩
  dsimp only at h
  split_ifs at h
  · rcases Option.bind_eq_some_iff.1 h with ⟨⟨n, bytes₂⟩, hn, heq⟩
    simp only [Option.some.injEq, Prod.mk.injEq] at heq
    have htag' := length_of_decodeVarint htag
    have hn' := length_of_decodeVarint hn
    rw [← heq.1, ← heq.2]
    simp only [Payload.length_varint]
    omega
  · rcases Option.bind_eq_some_iff.1 h with ⟨⟨f, bytes₂⟩, hf, heq⟩
    simp only [Option.some.injEq, Prod.mk.injEq] at heq
    have hf' := length_of_decodeField hf
    rw [← heq.1, ← heq.2]
    simp only [Payload.length_delimited]
    omega

/-- The bytes of a record are among the bytes of the message. -/
theorem length_le_of_decodeRecords {bytes : List UInt8} {rs : List Record} {r : Record}
    (h : decodeRecords bytes = some rs) (hr : r ∈ rs) : r.2.length ≤ bytes.length := by
  have hsum : (rs.map fun r => r.2.length).sum ≤ bytes.length :=
    sum_of_decodeManyFuel (fun _ _ _ => length_of_decodeRecord) h
  have hle : r.2.length ≤ (rs.map fun r => r.2.length).sum :=
    List.le_sum_of_mem (List.mem_map_of_mem hr)
  omega

/-! ## Signed numbers -/

/-- Numbers of small size become small: 0, -1, 1, -2, … -/
def zigzag (n : ℤ) : ℕ := if 0 ≤ n then 2 * n.toNat else 2 * (-n).toNat - 1

def unzigzag (n : ℕ) : ℤ := if n % 2 = 0 then (n / 2 : ℕ) else -((n + 1) / 2 : ℕ)

theorem unzigzag_zigzag (n : ℤ) : unzigzag (zigzag n) = n := by
  unfold zigzag unzigzag
  split_ifs <;> omega

theorem zigzag_lt {n : ℤ} {k : ℕ} (hlow : -(2 ^ k : ℕ) ≤ n) (hhigh : n < (2 ^ k : ℕ)) :
    zigzag n < 2 ^ (k + 1) := by
  unfold zigzag
  rw [Nat.pow_succ]
  split_ifs <;> omega

end Wire
end ReplicatedTree
