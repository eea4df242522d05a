import ReplicatedTree.StringParsing

/-!
# Addresses of servers (`parse_address_port`)

`zk_register_tree_server` prints the address of a server as "%s:%d" into its znode, and other
servers and clients take it apart again. `parse_address_port` reads every such text back. It
is laxer than the format asks for: colons are merged, a third word is dropped, and a port is
what `atoi` makes of the second word, provided that is not 0.
-/

namespace ReplicatedTree

open Tokens

/-- `ADDRESS_PORT_SEPARATOR` -/
def addressPortSeparator : UInt8 := 58

/-- `*pointer_to_address` and `*pointer_to_port`; nothing is in them before they are set. -/
structure AddressPort where
  ipAddress : Option CString
  port : Option ℤ
deriving DecidableEq

/-- `parse_address_port`: what is in the two outputs afterwards, and the answer. -/
def parseAddressPort (addressPort : Option CString) (outputs : AddressPort) :
    Except Failure (AddressPort × ℤ) :=
  match addressPort with
  | none => .ok (outputs, -1)
  | some addressPort =>
    let (ipAddress, rest) := strtok addressPortSeparator addressPort
    let (portStr, _) := strtok addressPortSeparator rest
    match portStr with
    | none => .ok (outputs, -1)
    | some portStr =>
      let port := atoi portStr
      if port = 0 then .ok (outputs, -1)
      else
        match ipAddress with
        -- strdup(NULL)
        | none => .error .fault
        | some ipAddress => .ok (⟨some ipAddress, some port⟩, 0)

/-- `inet_ntoa`, for the bytes in network order. -/
def inetNtoa (a b c d : UInt8) : CString :=
  cStringOf (decimal a.toNat ++ 46 :: (decimal b.toNat ++ 46 :: (decimal c.toNat ++ 46 ::
    decimal d.toNat)))

/-- `server_address_and_port`, as `zk_register_tree_server` prints it: "%s:%d". -/
def serverAddressAndPort (a b c d : UInt8) (port : UInt16) : CString :=
  cStringOf ((inetNtoa a b c d).bytes ++ addressPortSeparator :: decimal port.toNat)

/-! ## What is accepted -/

/-- "<ip-address>:<port>". -/
structure IsAddressPort (s ipAddress : CString) (port : ℤ) : Prop where
  ip_ne_nil : ipAddress.bytes ≠ []
  ip_no_separator : addressPortSeparator ∉ ipAddress.bytes
  text : ∃ digits, digits ≠ [] ∧ (∀ b ∈ digits, isDigit b = true) ∧
    (digitsValue digits : ℤ) = port ∧
    s.bytes = ipAddress.bytes ++ addressPortSeparator :: digits
  range : 1 ≤ port ∧ port ≤ 65535

/-- There are two words, and `atoi` does not make 0 of the second. -/
structure HoldsAddressPort (s ipAddress : CString) (port : ℤ) : Prop where
  words : ∃ portStr : CString, atoi portStr = port ∧ ∃ rest,
    Words (· == addressPortSeparator) s.bytes (some ipAddress.bytes) (some portStr.bytes) rest
  port_ne_zero : port ≠ 0

/-- The accepted pair is stored; if there is none, the answer is -1 and nothing is stored. -/
structure ParsesExactly (s : CString) (outputs : AddressPort) (accepted : CString → ℤ → Prop) :
    Prop where
  stores : ∀ ipAddress port, accepted ipAddress port →
    parseAddressPort (some s) outputs = .ok (⟨some ipAddress, some port⟩, 0)
  refuses : (∀ ipAddress port, ¬accepted ipAddress port) →
    parseAddressPort (some s) outputs = .ok (outputs, -1)

theorem HoldsAddressPort.parse {s ipAddress : CString} {port : ℤ}
    (h : HoldsAddressPort s ipAddress port) (outputs : AddressPort) :
    parseAddressPort (some s) outputs = .ok (⟨some ipAddress, some port⟩, 0) := by
  obtain ⟨⟨portStr, hport, rest, hwords⟩, hne⟩ := h
  have hfound := @strtok_of_words _ s (some ipAddress) (some portStr) rest hwords
  simp only [parseAddressPort, hfound, hport, if_neg hne]

theorem holds_or_refuses (s : CString) (outputs : AddressPort) :
    (∃ ipAddress port, HoldsAddressPort s ipAddress port) ∨
      parseAddressPort (some s) outputs = .ok (outputs, -1) := by
  have hwords := words_strtok addressPortSeparator s
  cases hword : (strtok addressPortSeparator (strtok addressPortSeparator s).2).1 with
  | none => exact Or.inr (by simp only [parseAddressPort, hword])
  | some portStr =>
    by_cases hzero : atoi portStr = 0
    · exact Or.inr (by simp only [parseAddressPort, hword, if_pos hzero])
    · rw [hword] at hwords
      have hfirst := hwords.first_isSome rfl
      rw [Option.isSome_map] at hfirst
      obtain ⟨ipAddress, hip⟩ := Option.isSome_iff_exists.1 hfirst
      rw [hip] at hwords
      exact Or.inl ⟨ipAddress, atoi portStr, ⟨portStr, rfl, _, hwords⟩, hzero⟩

theorem parsesExactly_holds (s : CString) (outputs : AddressPort) :
    ParsesExactly s outputs (HoldsAddressPort s) where
  stores := fun _ _ h => h.parse outputs
  refuses := by
    intro hnone
    rcases holds_or_refuses s outputs with ⟨ipAddress, port, h⟩ | h
    · exact absurd h (hnone ipAddress port)
    · exact h

/-! ## The format -/

/-- A text in the format holds its address and its port. -/
theorem IsAddressPort.holds {s ipAddress : CString} {port : ℤ}
    (h : IsAddressPort s ipAddress port) : HoldsAddressPort s ipAddress port := by
  obtain ⟨hne, hsep, ⟨digits, hdigitsNe, hdigits, hvalue, htext⟩, hlow, hhigh⟩ := h
  have hnul : 0 ∉ digits := fun h0 => absurd (hdigits 0 h0) (by decide)
  have hport : atoi ⟨digits, hnul⟩ = port := by
    rw [atoi_digits hdigitsNe hdigits (by dsimp only; omega)]
    exact hvalue
  have hdigit : addressPortSeparator ∉ digits := fun h => absurd (hdigits _ h) (by decide)
  have hwords := Words.two isGap_nil (isWord_of_notMem hne hsep)
    (isGap_delimiter addressPortSeparator) (List.cons_ne_nil _ _)
    (isWord_of_notMem hdigitsNe hdigit) isGap_nil.endsWord
  refine ⟨⟨⟨digits, hnul⟩, hport, [], ?_⟩, by omega⟩
  simpa [htext] using hwords

/-! ## What servers register -/

theorem mem_decimal {b : UInt8} {n : ℕ} (h : b ∈ decimal n) : 48 ≤ b.toNat :=
  (toNat_of_isDigit (isDigit_decimal n b h)).1

theorem bytes_inetNtoa (a b c d : UInt8) : (inetNtoa a b c d).bytes =
    decimal a.toNat ++ 46 :: (decimal b.toNat ++ 46 :: (decimal c.toNat ++ 46 ::
      decimal d.toNat)) := by
  apply bytes_cStringOf
  intro h
  have hzero : ∀ n, (0 : UInt8) ∉ decimal n := fun n h => absurd (mem_decimal h) (by decide)
  simp [hzero] at h

theorem bytes_serverAddressAndPort (a b c d : UInt8) (port : UInt16) :
    (serverAddressAndPort a b c d port).bytes =
      (inetNtoa a b c d).bytes ++ addressPortSeparator :: decimal port.toNat := by
  apply bytes_cStringOf
  intro h
  rcases List.mem_append.1 h with h | h
  · exact (inetNtoa a b c d).no_nul h
  · rcases List.mem_cons.1 h with h | h
    · exact absurd h (by decide)
    · exact absurd (mem_decimal h) (by decide)

/-- `SERVER_ADDRESS_AND_PORT_MAX_LEN` has room for the text and its terminator. -/
theorem length_serverAddressAndPort (a b c d : UInt8) (port : UInt16) :
    (serverAddressAndPort a b c d port).bytes.length + 1 ≤ 16 + 1 + 5 + 1 := by
  have hbyte : ∀ x : UInt8, (decimal x.toNat).length ≤ 3 := by
    intro x
    have := x.toNat_lt
    exact length_decimal_le (by omega) (by omega)
  have hport : (decimal port.toNat).length ≤ 5 := by
    have := port.toNat_lt
    exact length_decimal_le (by omega) (by omega)
  have ha := hbyte a
  have hb := hbyte b
  have hc := hbyte c
  have hd := hbyte d
  rw [bytes_serverAddressAndPort, bytes_inetNtoa]
  simp only [List.length_append, List.length_cons]
  omega

theorem isAddressPort_server (a b c d : UInt8) {port : UInt16} (hport : port ≠ 0) :
    IsAddressPort (serverAddressAndPort a b c d port) (inetNtoa a b c d) port.toNat := by
  have hpos : port.toNat ≠ 0 := fun h => hport (UInt16.toNat_inj.1 h)
  have hlt := port.toNat_lt
  refine ⟨?_, ?_, ⟨decimal port.toNat, decimal_ne_nil _, isDigit_decimal _, ?_,
    bytes_serverAddressAndPort a b c d port⟩, by omega, by omega⟩
  · simp [bytes_inetNtoa]
  · -- dots and digits only
    intro h
    have hcolon : ∀ n, addressPortSeparator ∉ decimal n := by
      intro n h
      exact absurd (isDigit_decimal n _ h) (by decide)
    rw [bytes_inetNtoa] at h
    simp only [List.mem_append, List.mem_cons, hcolon, false_or, or_false] at h
    exact absurd h (by decide)
  · rw [digitsValue_decimal]

/-! ## The answer for every string -/

/-- What `parse_address_port` makes of a string, with what it reads back. -/
structure ParsesAddressPort (s : CString) (outputs : AddressPort) : Prop where
  exact : ParsesExactly s outputs (HoldsAddressPort s)
  format : ∀ ipAddress port, IsAddressPort s ipAddress port →
    parseAddressPort (some s) outputs = .ok (⟨some ipAddress, some port⟩, 0)
  registered : ∀ a b c d (port : UInt16), port ≠ 0 → s = serverAddressAndPort a b c d port →
    parseAddressPort (some s) outputs = .ok (⟨some (inetNtoa a b c d), some port.toNat⟩, 0)

theorem parseAddressPort_accepts (s : CString) (outputs : AddressPort) :
    ParsesAddressPort s outputs where
  exact := parsesExactly_holds s outputs
  format := fun _ _ h => h.holds.parse outputs
  registered := by
    intro a b c d port hport htext
    rw [htext]
    exact (isAddressPort_server a b c d hport).holds.parse outputs

/-- "a::1" -/
def twoSeparators : CString := ⟨[97, 58, 58, 49], by decide⟩

/-- Two colons are merged: a text out of the format is accepted. -/
theorem parseAddressPort_twoSeparators :
    parseAddressPort (some twoSeparators) ⟨none, none⟩ =
        .ok (⟨some ⟨[97], by decide⟩, some 1⟩, 0) ∧
      ¬∀ s outputs, ParsesExactly s outputs (IsAddressPort s) := by
  refine ⟨by decide, ?_⟩
  intro h
  have hnone : ∀ ipAddress port, ¬IsAddressPort twoSeparators ipAddress port := by
    intro ipAddress port ⟨_, hsep, ⟨digits, _, hdigits, _, htext⟩, _⟩
    have hcolon : addressPortSeparator ∉ digits := fun h => absurd (hdigits _ h) (by decide)
    have hcount := congrArg (List.count addressPortSeparator) htext
    rw [List.count_append, List.count_cons_self, List.count_eq_zero.2 hsep,
      List.count_eq_zero.2 hcolon] at hcount
    exact absurd hcount (by decide)
  exact absurd ((h twoSeparators ⟨none, none⟩).refuses hnone) (by decide)

end ReplicatedTree
