import ReplicatedTree.ClientStub
import ReplicatedTree.StringParsing

/-!
# The client's input (`tree_client.c`)

An iteration of the main loop reads a line, cuts it into a command and two arguments and runs
the command. `strtok_r` is called twice with one save pointer, and what it saves at last is the
second argument, spaces included.

A line without a word has no command, and the first comparison in `_run_command` is made on
NULL (`client_handles_iff`).
-/

namespace ReplicatedTree

open Tokens

/-! ## Lines -/

/-- `MAX_INPUT_LEN` -/
def maxInputLen : ℕ := 5000

/-- The bytes up to the first '\n', at most so many, and what is left in the stream. -/
def fgetsLoop : ℕ → List UInt8 → List UInt8 × List UInt8
  | 0, stdin => ([], stdin)
  | _ + 1, [] => ([], [])
  | n + 1, b :: stdin =>
    if b = 10 then ([b], stdin)
    else
      let (line, rest) := fgetsLoop n stdin
      (b :: line, rest)

/-- `fgets`; nothing is stored at the end of the input. -/
def fgets (size : ℕ) (stdin : List UInt8) : Option (List UInt8 × List UInt8) :=
  let (line, rest) := fgetsLoop (size - 1) stdin
  if line = [] then none else some (line, rest)

/-- `_collect_input`, which does not ask `fgets` for its result. -/
def collectInput (stdin : List UInt8) : Except Failure (CString × List UInt8) :=
  match fgets maxInputLen stdin with
  -- strlen of a block that was not written
  | none => .error .fault
  | some (line, rest) =>
    let inputStr := cStringOf line
    match inputStr.bytes.getLast? with
    -- input_str[-1]
    | none => .error .fault
    | some lastChar =>
      let strLen := if lastChar = 10 then inputStr.bytes.length - 1 else inputStr.bytes.length
      .ok (cStringOf (inputStr.bytes.take strLen), rest)

/-! ## Commands -/

def ofChars (chars : List Char) : CString := cStringOf (chars.map fun c => UInt8.ofNat c.toNat)

theorem length_take_toInt32 (block : List UInt8) :
    ∀ b ∈ some (block.take (toInt32 block.length).toNat),
      b.length = (toInt32 block.length).toNat := by
  intro b hb
  have := toInt32_le block.length
  rw [← Option.mem_some.1 hb, List.length_take]
  omega

/-- `_entry_create_from_args` -/
def entryCreateFromArgs (key data : Option CString) : Option EntryT :=
  match key, data with
  | some key, some data =>
    -- strdup(data), of which strlen(data) + 1 bytes are the value
    let block := data.bytes ++ [0]
    let size := toInt32 block.length
    (dataCreate2 size (some (block.take size.toNat)) (length_take_toInt32 block)).map fun data =>
      entryCreate (some key) (some data)
  | _, _ => none

/-- What `_run_command` does with the servers, or prints instead. -/
inductive ClientCommand
  | call (c : RtreeCall)
  /-- "Invalid args. Usage: ..." -/
  | invalidArgs (usage : String)
  /-- "Unknown command!" -/
  | unknown

/-- The branch of "put", with what `_entry_create_from_args` returned. -/
def putCommand : Option EntryT → ClientCommand
  | none => .invalidArgs "put <key> <data>"
  | some entry => .call (.put (some entry))

/-- `_run_command`; `strcmp` must not be given NULL. -/
def runCommand (command arg1 arg2 : Option CString) : Except Failure ClientCommand :=
  match command with
  | none => .error .fault
  | some command =>
    if strcmp command (ofChars ['s', 'i', 'z', 'e']) = 0 then .ok (.call .size)
    else if strcmp command (ofChars ['h', 'e', 'i', 'g', 'h', 't']) = 0 then .ok (.call .height)
    else if strcmp command (ofChars ['d', 'e', 'l']) = 0 then
      match arg1 with
      | none => .ok (.invalidArgs "del <key>")
      | some key => .ok (.call (.del (some key)))
    else if strcmp command (ofChars ['g', 'e', 't']) = 0 then
      match arg1 with
      | none => .ok (.invalidArgs "get <key>")
      | some key => .ok (.call (.get (some key)))
    else if strcmp command (ofChars ['p', 'u', 't']) = 0 then
      .ok (putCommand (entryCreateFromArgs arg1 arg2))
    else if strcmp command (ofChars ['g', 'e', 't', 'k', 'e', 'y', 's']) = 0 then
      .ok (.call .getKeys)
    else if strcmp command (ofChars ['v', 'e', 'r', 'i', 'f', 'y']) = 0 then
      match arg1 with
      | none => .ok (.invalidArgs "verify <op_id>")
      | some opId =>
        if atoi opId < 0 then .ok (.invalidArgs "verify <op_id>")
        else .ok (.call (.verify (atoi opId)))
    else .ok .unknown

/-! ## The main loop -/

/-- What `main` does with a line. -/
inductive InputAction
  | quit
  /-- "Server already connected" -/
  | alreadyConnected
  /-- `servers_retry_connect` -/
  | retryConnect
  /-- the line is dropped -/
  | notConnected
  /-- `_run_command` -/
  | run (command arg1 arg2 : Option CString)
deriving DecidableEq

/-- What the loop does with the string of `_collect_input`, and with what
`rtree_are_servers_connected` answers then. -/
def mainInput (connected : Bool) (inputStr : CString) : InputAction :=
  if strcmp inputStr (ofChars ['q', 'u', 'i', 't']) = 0 then .quit
  else if strcmp inputStr (ofChars ['r', 'e', 't', 'r', 'y']) = 0 then
    if connected then .alreadyConnected else .retryConnect
  else if connected = false then .notConnected
  else
    let (command, rest) := strtok 32 inputStr
    let (arg1, rest) := strtok 32 rest
    let arg2 := if rest.bytes.length = 0 then none else some rest
    .run command arg1 arg2

/-! ## What a line should do -/

/-- A line of input that fits the buffer of `_collect_input`. -/
structure InputLine where
  text : CString
  /-- whether it ends with '\n', or with the input -/
  newline : Bool
  no_newline : 10 ∉ text.bytes
  /-- the end of the input is not a line -/
  ne_nil : newline = false → text.bytes ≠ []
  fits : text.bytes.length + newline.toNat + 1 ≤ maxInputLen

/-- Standard input at the line, with what follows a '\n'. -/
def InputLine.stdin (line : InputLine) (following : List UInt8) : List UInt8 :=
  line.text.bytes ++ if line.newline then 10 :: following else []

def InputLine.rest (line : InputLine) (following : List UInt8) : List UInt8 :=
  if line.newline then following else []

/-- The command is the first word, `arg1` the second, and `arg2` what follows the space after
that, if anything does. -/
structure Tokenised (s : CString) (command arg1 arg2 : Option CString) : Prop where
  words : Words (· == 32) s.bytes (command.map CString.bytes) (arg1.map CString.bytes)
    (arg2.elim [] CString.bytes)
  arg2_ne_nil : ∀ arg ∈ arg2, arg.bytes ≠ []

/-- The key and the text with its terminator. -/
structure IsTextEntry (key data : CString) (entry : EntryT) : Prop where
  key_eq : entry.key = some key
  value : ∃ value, entry.value = some value ∧ value.datasize = data.bytes.length + 1 ∧
    value.data = some (data.bytes ++ [0])

/-- What the main loop should do with a line. -/
structure HandlesLine (line : InputLine) (connected : Bool) (following : List UInt8) : Prop where
  reads : collectInput (line.stdin following) = .ok (line.text, line.rest following)
  tokens : ∀ command arg1 arg2, mainInput connected line.text = .run command arg1 arg2 →
    Tokenised line.text command arg1 arg2
  has_command : ∀ command arg1 arg2, mainInput connected line.text = .run command arg1 arg2 →
    command ≠ none ∧ runCommand command arg1 arg2 ≠ .error .fault
  runs : connected = true → (∃ b ∈ line.text.bytes, b ≠ 32) →
    line.text ≠ ofChars ['q', 'u', 'i', 't'] → line.text ≠ ofChars ['r', 'e', 't', 'r', 'y'] →
      ∃ command arg1 arg2, mainInput connected line.text = .run command arg1 arg2
  puts : ∀ key data : CString, key.bytes ≠ [] → 32 ∉ key.bytes → data.bytes ≠ [] →
    line.text.bytes = (ofChars ['p', 'u', 't']).bytes ++ 32 :: (key.bytes ++ 32 :: data.bytes) →
      connected = true → ∃ entry, IsTextEntry key data entry ∧
        mainInput connected line.text
          = .run (some (ofChars ['p', 'u', 't'])) (some key) (some data) ∧
        entryCreateFromArgs (some key) (some data) = some entry ∧
        runCommand (some (ofChars ['p', 'u', 't'])) (some key) (some data)
          = .ok (.call (.put (some entry)))

/-! ## Reading -/

theorem fgetsLoop_newline {line : List UInt8} (hline : 10 ∉ line) (following : List UInt8) {n : ℕ}
    (hn : line.length < n) : fgetsLoop n (line ++ 10 :: following) = (line ++ [10], following) := by
  induction line generalizing n with
  | nil =>
    cases n with
    | zero => exact absurd hn (Nat.not_lt_zero _)
    | succ n => rfl
  | cons b line ih =>
    cases n with
    | zero => exact absurd hn (Nat.not_lt_zero _)
    | succ n =>
      have hb : b ≠ 10 := fun h => hline (h ▸ List.mem_cons_self)
      have hrest := ih (fun h => hline (List.mem_cons_of_mem _ h)) (Nat.lt_of_succ_lt_succ hn)
      rw [List.cons_append, fgetsLoop, if_neg hb, hrest]
      rfl

theorem fgetsLoop_end {line : List UInt8} (hline : 10 ∉ line) {n : ℕ} (hn : line.length ≤ n) :
    fgetsLoop n line = (line, []) := by
  induction line generalizing n with
  | nil => cases n <;> rfl
  | cons b line ih =>
    cases n with
    | zero => exact absurd hn (Nat.not_succ_le_zero _)
    | succ n =>
      have hb : b ≠ 10 := fun h => hline (h ▸ List.mem_cons_self)
      have hrest := ih (fun h => hline (List.mem_cons_of_mem _ h)) (Nat.le_of_succ_le_succ hn)
      rw [fgetsLoop, if_neg hb, hrest]

theorem collectInput_eq {stdin line rest : List UInt8} {lastChar : UInt8} (hnul : 0 ∉ line)
    (hread : fgetsLoop (maxInputLen - 1) stdin = (line, rest))
    (hlast : line.getLast? = some lastChar) : collectInput stdin = .ok
      (cStringOf (line.take (if lastChar = 10 then line.length - 1 else line.length)), rest) := by
  have hne : line ≠ [] := by
    intro h
    rw [h] at hlast
    exact absurd hlast (by simp)
  have hfgets : fgets maxInputLen stdin = some (line, rest) := by
    rw [fgets, hread]
    exact if_neg hne
  rw [collectInput, hfgets]
  simp only [bytes_cStringOf hnul, hlast]

/-- A line is read without its '\n'. -/
theorem collectInput_line (line : InputLine) (following : List UInt8) :
    collectInput (line.stdin following) = .ok (line.text, line.rest following) := by
  have hfits := line.fits
  cases hnewline : line.newline with
  | true =>
    rw [hnewline, Bool.toNat_true] at hfits
    have hread := fgetsLoop_newline line.no_newline following
      (show line.text.bytes.length < maxInputLen - 1 by omega)
    have hnul : 0 ∉ line.text.bytes ++ [10] := by
      simp [line.text.no_nul]
    have hlast : (line.text.bytes ++ [10]).getLast? = some 10 := by simp
    rw [InputLine.stdin, InputLine.rest, hnewline, if_pos rfl, if_pos rfl,
      collectInput_eq hnul hread hlast, if_pos rfl, List.length_append, List.length_singleton,
      Nat.add_sub_cancel, List.take_left, cStringOf_bytes]
  | false =>
    rw [hnewline, Bool.toNat_false] at hfits
    have hread := fgetsLoop_end line.no_newline
      (show line.text.bytes.length ≤ maxInputLen - 1 by omega)
    have hne := line.ne_nil hnewline
    have hlast := List.getLast?_eq_some_getLast hne
    have hnot : line.text.bytes.getLast hne ≠ 10 :=
      fun h => line.no_newline (h ▸ List.getLast_mem hne)
    rw [InputLine.stdin, InputLine.rest, hnewline, if_neg Bool.false_ne_true,
      if_neg Bool.false_ne_true, List.append_nil, collectInput_eq line.text.no_nul hread hlast,
      if_neg hnot, List.take_length, cStringOf_bytes]

/-! ## Cutting -/

/-- What is passed to `_run_command`. -/
theorem mainInput_run {text : CString} {command arg1 arg2 : Option CString}
    (hquit : text ≠ ofChars ['q', 'u', 'i', 't'])
    (hretry : text ≠ ofChars ['r', 'e', 't', 'r', 'y'])
    (h : Tokenised text command arg1 arg2) :
    mainInput true text = .run command arg1 arg2 := by
  obtain ⟨hcommand, harg1, hrest⟩ := strtok_of_words h.words
  have harg2 : (if (strtok 32 (strtok 32 text).2).2.bytes.length = 0 then none
      else some (strtok 32 (strtok 32 text).2).2) = arg2 := by
    cases arg2 with
    | none => rw [if_pos (by rw [hrest]; rfl)]
    | some arg =>
      have hne := h.arg2_ne_nil arg rfl
      rw [if_neg (by rw [hrest]; simpa using hne)]
      exact congrArg some (CString.ext hrest)
  rw [mainInput, if_neg (mt (strcmp_eq_zero _ _).1 hquit),
    if_neg (mt (strcmp_eq_zero _ _).1 hretry), if_neg (by decide)]
  show InputAction.run (strtok 32 text).1 (strtok 32 (strtok 32 text).2).1
    (if (strtok 32 (strtok 32 text).2).2.bytes.length = 0 then none
      else some (strtok 32 (strtok 32 text).2).2) = _
  rw [hcommand, harg1, harg2]

theorem exists_tokenised (text : CString) :
    ∃ command arg1 arg2, Tokenised text command arg1 arg2 := by
  have hwords := words_strtok 32 text
  by_cases hnil : (strtok 32 (strtok 32 text).2).2.bytes = []
  · rw [hnil] at hwords
    exact ⟨_, _, none, hwords, fun arg harg => absurd harg (Option.not_mem_none arg)⟩
  · refine ⟨_, _, some (strtok 32 (strtok 32 text).2).2, hwords, ?_⟩
    intro arg harg
    exact Option.mem_some.1 harg ▸ hnil

theorem mainInput_eq_run {connected : Bool} {text : CString} {command arg1 arg2 : Option CString}
    (h : mainInput connected text = .run command arg1 arg2) :
    connected = true ∧ text ≠ ofChars ['q', 'u', 'i', 't'] ∧
      text ≠ ofChars ['r', 'e', 't', 'r', 'y'] ∧ Tokenised text command arg1 arg2 := by
  by_cases hquit : text = ofChars ['q', 'u', 'i', 't']
  · rw [mainInput, if_pos ((strcmp_eq_zero _ _).2 hquit)] at h
    exact InputAction.noConfusion h
  · by_cases hretry : text = ofChars ['r', 'e', 't', 'r', 'y']
    · rw [mainInput, if_neg (mt (strcmp_eq_zero _ _).1 hquit),
        if_pos ((strcmp_eq_zero _ _).2 hretry)] at h
      cases connected <;> exact InputAction.noConfusion h
    · cases connected with
      | false =>
        rw [mainInput, if_neg (mt (strcmp_eq_zero _ _).1 hquit),
          if_neg (mt (strcmp_eq_zero _ _).1 hretry), if_pos rfl] at h
        exact InputAction.noConfusion h
      | true =>
        -- there is one way to cut the line
        obtain ⟨command', arg1', arg2', htokens⟩ := exists_tokenised text
        have hrun := mainInput_run hquit hretry htokens
        rw [h] at hrun
        obtain ⟨rfl, rfl, rfl⟩ := InputAction.run.inj hrun
        exact ⟨rfl, hquit, hretry, htokens⟩

/-! ## Commands -/

theorem runCommand_of_command (command : CString) (arg1 arg2 : Option CString) :
    runCommand (some command) arg1 arg2 ≠ .error .fault := by
  unfold runCommand
  cases arg1 <;> dsimp only <;> split_ifs <;> nofun

theorem tokenised_command_iff {text : CString} {command arg1 arg2 : Option CString}
    (h : Tokenised text command arg1 arg2) : command = none ↔ ∀ b ∈ text.bytes, b = 32 := by
  have hgap := h.words.first_eq_none_iff
  rw [Option.map_eq_none_iff] at hgap
  rw [hgap]
  exact forall₂_congr fun b _ => beq_iff_eq

/-- The value is the text with its terminator, as long as its size is an `int`. -/
theorem entryCreateFromArgs_eq (key : CString) {data : CString}
    (h : data.bytes.length < 2 ^ 31 - 1) :
    ∃ entry, IsTextEntry key data entry ∧ entryCreateFromArgs (some key) (some data)
      = some entry := by
  have hsize : toInt32 (data.bytes ++ [0]).length = (data.bytes.length : ℤ) + 1 := by
    rw [List.length_append, List.length_singleton, Nat.cast_add, Nat.cast_one]
    exact toInt32_of_lt (by omega) (by omega)
  have hblock : (data.bytes ++ [0]).take (toInt32 (data.bytes ++ [0]).length).toNat
      = data.bytes ++ [0] := by
    apply List.take_of_length_le
    rw [hsize, List.length_append, List.length_singleton]
    omega
  have hvalid : areParamsInvalid (toInt32 (data.bytes ++ [0]).length)
      (some ((data.bytes ++ [0]).take (toInt32 (data.bytes ++ [0]).length).toNat)) = false := by
    rw [hsize, areParamsInvalid, decide_eq_false (by omega)]
    simp
  obtain ⟨value, hcreate, hdatasize, hdata⟩ :=
    dataCreate2_of_params (length_take_toInt32 (data.bytes ++ [0])) hvalid
  rw [hsize] at hdatasize
  rw [hblock] at hdata
  refine ⟨entryCreate (some key) (some value), ⟨rfl, value, rfl, hdatasize, hdata⟩, ?_⟩
  unfold entryCreateFromArgs
  dsimp only
  rw [hcreate, Option.map_some]

theorem runCommand_put (key data : Option CString) :
    runCommand (some (ofChars ['p', 'u', 't'])) key data
      = .ok (putCommand (entryCreateFromArgs key data)) := by
  have hself := (strcmp_eq_zero (ofChars ['p', 'u', 't']) _).2 rfl
  unfold runCommand
  dsimp only
  rw [if_neg (by decide), if_neg (by decide), if_neg (by decide), if_neg (by decide),
    if_pos hself]

/-! ## When a line is handled -/

theorem handlesLine_puts (line : InputLine) {key data : CString} (hkey : key.bytes ≠ [])
    (hspace : 32 ∉ key.bytes) (hdata : data.bytes ≠ [])
    (htext : line.text.bytes
      = (ofChars ['p', 'u', 't']).bytes ++ 32 :: (key.bytes ++ 32 :: data.bytes)) :
    ∃ entry, IsTextEntry key data entry ∧
      mainInput true line.text
        = .run (some (ofChars ['p', 'u', 't'])) (some key) (some data) ∧
      entryCreateFromArgs (some key) (some data) = some entry ∧
      runCommand (some (ofChars ['p', 'u', 't'])) (some key) (some data)
        = .ok (.call (.put (some entry))) := by
  have hfits : data.bytes.length < 2 ^ 31 - 1 := by
    have hlength := congrArg List.length htext
    have := line.fits
    simp only [List.length_append, List.length_cons] at hlength
    unfold maxInputLen at this
    omega
  obtain ⟨entry, hentry, hcreate⟩ := entryCreateFromArgs_eq key hfits
  have htail : EndsWord (· == (32 : UInt8)) (32 :: data.bytes) := by
    intro c hc
    exact beq_iff_eq.2 (Option.mem_some.1 hc).symm
  have hput : IsWord (· == (32 : UInt8)) (ofChars ['p', 'u', 't']).bytes :=
    isWord_of_notMem (by decide) (by decide)
  have hwords := Words.two isGap_nil hput (isGap_delimiter 32) (List.cons_ne_nil _ _)
    (isWord_of_notMem hkey hspace) htail
  have htokens : Tokenised line.text (some (ofChars ['p', 'u', 't'])) (some key) (some data) := by
    refine ⟨?_, ?_⟩
    · rw [htext]
      exact hwords
    · intro arg harg
      exact Option.mem_some.1 harg ▸ hdata
  -- the line has a space, the other two commands have none
  have hother : ∀ s : CString, 32 ∉ s.bytes → line.text ≠ s := by
    intro s hs h
    apply hs
    rw [← h, htext]
    simp
  refine ⟨entry, hentry, mainInput_run (hother _ (by decide)) (hother _ (by decide)) htokens,
    hcreate, ?_⟩
  rw [runCommand_put, hcreate]
  rfl

/-- A line is handled as it should be exactly when the client is not connected or the line has
a word. -/
theorem client_handles_iff (line : InputLine) (connected : Bool) (following : List UInt8) :
    HandlesLine line connected following ↔
      connected = false ∨ ∃ b ∈ line.text.bytes, b ≠ 32 := by
  constructor
  · intro h
    by_contra hnot
    push Not at hnot
    obtain ⟨hconnected, hblank⟩ := hnot
    have hconnected : connected = true := Bool.eq_true_of_not_eq_false hconnected
    -- "quit" and "retry" are not blank
    have hword : ∀ s : CString, (∃ b ∈ s.bytes, b ≠ 32) → line.text ≠ s := by
      intro s ⟨b, hb, hne⟩ heq
      exact hne (hblank b (heq ▸ hb))
    obtain ⟨command, arg1, arg2, htokens⟩ := exists_tokenised line.text
    have hrun : mainInput connected line.text = .run command arg1 arg2 := by
      rw [hconnected]
      exact mainInput_run (hword _ (by decide)) (hword _ (by decide)) htokens
    exact (h.has_command command arg1 arg2 hrun).1 ((tokenised_command_iff htokens).2 hblank)
  · intro h
    refine ⟨collectInput_line line following, ?_, ?_, ?_, ?_⟩
    · intro command arg1 arg2 hrun
      exact (mainInput_eq_run hrun).2.2.2
    · intro command arg1 arg2 hrun
      obtain ⟨hconnected, _, _, htokens⟩ := mainInput_eq_run hrun
      rcases h with h | ⟨b, hb, hne⟩
      · exact absurd (hconnected.symm.trans h) Bool.noConfusion
      · cases command with
        | none => exact absurd ((tokenised_command_iff htokens).1 rfl b hb) hne
        | some command => exact ⟨Option.some_ne_none _, runCommand_of_command command arg1 arg2⟩
    · intro hconnected _ hquit hretry
      obtain ⟨command, arg1, arg2, htokens⟩ := exists_tokenised line.text
      rw [hconnected]
      exact ⟨command, arg1, arg2, mainInput_run hquit hretry htokens⟩
    · intro key data hkey hspace hdata htext hconnected
      rw [hconnected]
      exact handlesLine_puts line hkey hspace hdata htext

/-- The empty line. -/
def emptyLine : InputLine := ⟨⟨[], by decide⟩, true, by decide, by decide, by decide⟩

/-- A connected client that reads the empty line compares NULL with "size". -/
theorem client_emptyLine :
    collectInput (emptyLine.stdin []) = .ok (⟨[], by decide⟩, []) ∧
      mainInput true ⟨[], by decide⟩ = .run none none none ∧
      runCommand none none none = .error .fault ∧
      ¬∀ line connected following, HandlesLine line connected following := by
  have hrun : mainInput true ⟨[], by decide⟩ = .run none none none := by decide
  refine ⟨collectInput_line emptyLine [], hrun, rfl, ?_⟩
  intro h
  exact ((h emptyLine true []).has_command none none none hrun).1 rfl

end ReplicatedTree
