import ReplicatedTree.TreeMemoryTheorems

/-!
# Whole sessions with a tree (`tree.h`)

A client creates a tree and makes calls on it, in any order and with any arguments. It frees the
arguments of a call when the call returns, and it reads the answers only when the tree is destroyed;
then it frees them too. So a call that kept a pointer to an argument, or gave out a pointer into the
tree, would be found out.

Each session ends with the answers of the calls of `Tree`, and with each block freed
(`session_answers`). The loops need no more fuel than there are calls.
-/

namespace ReplicatedTree

open SearchTree

/-- A call on one tree. -/
inductive TreeCall
  | put (key : Option CString) (value : Option DataT)
  | del (key : Option CString)
  | get (key : Option CString)
  | size
  | height
  | getKeys

/-- What the caller reads: a number, the fields of a value, or an array of keys. -/
inductive TreeAnswer
  | int (n : ℤ)
  | data (d : Option (ℤ × Option (List UInt8)))
  | keys (keys : Option (List (Option CString)))
deriving DecidableEq

def DataT.fields (d : DataT) : ℤ × Option (List UInt8) := (d.datasize, d.data)

def TreeCall.exec (tree : TreeT) : TreeCall → TreeT × TreeAnswer
  | put key value => ((treePut tree key value).1, .int (treePut tree key value).2)
  | del key => ((treeDel tree key).1, .int (treeDel tree key).2)
  | get key => (tree, .data ((treeGet tree key).map DataT.fields))
  | size => (tree, .int (treeSize tree))
  | height => (tree, .int (treeHeight tree))
  | getKeys => (tree, .keys (treeGetKeys tree))

/-- The answers to a sequence of calls. -/
def treeAnswers (tree : TreeT) : List TreeCall → List TreeAnswer
  | [] => []
  | call :: calls => (call.exec tree).2 :: treeAnswers (call.exec tree).1 calls

theorem TreeT.Reachable.exec {tree : TreeT} (h : tree.Reachable) (call : TreeCall) :
    (call.exec tree).1.Reachable := by
  cases call with
  | put key value => exact h.put key value
  | del key => exact h.del key
  | get | size | height | getKeys => exact h

/-- A call adds at most one node. -/
theorem TreeT.Reachable.numNodes_exec {tree : TreeT} (h : tree.Reachable) (call : TreeCall) :
    (call.exec tree).1.root.numNodes ≤ tree.root.numNodes + 1 := by
  cases call with
  | put key value =>
    by_cases hnull : key = none ∨ value = none
    · rw [TreeCall.exec, treePut_null tree hnull]
      exact Nat.le_succ _
    · obtain ⟨hkey, hvalue⟩ := not_or.1 hnull
      obtain ⟨k, rfl⟩ := Option.ne_none_iff_exists'.1 hkey
      obtain ⟨d, rfl⟩ := Option.ne_none_iff_exists'.1 hvalue
      rw [TreeCall.exec, treePut_eq h.shape]
      dsimp only
      rw [numNodes_insert]
      split_ifs <;> omega
  | del key =>
    have hle : (inorder (treeDel tree key).1.root).length ≤ (inorder tree.root).length := by
      rw [inorder_treeDel h.shape]
      exact List.length_filter_le _ _
    rw [length_inorder, length_inorder] at hle
    exact hle.trans (Nat.le_succ _)
  | get | size | height | getKeys => exact Nat.le_succ _

namespace InMemory

open Heap
open scoped Pointwise

/-! ## The client -/

def placeString : Option CString → HeapM Block Ptr
  | none => pure none
  | some s => malloc (.string s)

def placeBytes : Option (List UInt8) → HeapM Block Ptr
  | none => pure none
  | some bytes => malloc (.bytes bytes)

def placeData : Option DataT → HeapM Block Ptr
  | none => pure none
  | some d => do
    let bytes ← placeBytes d.data
    malloc (.data ⟨d.datasize, bytes⟩)

/-- An answer as it is returned. -/
inductive Answer
  | int (n : ℤ)
  | data (p : Ptr)
  | keys (p : Ptr)

/-- One call, with its arguments placed before it and freed after it. -/
def call (fuel : ℕ) (tree : Ptr) : TreeCall → HeapM Block Answer
  | .put key value => do
    let k ← placeString key
    let v ← placeData value
    let n ← treePut fuel tree k v
    free k
    dataDestroy v
    pure (.int n)
  | .del key => do
    let k ← placeString key
    let n ← treeDel fuel tree k
    free k
    pure (.int n)
  | .get key => do
    let k ← placeString key
    let d ← treeGet fuel tree k
    free k
    pure (.data d)
  | .size => do
    let n ← treeSize tree
    pure (.int n)
  | .height => do
    let n ← treeHeight tree
    pure (.int n)
  | .getKeys => do
    let keys ← treeGetKeys fuel tree
    pure (.keys keys)

def readBytes (p : Ptr) : HeapM Block (Option (List UInt8)) :=
  if p = none then pure none
  else do
    let bytes ← load Block.asBytes p
    pure (some bytes)

def readData (p : Ptr) : HeapM Block (Option (ℤ × Option (List UInt8))) :=
  if p = none then pure none
  else do
    let d ← load Block.asData p
    let bytes ← readBytes d.data
    pure (some (d.datasize, bytes))

/-- The strings from a cell on, up to the NULL that closes the array. -/
def readKeysLoop (keys : Ptr) : ℕ → ℕ → HeapM Block (List (Option CString))
  | 0, _ => failure
  | fuel + 1, i => do
    let key ← load (Block.readCell i) keys
    if key = none then pure [none]
    else do
      let s ← load Block.asString key
      let rest ← readKeysLoop keys fuel (i + 1)
      pure (some s :: rest)

def readKeys (fuel : ℕ) (p : Ptr) : HeapM Block (Option (List (Option CString))) :=
  if p = none then pure none
  else do
    let keys ← readKeysLoop p fuel 0
    pure (some keys)

/-- Read an answer and free it. -/
def Answer.take (fuel : ℕ) : Answer → HeapM Block TreeAnswer
  | int n => pure (.int n)
  | data p => do
    let d ← readData p
    dataDestroy p
    pure (.data d)
  | keys p => do
    let keys ← readKeys fuel p
    treeFreeKeys fuel p
    pure (.keys keys)

def session (fuel : ℕ) (calls : List TreeCall) : HeapM Block (List TreeAnswer) := do
  let tree ← treeCreate
  let answers ← calls.mapM (call fuel tree)
  treeDestroy fuel tree
  answers.mapM (Answer.take fuel)

/-! ## The blocks of the arguments -/

theorem placeString_spec (s : Option CString) :
    Triple 0 (placeString s) fun p => stringAt s p := by
  cases s with
  | none => exact Triple.pure (fact_of rfl).ge
  | some s => exact Triple.malloc _

theorem placeBytes_spec (bytes : Option (List UInt8)) :
    Triple 0 (placeBytes bytes) fun p => bytesAt bytes p := by
  cases bytes with
  | none => exact Triple.pure (fact_of rfl).ge
  | some bytes => exact Triple.malloc _

theorem placeData_spec (d : Option DataT) : Triple 0 (placeData d) fun p => dataAt d p := by
  cases d with
  | none => exact Triple.pure (fact_of rfl).ge
  | some d =>
    refine (placeBytes_spec d.data).bind fun q => ?_
    refine (Triple.malloc _).last (bytesAt d.data q) (zero_add _).symm fun p => ?_
    exact Set.subset_iUnion (fun q => cell p (.data ⟨d.datasize, q⟩) + bytesAt d.data q) q

/-! ## The blocks of an answer -/

/-- The keys that an array holds are strings, up to the NULL that closes it. -/
def Closed (fuel : ℕ) (keys : Option (List (Option CString))) : Prop :=
  ∀ ks ∈ keys, ∃ strings : List CString, ks = strings.map some ++ [none] ∧ strings.length < fuel

/-- What is behind an answer. -/
def answerAt (fuel : ℕ) : TreeAnswer → Answer → Assertion Block
  | .int n, .int m => fact (m = n)
  | .data fields, .data p =>
    ⋃ d : Option DataT, fact (fields = d.map DataT.fields) + dataAt d p
  | .keys keys, .keys p => fact (Closed fuel keys) + keysAt keys p
  | _, _ => ∅

theorem closed_treeGetKeys {tree : TreeT} (h : tree.Reachable) {fuel : ℕ}
    (hfuel : tree.root.numNodes < fuel) : Closed fuel (ReplicatedTree.treeGetKeys tree) := by
  intro ks hks
  rw [treeGetKeys_of_shape h.shape h.key_ne_null] at hks
  obtain ⟨strings, hstrings⟩ := exists_keys h.key_ne_null
  refine ⟨strings, by rw [← Option.some.inj hks, hstrings], ?_⟩
  rwa [← List.length_map some, ← hstrings, List.length_map, length_inorder]

/-- A call on a tree answers as the call of `Tree`, and leaves its tree. -/
theorem call_spec {tree : TreeT} (h : tree.Reachable) {fuel : ℕ}
    (hfuel : tree.root.numNodes < fuel) (p : Ptr) (c : TreeCall) :
    Triple (treeAt tree p) (call fuel p c) fun r =>
      answerAt fuel (c.exec tree).2 r + treeAt (c.exec tree).1 p := by
  cases c with
  | put key value =>
    refine (placeString_spec key).seq (treeAt tree p) (zero_add _).symm fun k => ?_
    refine (placeData_spec value).seq (stringAt key k + treeAt tree p) (zero_add _).symm
      fun v => ?_
    refine (treePut_spec tree hfuel key value p k v).seq 0 (by rw [add_zero]; ac_rfl) fun n => ?_
    rw [add_zero]
    refine Triple.fact.2 ?_
    rintro rfl
    refine (free_stringAt key k).seq (treeAt (ReplicatedTree.treePut tree key value).1 p
      + dataAt value v) (by ac_rfl) fun _ => ?_
    refine (dataDestroy_spec value v).seq (treeAt (ReplicatedTree.treePut tree key value).1 p)
      (by rw [zero_add]; ac_rfl) fun _ => Triple.pure ?_
    exact Set.add_subset_add_right (fact_of rfl).ge
  | del key =>
    refine (placeString_spec key).seq (treeAt tree p) (zero_add _).symm fun k => ?_
    refine (treeDel_spec tree hfuel key p k).seq 0 (by rw [add_zero]; ac_rfl) fun n => ?_
    rw [add_zero]
    refine Triple.fact.2 ?_
    rintro rfl
    refine (free_stringAt key k).seq (treeAt (ReplicatedTree.treeDel tree key).1 p) (by ac_rfl)
      fun _ => Triple.pure ?_
    exact Set.add_subset_add_right (fact_of rfl).ge
  | get key =>
    refine (placeString_spec key).seq (treeAt tree p) (zero_add _).symm fun k => ?_
    refine (treeGet_spec tree hfuel key p k).seq 0 (by rw [add_zero]; ac_rfl) fun d => ?_
    refine (free_stringAt key k).seq (dataAt (ReplicatedTree.treeGet tree key) d + treeAt tree p)
      (by rw [add_zero]; ac_rfl) fun _ => Triple.pure ?_
    rw [zero_add]
    refine Set.add_subset_add_right
      (Set.subset_iUnion_of_subset (ReplicatedTree.treeGet tree key) ?_)
    rw [fact_of rfl, zero_add]
  | size =>
    refine (treeSize_spec tree p).bind fun n => Triple.fact.2 ?_
    rintro rfl
    refine Triple.pure ?_
    rw [TreeCall.exec, answerAt, fact_of rfl, zero_add]
  | height =>
    refine (treeHeight_spec tree p).bind fun n => Triple.fact.2 ?_
    rintro rfl
    refine Triple.pure ?_
    rw [TreeCall.exec, answerAt, fact_of rfl, zero_add]
  | getKeys =>
    refine (treeGetKeys_spec h.shape h.key_ne_null hfuel p).bind fun keys => Triple.pure ?_
    rw [TreeCall.exec, answerAt, fact_of (closed_treeGetKeys h hfuel), zero_add]

/-! ## Reading the answers -/

theorem readBytes_spec (bytes : Option (List UInt8)) (p : Ptr) :
    Triple (bytesAt bytes p) (readBytes p) fun r => fact (r = bytes) + bytesAt bytes p := by
  refine Triple.of_eq (add_zero _).symm (of_bytesAt fun hp => ?_)
  unfold readBytes
  cases bytes with
  | none =>
    rw [if_pos (hp.2 rfl)]
    refine Triple.pure ?_
    rw [fact_of rfl, zero_add, add_zero]
  | some bytes =>
    rw [if_neg (by rw [hp]; simp)]
    refine Triple.load rfl _ rfl (Triple.pure ?_)
    rw [fact_of rfl, zero_add, add_zero]

theorem readData_spec (d : Option DataT) (p : Ptr) :
    Triple (dataAt d p) (readData p) fun r => fact (r = d.map DataT.fields) + dataAt d p := by
  unfold readData
  cases d with
  | none =>
    refine Triple.of_fact fun hp => ?_
    rw [if_pos hp]
    refine Triple.pure ?_
    rw [Option.map_none, fact_of rfl, zero_add]
    exact (fact_of hp).ge
  | some d =>
    refine Triple.iUnion.2 fun q => Triple.of_cell ?_
    rintro a rfl
    rw [if_neg (by simp)]
    refine Triple.load rfl _ rfl ?_
    refine (readBytes_spec d.data q).read (cell (some a) (.data ⟨d.datasize, q⟩)) (add_comm _ _) ?_
    refine Triple.pure ?_
    rw [Option.map_some, DataT.fields, fact_of rfl, zero_add]
    exact Set.subset_iUnion (fun q => cell (some a) (.data ⟨d.datasize, q⟩) + bytesAt d.data q) q

theorem readKeysLoop_spec (keys : List CString) {fuel : ℕ} (h : keys.length < fuel) (array : Ptr)
    (read ptrs : List Ptr) :
    Triple (each stringAt (keys.map some ++ [none]) ptrs
      + cell array (.pointers (Cells.filled (read ++ ptrs) 0)))
      (readKeysLoop array fuel read.length) fun r => fact (r = keys.map some ++ [none])
        + (each stringAt (keys.map some ++ [none]) ptrs
        + cell array (.pointers (Cells.filled (read ++ ptrs) 0))) := by
  induction keys generalizing read ptrs fuel with
  | nil =>
    obtain ⟨fuel, rfl⟩ := Nat.exists_eq_add_one.2 h
    refine Triple.of_each_cons fun q ps hptrs => ?_
    subst hptrs
    rw [readKeysLoop]
    refine Triple.load (readCell_filled read ps q) (stringAt none q + each stringAt [] ps)
      (by ac_rfl) ?_
    refine Triple.fact.2 fun hq => ?_
    rw [if_pos hq]
    refine Triple.pure ?_
    rw [List.map_nil, List.nil_append, fact_of rfl, zero_add, each, stringAt_none,
      fact_of hq, zero_add]
  | cons key keys ih =>
    obtain ⟨fuel, rfl⟩ := Nat.exists_eq_add_one.2 (Nat.zero_lt_of_lt h)
    rw [List.map_cons, List.cons_append]
    refine Triple.of_each_cons fun q ps hptrs => Triple.of_cell ?_
    rintro a rfl
    subst hptrs
    rw [readKeysLoop]
    refine Triple.load (readCell_filled read ps (some a)) (stringAt (some key) (some a)
      + each stringAt (keys.map some ++ [none]) ps) (by rw [stringAt_some]; ac_rfl) ?_
    rw [if_neg (by simp)]
    refine Triple.load rfl _ rfl ?_
    have hnext := ih (Nat.lt_of_succ_lt_succ h) (read ++ [some a]) ps
    rw [List.append_assoc, List.length_append, List.singleton_append] at hnext
    refine hnext.read (cell (some a) (.string key)) (by ac_rfl) (Triple.pure ?_)
    rw [fact_of rfl, zero_add, each, stringAt_some]
    exact (add_assoc _ _ _).ge

theorem readKeys_spec (keys : Option (List (Option CString))) {fuel : ℕ} (h : Closed fuel keys)
    (p : Ptr) : Triple (keysAt keys p) (readKeys fuel p) fun r =>
      fact (r = keys) + keysAt keys p := by
  unfold readKeys
  cases keys with
  | none =>
    refine Triple.of_fact fun hp => ?_
    rw [if_pos hp]
    refine Triple.pure ?_
    rw [fact_of rfl, zero_add]
    exact (fact_of hp).ge
  | some ks =>
    obtain ⟨strings, rfl, hfuel⟩ := h ks rfl
    refine Triple.iUnion.2 fun ptrs => Triple.of_cell ?_
    rintro a rfl
    rw [if_neg (by simp)]
    refine (readKeysLoop_spec strings hfuel (some a) [] ptrs).read 0 ?_ (Triple.pure ?_)
    · rw [add_zero, add_comm]
      rfl
    · rw [fact_of rfl, zero_add]
      exact Set.subset_iUnion (fun ptrs : List Ptr => cell (some a) (Block.pointers
        (Cells.filled ptrs 0)) + each stringAt (strings.map some ++ [none]) ptrs) ptrs

/-- An answer is read as the call of `Tree` gave it, and nothing of it is left. -/
theorem take_spec {fuel : ℕ} (answer : TreeAnswer) (r : Answer) :
    Triple (answerAt fuel answer r) (r.take fuel) fun x => fact (x = answer) := by
  cases answer with
  | int n =>
    cases r with
    | int m =>
      refine Triple.of_fact fun hm => ?_
      rw [hm]
      exact Triple.pure (fact_of rfl).ge
    | data | keys => exact Triple.of_empty
  | data fields =>
    cases r with
    | data p =>
      refine Triple.iUnion.2 fun d => Triple.fact.2 ?_
      rintro rfl
      refine (readData_spec d p).read 0 (add_zero _).symm ?_
      refine (dataDestroy_spec d p).bind fun _ => Triple.pure ?_
      exact (fact_of rfl).ge
    | int | keys => exact Triple.of_empty
  | keys keys =>
    cases r with
    | keys p =>
      refine Triple.fact.2 fun hclosed => ?_
      refine (readKeys_spec keys hclosed p).read 0 (add_zero _).symm ?_
      refine (treeFreeKeys_spec keys hclosed p).bind fun _ => Triple.pure ?_
      exact (fact_of rfl).ge
    | int | data => exact Triple.of_empty

/-! ## The whole session -/

/-- What is behind the answers to a sequence of calls. -/
def answersAt (fuel : ℕ) : List TreeAnswer → List Answer → Assertion Block
  | [], [] => 0
  | answer :: answers, r :: rs => answerAt fuel answer r + answersAt fuel answers rs
  | _, _ => ∅

/-- The calls leave a tree, and the blocks of their answers, which are their own. -/
theorem calls_spec (calls : List TreeCall) {tree : TreeT} (h : tree.Reachable) {fuel : ℕ}
    (hfuel : tree.root.numNodes + calls.length < fuel) (p : Ptr) :
    Triple (treeAt tree p) (calls.mapM (call fuel p)) fun rs =>
      answersAt fuel (treeAnswers tree calls) rs
        + ⋃ tree' : TreeT, fact (tree'.root.numNodes < fuel) + treeAt tree' p := by
  induction calls generalizing tree with
  | nil =>
    rw [List.mapM_nil]
    refine Triple.pure ?_
    rw [treeAnswers, answersAt, zero_add]
    refine Set.subset_iUnion_of_subset tree ?_
    rw [fact_of (by simpa using hfuel), zero_add]
  | cons c calls ih =>
    rw [List.length_cons] at hfuel
    have hnum := h.numNodes_exec c
    rw [List.mapM_cons]
    refine (call_spec h (by omega) p c).bind fun r => ?_
    refine (ih (h.exec c) (by omega)).seq (answerAt fuel (c.exec tree).2 r) (add_comm _ _)
      fun rs => Triple.pure ?_
    rw [treeAnswers, answersAt]
    exact Eq.le (by ac_rfl)

theorem takes_spec {fuel : ℕ} (answers : List TreeAnswer) (rs : List Answer) :
    Triple (answersAt fuel answers rs) (rs.mapM (Answer.take fuel)) fun xs =>
      fact (xs = answers) := by
  induction answers generalizing rs with
  | nil =>
    cases rs with
    | nil => exact Triple.pure (fact_of rfl).ge
    | cons r rs => exact Triple.of_empty
  | cons answer answers ih =>
    cases rs with
    | nil => exact Triple.of_empty
    | cons r rs =>
      rw [List.mapM_cons]
      refine (take_spec answer r).seq (answersAt fuel answers rs) rfl fun x => Triple.fact.2 ?_
      rintro rfl
      refine (ih rs).bind fun xs => ?_
      refine Triple.of_fact ?_
      rintro rfl
      exact Triple.pure (fact_of rfl).ge

/-- **No session leaves a block, or sees a block of another.** Any calls on a new tree, with any
arguments, answer as the calls of `Tree`, also when their arguments are freed as they return and
their answers are only read when the tree is destroyed. No block is read or freed that is not
allocated, and in the end none is. Sizes and heights are taken to stay below 2^31. -/
theorem session_answers (calls : List TreeCall) {fuel : ℕ} (h : calls.length < fuel) : ∃ m,
    session fuel calls Heap.empty = some (treeAnswers ReplicatedTree.treeCreate calls, m)
      ∧ ∀ a, m.blocks a = none := by
  have hfuel : ReplicatedTree.treeCreate.root.numNodes + calls.length < fuel :=
    (Nat.zero_add _).trans_lt h
  apply Triple.run_empty
  refine treeCreate_spec.bind fun tree => ?_
  refine (calls_spec calls .create hfuel tree).bind fun answers => ?_
  rw [Set.add_iUnion]
  refine Triple.iUnion.2 fun tree' => ?_
  rw [add_left_comm]
  refine Triple.fact.2 fun htree => ?_
  refine (treeDestroy_spec tree' htree tree).seq _ (add_comm _ _) fun _ => ?_
  rw [zero_add]
  exact takes_spec _ answers

theorem session_answers_one : ∃ m,
    session 5 [.put entryK.key entryK.value, .get entryK.key, .del entryK.key, .getKeys] Heap.empty
      = some ([.int 0, .data (some (1, some [118])), .int 0, .keys (some [none])], m)
      ∧ ∀ a, m.blocks a = none := by
  have hanswers : treeAnswers ReplicatedTree.treeCreate
      [.put entryK.key entryK.value, .get entryK.key, .del entryK.key, .getKeys]
      = [.int 0, .data (some (1, some [118])), .int 0, .keys (some [none])] := by decide
  rw [← hanswers]
  exact session_answers _ (by decide)

end InMemory
end ReplicatedTree
