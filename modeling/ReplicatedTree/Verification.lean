import ReplicatedTree.Numbering

/-!
# What a verification says

An id that a client was given is a place in the queue of the server that gave it, and a
verification that reports success is about a place in the queue of the server that was asked.
Where the queues are parts of one sequence (`Numbering`), it is the same write.
-/

namespace ReplicatedTree

open Transition

/-- When a client was given an id for a write, and was told that the write with this id is
executed, then the server that told it has executed that write. -/
def Cluster.VerifiesRight (s : Cluster) : Prop :=
  ∀ c, ∀ r ∈ (s.clients c).replies, ∀ v ∈ (s.clients c).replies, ∀ id : ℤ,
    r.request.IsWrite → r.response.content = .opId id → id ≠ -1 →
    v.request.handler = .verify id →
    v.response.content = .intResult TaskResult.successful.toInt →
    0 ≤ id ∧ (s.server v.server).executed[id.toNat]? = some r.request

/-! ## What the answers say about the queues -/

namespace ServerInv

variable {s : ServerState} {log : TaskLog} {ks : List ℕ}

/-- The id answered to a write is its place in the queue. -/
theorem writes_of_answer (h : ServerInv s log ks) {request response : Message} {id : ℤ}
    (hm : (request, response) ∈ s.answers) (hc : response.content = .opId id) (hne : id ≠ -1) :
    0 ≤ id ∧ s.writes[id.toNat]? = some request := by
  have hmem : (request, id) ∈ acceptedWrites (s.answers ++ s.request.openAnswer) := by
    refine List.mem_filterMap.2 ⟨(request, response), List.mem_append_left _ hm, ?_⟩
    simp only [hc, if_neg hne]
  rw [h.accepted] at hmem
  obtain ⟨⟨m, i⟩, hzip, heq⟩ := List.mem_map.1 hmem
  obtain ⟨rfl, rfl⟩ := Prod.mk.inj heq
  rw [List.mem_zipIdx_iff_getElem?] at hzip
  refine ⟨Int.natCast_nonneg i, ?_⟩
  rw [h.writes_eq, Int.toNat_natCast]
  exact hzip

/-- A verification that reports success is about a write with a result. -/
theorem recorded_of_verify (h : ServerInv s log ks) {request response : Message} {id : ℤ}
    (hm : (request, response) ∈ s.answers) (hid : request.handler = .verify id)
    (hc : response.content = .intResult TaskResult.successful.toInt) :
    0 ≤ id ∧ id < s.recorded := by
  obtain ⟨before, after, hsplit⟩ := List.append_of_mem hm
  have heach := h.answers.each
  rw [hsplit, List.append_assoc, List.cons_append] at heach
  have hrest := List.forall₂_drop_append _ _ _ heach
  obtain ⟨k, ks', hk, -, hks⟩ := List.forall₂_cons_right_iff.1 hrest
  have hmem : k ∈ ks := List.mem_of_mem_drop (hks ▸ List.mem_cons_self)
  have hle := h.answers.le k hmem
  obtain ⟨hpos, hlt⟩ := hk.verified id hid hc
  rw [h.recorded_eq]
  exact ⟨hpos, by omega⟩

end ServerInv

/-! ## The result -/

/-- Two queues that are parts of one sequence agree where both have a write. -/
theorem Numbering.writes_agree {s : Cluster} (h : Numbering s) {i j n : ℕ} {m : Message}
    (hi : (s.server i).writes[n]? = some m) (hj : n < (s.server j).writes.length) :
    (s.server j).writes[n]? = some m := by
  obtain ⟨hlt, hget⟩ := List.getElem?_eq_some_iff.1 hi
  rw [List.getElem?_eq_getElem hj, ← hget]
  rcases h.comparable i j with hij | hji
  · rw [hij.getElem hlt]
  · rw [hji.getElem hj]

theorem Numbering.verifiesRight {s : Cluster} (h : Numbering s) (hinv : ClusterInv s)
    (hreplies : RepliesInv s) : s.VerifiesRight := by
  intro c r hr v hv id _ hid hne hverify hres
  obtain ⟨log, ks, hserver⟩ := hinv.servers r.server
  obtain ⟨log', ks', hserver'⟩ := hinv.servers v.server
  obtain ⟨-, hwrite⟩ := hserver.writes_of_answer (hreplies.replies c r hr) hid hne
  obtain ⟨hpos, hlt⟩ := hserver'.recorded_of_verify (hreplies.replies c v hv) hverify hres
  have hle := hserver'.recorded_le
  refine ⟨hpos, ?_⟩
  unfold ServerState.executed
  rw [List.getElem?_take_of_lt (by omega)]
  exact h.writes_agree hwrite (by omega)

/-- **A verification is about the right write.** Whichever addresses the servers have, old ones
included: in every run whose steps keep the numbering, in every state reached, if a client was
given an id for a write, by whichever server, and a server told it that the write with this id
is executed, then this server has executed that very write. -/
theorem verify_is_about_write {address : ℕ → ℕ} {as : List ClusterAction} {s : Cluster}
    (h : run clusterStep (clusterInit address) as = some s)
    (hmeet : StepsMeet clusterStep KeepsNumbering (clusterInit address) as) :
    s.VerifiesRight := by
  have hall : ClusterInv s ∧ Traffic s ∧ RepliesInv s ∧ Numbering s := by
    refine run_invariant_of_meet
      (P := fun s => ClusterInv s ∧ Traffic s ∧ RepliesInv s ∧ Numbering s) ?_
      ⟨clusterInit_inv address, clusterInit_traffic address, clusterInit_replies address,
        clusterInit_numbering address⟩ hmeet h
    rintro s a s' hC ⟨hinv, htraffic, hreplies, hnumbering⟩ hstep
    have hcases := clusterStep_cases hstep
    exact ⟨hinv.step hcases, htraffic.step hinv hnumbering hC hstep, hreplies.step hcases,
      hnumbering.step hinv htraffic hC hstep⟩
  obtain ⟨hinv, -, hreplies, hnumbering⟩ := hall
  exact hnumbering.verifiesRight hinv hreplies

/-- Before the first write servers may start as they like. -/
theorem stepsMeet_startUp {s : Cluster} {as : List ClusterAction} (h : s.Unused)
    (has : ∀ a ∈ as, ∃ i, a = .member i .startUp ∨ a = .listen i) :
    StepsMeet clusterStep KeepsNumbering s as := by
  induction as generalizing s with
  | nil => trivial
  | cons a as ih =>
    obtain ⟨i, rfl | rfl⟩ := has a List.mem_cons_self
    · constructor
      · unfold KeepsNumbering
        dsimp only
        split
        · exact fun _ => h
        · intro _
          split
          · exact h.executed _
          · exact h
        · trivial
      · intro s' hs'
        apply ih
        · cases clusterStep_cases hs' with
          | member hx hl hm => exact h
        · exact fun b hb => has b (List.mem_cons_of_mem _ hb)
    · refine ⟨trivial, fun s' hs' => ih ?_ fun b hb => has b (List.mem_cons_of_mem _ hb)⟩
      cases clusterStep_cases hs' with
      | listen hx hpc hfree => exact h

theorem length_w : ∀ b ∈ some ([119] : List UInt8), b.length = (1 : ℤ).toNat := by simp

/-- A second put, with another value. -/
def otherPutRequest : Request :=
  ⟨⟨opPut, .entry (some ⟨some ⟨⟨[107], nul_notMem_k⟩⟩, some ⟨1, some [119], length_w⟩⟩)⟩,
    put_wf (by decide)⟩

/-- Client 0 asks server `i` about the first write. -/
def verifyFirst (i : ℕ) : List ClusterAction :=
  [.call 0 verifyRequest, .receiveCall 0 verifyRequest, .server i .handle, .answer i]

/-- Before the first write server 0 is gone, server 1 is promoted, and server 2 is started on
the port of server 0. A write goes through server 1 and its backup and is verified; then server
1 is gone, too. -/
def verifiedRun : List ClusterAction :=
  [.crash 0, .member 0 .endSession] ++ List.replicate 9 (.member 1 .childrenWatcher) ++
    startBackup 2 ++ connectClient 0 ++ queueWrite 0 putRequest 1 ++ executeNext 1 ++
    List.replicate 3 (.replicate 1 true) ++ recordNext 1 ++ queueFlight putRequest 2 ++
    executeNext 2 ++ [.replicate 2 true] ++ recordNext 2 ++ verifyFirst 2 ++
    [.crash 1, .member 1 .endSession]

theorem verify_is_about_write_two : ∃ s, run clusterStep (clusterInit fun i => i % 2)
      ((startPrimary 0 ++ startBackup 1) ++ verifiedRun) = some s ∧
    (s.clients 0).replies = [⟨1, putRequest.1, ⟨opPut + 1, .opId 0⟩⟩,
      ⟨2, verifyRequest.1, ⟨opVerify + 1, .intResult 1⟩⟩] ∧ s.VerifiesRight := by
  have hrun : ∃ s ∈ run clusterStep (clusterInit fun i => i % 2)
        ((startPrimary 0 ++ startBackup 1) ++ verifiedRun),
      (s.clients 0).replies = [⟨1, putRequest.1, ⟨opPut + 1, .opId 0⟩⟩,
        ⟨2, verifyRequest.1, ⟨opVerify + 1, .intResult 1⟩⟩] := by
    decide +kernel
  obtain ⟨s, hs, hreplies⟩ := hrun
  refine ⟨s, hs, hreplies, verify_is_about_write hs ?_⟩
  apply StepsMeet.append
  · apply stepsMeet_startUp
    · exact fun j => rfl
    · simp [startPrimary, startBackup, startServer]
  · classical
    decide +kernel

/-- Server 0 crashes with a write that it has answered and not executed. Server 1 is promoted,
server 2 becomes its backup, and a second write gets the id of the first one. -/
def renumberedRun : List ClusterAction :=
  startPrimary 0 ++ startBackup 1 ++ connectClient 0 ++ queueWrite 0 putRequest 0 ++
    [.crash 0, .member 0 .endSession] ++ List.replicate 9 (.member 1 .childrenWatcher) ++
    startBackup 2 ++ [.close 0] ++ connectClient 0 ++ queueWrite 0 otherPutRequest 1 ++
    executeNext 1 ++ List.replicate 3 (.replicate 1 true) ++ queueFlight otherPutRequest 2 ++
    executeNext 2 ++ [.replicate 2 true] ++ recordNext 2 ++ verifyFirst 2

/-- Server 0 is gone before the first write, and server 2 is started on its port, where it
becomes the backup of server 1. Client 0 has read the old addresses: its put goes to the new
backup and gets the id that the put of client 1 gets from the primary. -/
def restartedRun : List ClusterAction :=
  startPrimary 0 ++ startBackup 1 ++ [.getPrimary 0, .getBackup 0] ++
    [.crash 0, .member 0 .endSession] ++ List.replicate 9 (.member 1 .childrenWatcher) ++
    startBackup 2 ++ [.connectPrimary 0 3, .connectBackup 0 4] ++ connectClient 1 ++
    queueWrite 0 putRequest 2 ++ queueWrite 1 otherPutRequest 1 ++ executeNext 1 ++
    List.replicate 3 (.replicate 1 true) ++ recordNext 1 ++ verifyFirst 1

/-- Who was given id 0 for one write and is told that id 0 is executed, by a server that has
executed another write, was told something wrong. -/
theorem Cluster.VerifiesRight.not_of_replies {s : Cluster} {c i j : ℕ}
    (hput : ⟨i, putRequest.1, ⟨opPut + 1, .opId 0⟩⟩ ∈ (s.clients c).replies)
    (hverify : ⟨j, verifyRequest.1, ⟨opVerify + 1, .intResult 1⟩⟩ ∈ (s.clients c).replies)
    (hexecuted : (s.server j).executed = [otherPutRequest.1]) : ¬ s.VerifiesRight := by
  intro hright
  have hfirst := (hright c _ hput _ hverify 0 rfl rfl (by decide) rfl rfl).2
  rw [hexecuted] at hfirst
  have hsame : otherPutRequest.1 = putRequest.1 := Option.some.inj hfirst
  exact absurd hsame (by decide)

/-- Two runs in which a client is told that the write with the id of its own write is executed,
by a server that has executed another write with this id. In the first run the numbers start
again after a promotion; in the second one a new process has an old address. -/
theorem verify_is_about_another_write :
    (∃ s ∈ run clusterStep (clusterInit id) renumberedRun,
      (s.clients 0).replies = [⟨0, putRequest.1, ⟨opPut + 1, .opId 0⟩⟩,
        ⟨1, otherPutRequest.1, ⟨opPut + 1, .opId 0⟩⟩,
        ⟨2, verifyRequest.1, ⟨opVerify + 1, .intResult 1⟩⟩] ∧
      (s.server 2).executed = [otherPutRequest.1] ∧ ¬ s.VerifiesRight) ∧
    ∃ s ∈ run clusterStep (clusterInit fun i => i % 2) restartedRun,
      (s.clients 0).replies = [⟨2, putRequest.1, ⟨opPut + 1, .opId 0⟩⟩,
        ⟨1, verifyRequest.1, ⟨opVerify + 1, .intResult 1⟩⟩] ∧
      (s.server 1).executed = [otherPutRequest.1] ∧ ¬ s.VerifiesRight := by
  constructor
  · have hrun : ∃ s ∈ run clusterStep (clusterInit id) renumberedRun,
        (s.clients 0).replies = [⟨0, putRequest.1, ⟨opPut + 1, .opId 0⟩⟩,
          ⟨1, otherPutRequest.1, ⟨opPut + 1, .opId 0⟩⟩,
          ⟨2, verifyRequest.1, ⟨opVerify + 1, .intResult 1⟩⟩] ∧
        (s.server 2).executed = [otherPutRequest.1] := by
      decide +kernel
    obtain ⟨s, hs, hreplies, hexecuted⟩ := hrun
    refine ⟨s, hs, hreplies, hexecuted, ?_⟩
    exact Cluster.VerifiesRight.not_of_replies (c := 0) (i := 0) (j := 2) (by simp [hreplies])
      (by simp [hreplies]) hexecuted
  · have hrun : ∃ s ∈ run clusterStep (clusterInit fun i => i % 2) restartedRun,
        (s.clients 0).replies = [⟨2, putRequest.1, ⟨opPut + 1, .opId 0⟩⟩,
          ⟨1, verifyRequest.1, ⟨opVerify + 1, .intResult 1⟩⟩] ∧
        (s.server 1).executed = [otherPutRequest.1] := by
      decide +kernel
    obtain ⟨s, hs, hreplies, hexecuted⟩ := hrun
    refine ⟨s, hs, hreplies, hexecuted, ?_⟩
    exact Cluster.VerifiesRight.not_of_replies (c := 0) (i := 2) (j := 1) (by simp [hreplies])
      (by simp [hreplies]) hexecuted

end ReplicatedTree
