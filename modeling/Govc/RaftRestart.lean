import Govc.RaftVoting

/-!
# Votes of a Raft node across restarts

A node never saves its state before it answers, and it writes below the directory
`data` but reads below the configured one.  What it has answered survives a crash
only if the file that the new node reads has the term and the vote of the old.
-/

namespace Govc

open Go

/-- The files of a host: the state file of a node below a data directory, and
what a state is read back as after it was written. -/
structure Storage where
  locate : GoString → GoString → GoString
  reread : RaftState → RaftState

abbrev Disk := GoMap GoString (Option RaftState)

/-- A write can fail before or after the file has been truncated. -/
inductive SaveResult where
  | saved
  | unchanged
  | torn
  deriving DecidableEq

def Node.saveState (storage : Storage) (result : SaveResult) (n : Node) (disk : Disk) : Disk :=
  match result with
  | .saved =>
    disk.insert (storage.locate (str "data") n.id) (some (storage.reread n.raftState))
  | .unchanged => disk
  | .torn => disk.insert (storage.locate (str "data") n.id) none

/-- No file leaves the state of a new node; a file that cannot be decoded is
an error. -/
def loadState (storage : Storage) (dataDir id : GoString) (disk : Disk) :
    Option (Option RaftState) :=
  match disk.lookup (storage.locate dataDir id) with
  | none => some none
  | some none => none
  | some (some raft) => some (some raft)

structure CrashRun where
  run : RaftRun
  answered : List UInt64
  disk : Disk

inductive CrashInput where
  | handle (input : RaftInput)
  | maintain (result : SaveResult)
  | stop (result : SaveResult)
  | restart (hostname : GoString) (now : ℤ)

def RaftRun.answer (run : RaftRun) : RaftInput → Option UInt64
  | .requestVote now req => some (run.node.handleRequestVote now req).1.term
  | .appendEntries now req =>
    some (run.node.handleAppendEntries now req).1.term
  | .snapshot now req => some (run.node.handleSnapshot now req).1.term
  | .tick _ _ => none

namespace CrashRun

variable (storage : Storage) (config : NodeConfig) (dataDir : GoString)

def handle (state : CrashRun) (input : RaftInput) : CrashRun where
  run := state.run.handle input
  answered := (state.run.answer input).toList ++ state.answered
  disk := state.disk

def maintain (result : SaveResult) (state : CrashRun) : CrashRun where
  run := { state.run with node := state.run.node.performMaintenance }
  answered := state.answered
  disk := state.run.node.performMaintenance.saveState storage result state.disk

def stop (result : SaveResult) (state : CrashRun) : CrashRun where
  run := { state.run with node := { state.run.node with state := .leaving } }
  answered := state.answered
  disk := state.run.node.saveState storage result state.disk

/-- What `NewNode` loads on a host at a time. -/
def loadable (hostname : GoString) (now : ℤ) (disk : Disk) : Option (Option RaftState) :=
  loadState storage dataDir (Node.new config hostname now none).id disk

def restart (hostname : GoString) (now : ℤ) (state : CrashRun) : Option CrashRun :=
  (loadable storage config dataDir hostname now state.disk).map fun loaded =>
    { state with
      run := { state.run with node := Node.new config hostname now loaded } }

/-- A restart finds the term and the vote of the node; the other steps are
admissible inputs. -/
def Preserved (state : CrashRun) : CrashInput → Prop
  | .handle input => state.run.Admissible input
  | .maintain _ => True
  | .stop _ => True
  | .restart hostname now =>
    match loadable storage config dataDir hostname now state.disk with
    | some (some raft) =>
      raft.currentTerm = state.run.node.raftState.currentTerm ∧
        raft.votedFor = state.run.node.raftState.votedFor
    | some none =>
      state.run.node.raftState.currentTerm = 0 ∧ state.run.node.raftState.votedFor = []
    | none => True

end CrashRun

def crashSystem (storage : Storage) (config : NodeConfig)
    (dataDir : GoString) : Runs.System CrashRun CrashInput where
  init state := ∃ hostname now loaded,
    CrashRun.loadable storage config dataDir hostname now state.disk = some loaded ∧
      state.run = ⟨Node.new config hostname now loaded, []⟩ ∧
      state.answered = []
  step state input after :=
    match input with
    | .handle input => after = state.handle input
    | .maintain result => after = state.maintain storage result
    | .stop result => after = state.stop storage result
    | .restart hostname now =>
      state.restart storage config dataDir hostname now = some after

/-! ## Answers -/

namespace RaftRun

theorem answer_eq {run : RaftRun}
    (hanswer : run.answer input = some term) :
    (run.handle input).node.raftState.currentTerm = term := by
  cases input with
  | requestVote now req =>
    rw [answer, Option.some.injEq] at hanswer
    rcases Node.handleRequestVote_cases now with
      hold | ⟨adopted, -, -, hrefused | ⟨-, hgranted⟩⟩
    · rw [handle_of_response hold, ← hanswer, hold]
    · rw [handle_of_response hrefused, ← hanswer, hrefused]
    · rw [handle_of_response hgranted, ← hanswer, hgranted]
  | appendEntries now req =>
    rw [answer, Option.some.injEq] at hanswer
    rw [← hanswer, handle]
    unfold Node.handleAppendEntries
    split
    · rfl
    · dsimp only
      split_ifs
      · exact (Node.applyFrom_votes _).2.1
      · rfl
  | snapshot now req =>
    rw [answer, Option.some.injEq] at hanswer
    rw [← hanswer, handle]
    unfold Node.handleSnapshot
    split
    · rfl
    · rfl
  | tick now cluster => cases hanswer

end RaftRun

/-! ## Votes over a run -/

/-- Every answered term has been reached, and no term has two votes. -/
structure CrashRun.Safe (state : CrashRun) : Prop where
  named : state.run.node.id ≠ []
  backed : state.run.voter.Backed
  once : state.run.voter.OncePerTerm
  reached : ∀ term ∈ state.answered, term ≤ state.run.node.raftState.currentTerm

namespace CrashRun

variable {storage : Storage} {config : NodeConfig} {dataDir : GoString}
variable {state after : CrashRun}

theorem Safe.of_votes (hsafe : state.Safe) (hnamed : after.run.node.id ≠ [])
    (hterm : after.run.node.raftState.currentTerm = state.run.node.raftState.currentTerm)
    (hvote : after.run.node.raftState.votedFor = state.run.node.raftState.votedFor)
    (hgranted : after.run.granted = state.run.granted)
    (hanswered : after.answered = state.answered) : after.Safe := by
  have hvoter : after.run.voter = state.run.voter := by
    unfold RaftRun.voter
    rw [hgranted]
    exact RaftState.voter_eq hterm hvote
  refine ⟨hnamed, ?_, ?_, ?_⟩
  · rw [hvoter]
    exact hsafe.backed
  · rw [hvoter]
    exact hsafe.once
  · rw [hanswered, hterm]
    exact hsafe.reached

theorem Safe.handle (hsafe : state.Safe)
    (hadmissible : state.run.Admissible input) : (state.handle input).Safe := by
  obtain ⟨hkept, hmoves⟩ := RaftRun.handle_moves hsafe.named hadmissible
  obtain ⟨hbacked, honce⟩ := hmoves.safe ⟨hsafe.backed, hsafe.once⟩
  have hgrown : state.run.node.raftState.currentTerm ≤
      (state.run.handle input).node.raftState.currentTerm :=
    UInt64.le_iff_toNat_le.mpr hmoves.term_le
  refine ⟨?_, hbacked, honce, ?_⟩
  · rw [CrashRun.handle, hkept]
    exact hsafe.named
  · intro term hmem
    rcases List.mem_append.mp hmem with hnew | hmem
    · have hanswer := RaftRun.answer_eq (Option.mem_toList.mp hnew)
      exact UInt64.le_of_eq hanswer.symm
    · exact UInt64.le_trans (hsafe.reached term hmem) hgrown

theorem performMaintenance_votes {n : Node} :
    n.performMaintenance.id = n.id ∧
      n.performMaintenance.raftState.currentTerm = n.raftState.currentTerm ∧
      n.performMaintenance.raftState.votedFor = n.raftState.votedFor := by
  unfold Node.performMaintenance Node.compactLog
  split_ifs
  · exact ⟨rfl, rfl, rfl⟩
  · exact ⟨rfl, rfl, rfl⟩
  · exact ⟨rfl, rfl, rfl⟩

theorem Safe.maintain (hsafe : state.Safe) : (state.maintain storage result).Safe := by
  obtain ⟨hid, hterm, hvote⟩ := performMaintenance_votes
  refine hsafe.of_votes ?_ hterm hvote rfl rfl
  rw [CrashRun.maintain]
  rw [hid]
  exact hsafe.named

theorem Safe.restart (hsafe : state.Safe)
    (hpreserved : state.Preserved storage config dataDir (.restart hostname now))
    (hrestart : state.restart storage config dataDir hostname now = some after) : after.Safe := by
  unfold CrashRun.restart at hrestart
  unfold Preserved at hpreserved
  cases hload : loadable storage config dataDir hostname now state.disk with
  | none => simp [hload] at hrestart
  | some loaded =>
    simp only [hload, Option.map_some, Option.some.injEq] at hrestart
    rw [← hrestart]
    have hnamed := Node.new_id_ne_nil config hostname now loaded
    cases loaded with
    | none =>
      simp only [hload] at hpreserved
      exact hsafe.of_votes hnamed hpreserved.1.symm hpreserved.2.symm rfl rfl
    | some raft =>
      simp only [hload] at hpreserved
      exact hsafe.of_votes hnamed hpreserved.1 hpreserved.2 rfl rfl

theorem safe_of_reachable
    (hreach : Runs.Reachable (crashSystem storage config dataDir)
      (CrashRun.Preserved storage config dataDir) state) : state.Safe := by
  apply hreach.invariant
  · rintro start ⟨hostname, now, loaded, -, hrun, hanswered⟩
    have hnone := @Ballots.safe_of_granted_nil ℕ GoString _ start.run.voter (by rw [hrun]; rfl)
    refine ⟨?_, hnone.1, hnone.2, ?_⟩
    · rw [hrun]
      exact Node.new_id_ne_nil config hostname now loaded
    · rw [hanswered]
      intro term hmem
      cases hmem
  · intro before input later hsafe hpreserved hstep
    cases input with
    | handle input =>
      rw [show later = before.handle input from hstep]
      exact hsafe.handle hpreserved
    | maintain result =>
      rw [show later = before.maintain storage result from hstep]
      exact hsafe.maintain
    | stop result =>
      rw [show later = before.stop storage result from hstep]
      exact hsafe.of_votes hsafe.named rfl rfl rfl rfl
    | restart hostname now => exact hsafe.restart hpreserved hstep

end CrashRun

/-- Over any requests, ticks, saves, stops and restarts whose restarts find
the term and the vote of the node: it is in a term at least as late as every
one it has answered with, and it votes for at most one candidate in each. -/
theorem vote_safety_across_restarts (storage : Storage) (config : NodeConfig)
    (dataDir : GoString) (state : CrashRun)
    (hreach : Runs.Reachable (crashSystem storage config dataDir)
      (CrashRun.Preserved storage config dataDir) state) :
    (∀ term ∈ state.answered, term ≤ state.run.node.raftState.currentTerm) ∧
      ∀ term first second, (term, first) ∈ state.run.granted →
        (term, second) ∈ state.run.granted → first = second := by
  have hsafe := CrashRun.safe_of_reachable hreach
  refine ⟨hsafe.reached, ?_⟩
  intro term first second hfirst hsecond
  exact hsafe.once term.toNat first second
    (List.mem_map_of_mem hfirst) (List.mem_map_of_mem hsecond)

/-- Paths are joined with a slash, and a state is read back as it was. -/
def Storage.plain : Storage where
  locate dataDir id := dataDir ++ str "/node-" ++ id
  reread := id

def nodeA : NodeConfig := ⟨str "a", 0, 0⟩

namespace CrashRun

def fresh : CrashRun := ⟨⟨Node.new nodeA [] 0 none, []⟩, [], ∅⟩

def voted : CrashRun := fresh.handle (.requestVote 0 ⟨1, str "b", 0, 0⟩)

def savedAfterVote : CrashRun := voted.maintain .plain .saved

def askedAgain (dataDir : GoString) (state : CrashRun) : CrashRun :=
  ((state.restart .plain nodeA dataDir [] 1).getD state).handle (.requestVote 1 ⟨1, str "c", 0, 0⟩)

theorem voted_steps (guard : CrashRun → CrashInput → Prop)
    (hguard : ∀ state now req, req.candidateID ≠ [] →
      guard state (.handle (.requestVote now req))) :
    (crashSystem .plain nodeA dataDir).init fresh ∧
      Runs.Steps (crashSystem .plain nodeA dataDir) guard fresh voted := by
  refine ⟨⟨[], 0, none, rfl, rfl, rfl⟩, .tail .refl (hguard fresh 0 _ ?_) rfl⟩
  decide

end CrashRun

theorem vote_safety_across_restarts_saved :
    (CrashRun.savedAfterVote.askedAgain (str "data")).run.granted = [(1, str "b")] ∧
      ∀ term first second,
        (term, first) ∈ (CrashRun.savedAfterVote.askedAgain (str "data")).run.granted →
          (term, second) ∈ (CrashRun.savedAfterVote.askedAgain (str "data")).run.granted →
          first = second := by
  refine ⟨by decide +kernel, ?_⟩
  obtain ⟨hinit, hvoted⟩ := CrashRun.voted_steps
    (CrashRun.Preserved .plain nodeA (str "data")) (fun _ _ _ hnamed => hnamed)
  have hsaved : Runs.Steps _ _ CrashRun.fresh CrashRun.savedAfterVote :=
    hvoted.next (.maintain .saved) trivial rfl
  refine (vote_safety_across_restarts .plain nodeA (str "data") _ ⟨CrashRun.fresh, hinit, ?_⟩).2
  refine (hsaved.next (.restart [] 1) ?_ rfl).next
    (.handle (.requestVote 1 ⟨1, str "c", 0, 0⟩)) ?_ rfl
  · exact ⟨by decide +kernel, by decide +kernel⟩
  · change str "c" ≠ []
    decide

/-- A crash right after the answer loses the vote.  With another data
directory even a saved vote is lost. -/
theorem restart_votes_twice :
    (Runs.Reachable (crashSystem .plain nodeA (str "data")) (fun _ _ => True)
        (CrashRun.voted.askedAgain (str "data")) ∧
      (CrashRun.voted.askedAgain (str "data")).run.granted = [(1, str "c"), (1, str "b")]) ∧
      Runs.Reachable (crashSystem .plain nodeA (str "/srv")) (fun _ _ => True)
          (CrashRun.savedAfterVote.askedAgain (str "/srv")) ∧
        (CrashRun.savedAfterVote.askedAgain (str "/srv")).run.granted =
          [(1, str "c"), (1, str "b")] := by
  refine ⟨⟨?_, by decide +kernel⟩, ?_, by decide +kernel⟩
  · obtain ⟨hinit, hvoted⟩ := CrashRun.voted_steps
      (fun _ _ => True) (fun _ _ _ _ => trivial)
    exact ⟨CrashRun.fresh, hinit, (hvoted.next (.restart [] 1) trivial rfl).next
      (.handle (.requestVote 1 ⟨1, str "c", 0, 0⟩)) trivial rfl⟩
  · obtain ⟨hinit, hvoted⟩ := CrashRun.voted_steps
      (fun _ _ => True) (fun _ _ _ _ => trivial)
    have hsaved : Runs.Steps _ _ CrashRun.fresh CrashRun.savedAfterVote :=
      hvoted.next (.maintain .saved) trivial rfl
    exact ⟨CrashRun.fresh, hinit, (hsaved.next (.restart [] 1) trivial rfl).next
      (.handle (.requestVote 1 ⟨1, str "c", 0, 0⟩)) trivial rfl⟩

end Govc
