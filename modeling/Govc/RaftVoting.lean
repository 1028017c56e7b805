import Govc.Ballots
import Govc.GuardedRuns
import Govc.RaftNode

/-!
# Votes of a Raft node

Whatever requests and ticks a node handles, its term and vote change as those of
a voter do.  So the term never decreases, and each term has at most one candidate
with the node's vote.
-/

namespace Govc

open Go RaftState

inductive RaftInput where
  | requestVote (now : ℤ) (req : RequestVoteRequest)
  | appendEntries (now : ℤ) (req : AppendEntriesRequest)
  | snapshot (now : ℤ) (req : SnapshotRequest)
  | tick (now : ℤ) (cluster : Option (List GoString))

def Node.electionDue (now : ℤ) (n : Node) : Bool :=
  match n.state with
  | .follower | .candidate => n.timedOut now
  | _ => false

structure RaftRun where
  node : Node
  granted : List (UInt64 × GoString)

namespace RaftRun

def handle (run : RaftRun) : RaftInput → RaftRun
  | .requestVote now req =>
    let (response, node) := run.node.handleRequestVote now req
    ⟨node, if response.voteGranted then
      (response.term, req.candidateID) :: run.granted else run.granted⟩
  | .appendEntries now req =>
    ⟨(run.node.handleAppendEntries now req).2, run.granted⟩
  | .snapshot now req => ⟨(run.node.handleSnapshot now req).2, run.granted⟩
  | .tick now cluster =>
    let node := run.node.tick now cluster
    ⟨node, if run.node.electionDue now then
      (node.raftState.currentTerm, node.id) :: run.granted else run.granted⟩

/-- Candidates have names, and an election does not start in the last term. -/
def Admissible (run : RaftRun) : RaftInput → Prop
  | .requestVote _ req => req.candidateID ≠ []
  | .tick _ _ => run.node.raftState.currentTerm.toNat < 2 ^ 64 - 1
  | _ => True

end RaftRun

def raftSystem : Runs.System RaftRun RaftInput where
  init run := ∃ config hostname now loaded, run = ⟨Node.new config hostname now loaded, []⟩
  step run input after := after = run.handle input

/-! ## The node is a voter -/

def RaftState.voter (raft : RaftState) (granted : List (UInt64 × GoString)) :
    Ballots.Voter ℕ GoString where
  term := raft.currentTerm.toNat
  vote := if raft.votedFor = [] then none else some raft.votedFor
  granted := granted.map fun vote => (vote.1.toNat, vote.2)

theorem RaftState.voter_eq {first second : RaftState}
    (hterm : first.currentTerm = second.currentTerm)
    (hvote : first.votedFor = second.votedFor)
    {granted : List (UInt64 × GoString)} :
    first.voter granted = second.voter granted := by
  unfold RaftState.voter
  rw [hterm, hvote]

theorem RaftState.adoptTerm_moves (raft : RaftState) (term : UInt64)
    (granted : List (UInt64 × GoString)) :
    Ballots.Moves (raft.voter granted) ((raft.adoptTerm term).voter granted) := by
  unfold adoptTerm
  split_ifs with hlater
  · exact .single (.adopt (UInt64.lt_iff_toNat_lt.mp hlater))
  · exact .refl

theorem RaftState.cast_moves {raft after : RaftState} {candidate : GoString}
    (hfree : raft.votedFor = [] ∨ raft.votedFor = candidate)
    (hnamed : candidate ≠ []) (hterm : after.currentTerm = raft.currentTerm)
    (hvote : after.votedFor = candidate) (granted : List (UInt64 × GoString)) :
    Ballots.Moves (raft.voter granted)
      (after.voter ((raft.currentTerm, candidate) :: granted)) := by
  have hcast : Ballots.Move (raft.voter granted)
      ⟨raft.currentTerm.toNat, some candidate,
        (raft.currentTerm.toNat, candidate) :: (raft.voter granted).granted⟩ := by
    apply Ballots.Move.cast
    intro earlier hearlier
    unfold RaftState.voter at hearlier
    by_cases hempty : raft.votedFor = []
    · simp [hempty] at hearlier
    · simp only [if_neg hempty, Option.mem_def, Option.some.injEq] at hearlier
      rw [← hearlier]
      exact hfree.resolve_left hempty
  have hafter : after.voter ((raft.currentTerm, candidate) :: granted) =
      ⟨raft.currentTerm.toNat, some candidate,
        (raft.currentTerm.toNat, candidate) :: (raft.voter granted).granted⟩ := by
    unfold RaftState.voter
    rw [hterm, hvote, if_neg hnamed]
    rfl
  rw [hafter]
  exact .single hcast

namespace Node

variable (now : ℤ)

/-- What a vote request does: nothing in an old term; otherwise the term is
adopted, and the vote is then granted or not. -/
theorem handleRequestVote_cases {req : RequestVoteRequest} {n : Node} :
    n.handleRequestVote now req = (⟨n.raftState.currentTerm, false⟩, n) ∨
      ∃ adopted : Node, adopted.id = n.id ∧ adopted.raftState = n.raftState.adoptTerm req.term ∧
        (n.handleRequestVote now req = (⟨adopted.raftState.currentTerm, false⟩, adopted) ∨
          (adopted.raftState.votedFor = [] ∨ adopted.raftState.votedFor = req.candidateID) ∧
            n.handleRequestVote now req =
              (⟨adopted.raftState.currentTerm, true⟩,
                { adopted with
                  raftState := { adopted.raftState with
                    votedFor := req.candidateID, lastHeartbeat := now } })) := by
  unfold handleRequestVote
  split
  · exact .inl rfl
  · right
    refine ⟨if req.term > n.raftState.currentTerm then
        { n with
          raftState := n.raftState.adoptTerm req.term
          state := .follower
          isLeader := false }
      else n, ?_, ?_, ?_⟩
    · split_ifs <;> rfl
    · split_ifs with hlater
      · rfl
      · rw [adoptTerm, if_neg hlater]
    · generalize (if req.term > n.raftState.currentTerm then
        { n with
          raftState := n.raftState.adoptTerm req.term
          state := .follower
          isLeader := false }
      else n) = adopted
      dsimp only
      split_ifs with hgrant
      · exact .inr ⟨hgrant.1, rfl⟩
      · exact .inl rfl

theorem applyFrom_votes (n : Node) :
    (n.applyFrom turns).id = n.id ∧
      (n.applyFrom turns).raftState.currentTerm = n.raftState.currentTerm ∧
      (n.applyFrom turns).raftState.votedFor = n.raftState.votedFor := by
  induction turns generalizing n with
  | zero => exact ⟨rfl, rfl, rfl⟩
  | succ turns ih => exact ih _

theorem advanceCommit_votes {raft : RaftState} :
    (raft.advanceCommit req).currentTerm = raft.currentTerm ∧
      (raft.advanceCommit req).votedFor = raft.votedFor := by
  unfold advanceCommit
  split_ifs
  · exact ⟨rfl, rfl⟩
  · exact ⟨rfl, rfl⟩

theorem handleAppendEntries_votes {req : AppendEntriesRequest} (n : Node) :
    (n.handleAppendEntries now req).2.id = n.id ∧
      ∃ raft : RaftState, (raft = n.raftState ∨ raft = n.raftState.adoptTerm req.term) ∧
        (n.handleAppendEntries now req).2.raftState.currentTerm = raft.currentTerm ∧
        (n.handleAppendEntries now req).2.raftState.votedFor = raft.votedFor := by
  unfold handleAppendEntries
  split
  · exact ⟨rfl, n.raftState, .inl rfl, rfl, rfl⟩
  · dsimp only
    split_ifs
    · obtain ⟨hid, hterm, hvote⟩ := applyFrom_votes _
      refine ⟨hid, _, .inr rfl, ?_, ?_⟩
      · exact hterm.trans advanceCommit_votes.1
      · exact hvote.trans advanceCommit_votes.2
    · exact ⟨rfl, _, .inr rfl, rfl, rfl⟩

theorem handleSnapshot_votes {req : SnapshotRequest} (n : Node) :
    (n.handleSnapshot now req).2.id = n.id ∧
      ∃ raft : RaftState, (raft = n.raftState ∨ raft = n.raftState.adoptTerm req.term) ∧
        (n.handleSnapshot now req).2.raftState.currentTerm = raft.currentTerm ∧
        (n.handleSnapshot now req).2.raftState.votedFor = raft.votedFor := by
  unfold handleSnapshot
  split
  · exact ⟨rfl, n.raftState, .inl rfl, rfl, rfl⟩
  · split
    · split_ifs
      · exact ⟨rfl, _, .inr rfl, rfl, rfl⟩
      · exact ⟨rfl, _, .inr rfl, rfl, rfl⟩
    · split_ifs
      · exact ⟨rfl, n.raftState, .inl rfl, rfl, rfl⟩
      · exact ⟨rfl, n.raftState, .inl rfl, rfl, rfl⟩

variable (cluster : Option (List GoString))

theorem startElection_votes (n : Node) :
    (n.startElection now cluster).id = n.id ∧
      (n.startElection now cluster).raftState.currentTerm = n.raftState.currentTerm + 1 ∧
      (n.startElection now cluster).raftState.votedFor = n.id := by
  unfold startElection
  cases cluster with
  | none => exact ⟨rfl, rfl, rfl⟩
  | some nodes =>
    dsimp only
    split_ifs
    · exact ⟨rfl, rfl, rfl⟩
    · exact ⟨rfl, rfl, rfl⟩

theorem tick_of_waiting {n : Node} (hwaiting : n.state = .follower ∨ n.state = .candidate) :
    n.electionDue now = n.timedOut now ∧
      n.tick now cluster = if n.timedOut now then n.startElection now cluster else n := by
  rcases hwaiting with hstate | hstate
  · rw [electionDue, tick, hstate]
    exact ⟨rfl, rfl⟩
  · rw [electionDue, tick, hstate]
    exact ⟨rfl, rfl⟩

theorem tick_of_not_waiting {n : Node} (hwaiting : ¬ (n.state = .follower ∨ n.state = .candidate)) :
    n.electionDue now = false ∧ (n.tick now cluster).id = n.id ∧
      (n.tick now cluster).raftState.currentTerm = n.raftState.currentTerm ∧
      (n.tick now cluster).raftState.votedFor = n.raftState.votedFor := by
  rw [electionDue, tick]
  cases hstate : n.state with
  | follower => exact absurd (.inl hstate) hwaiting
  | candidate => exact absurd (.inr hstate) hwaiting
  | leader =>
    dsimp only
    split_ifs
    · exact ⟨rfl, rfl, rfl, rfl⟩
    · exact ⟨rfl, rfl, rfl, rfl⟩
  | _ => exact ⟨rfl, rfl, rfl, rfl⟩

theorem tick_votes (n : Node) :
    (n.electionDue now = true ∧ n.tick now cluster = n.startElection now cluster) ∨
      n.electionDue now = false ∧ (n.tick now cluster).id = n.id ∧
        (n.tick now cluster).raftState.currentTerm = n.raftState.currentTerm ∧
        (n.tick now cluster).raftState.votedFor = n.raftState.votedFor := by
  by_cases hwaiting : n.state = .follower ∨ n.state = .candidate
  · obtain ⟨hdue, htick⟩ := tick_of_waiting now cluster hwaiting
    cases htimeout : n.timedOut now with
    | true =>
      rw [htimeout, if_pos rfl] at htick
      exact .inl ⟨hdue.trans htimeout, htick⟩
    | false =>
      rw [htimeout, if_neg Bool.false_ne_true] at htick
      rw [htick]
      exact .inr ⟨hdue.trans htimeout, rfl, rfl, rfl⟩
  · exact .inr (tick_of_not_waiting now cluster hwaiting)

theorem new_id_ne_nil (config : NodeConfig) (hostname : GoString) (now : ℤ)
    (loaded : Option RaftState) :
    (Node.new config hostname now loaded).id ≠ [] := by
  unfold Node.new generateNodeID
  dsimp only
  split_ifs with hempty
  · simp [formatInt_ne_nil]
  · exact hempty

end Node

namespace RaftRun

def voter (run : RaftRun) : Ballots.Voter ℕ GoString := run.node.raftState.voter run.granted

variable {run : RaftRun} {now : ℤ}

theorem handle_of_response {req : RequestVoteRequest} {response : RequestVoteResponse} {node : Node}
    (hresponse : run.node.handleRequestVote now req = (response, node)) :
    run.handle (.requestVote now req) =
      ⟨node, if response.voteGranted then
        (response.term, req.candidateID) :: run.granted else run.granted⟩ := by
  simp only [handle, hresponse]

theorem handle_requestVote {req : RequestVoteRequest} (hnamed : req.candidateID ≠ []) :
    (run.handle (.requestVote now req)).node.id = run.node.id ∧
      Ballots.Moves run.voter (run.handle (.requestVote now req)).voter := by
  rcases Node.handleRequestVote_cases now with
    hold | ⟨adopted, hid, hraft, hcases⟩
  · rw [handle_of_response hold]
    exact ⟨rfl, .refl⟩
  · have hadopt := run.node.raftState.adoptTerm_moves req.term run.granted
    rw [← hraft] at hadopt
    rcases hcases with hrefused | ⟨hfree, hgranted⟩
    · rw [handle_of_response hrefused]
      exact ⟨hid, hadopt⟩
    · rw [handle_of_response hgranted]
      have hcast := @cast_moves adopted.raftState
        { adopted.raftState with
          votedFor := req.candidateID, lastHeartbeat := now }
        req.candidateID hfree hnamed rfl rfl run.granted
      exact ⟨hid, hadopt.trans hcast⟩

theorem moves_of_votes {node : Node} {term : UInt64}
    (hvotes : ∃ raft : RaftState, (raft = run.node.raftState ∨
        raft = run.node.raftState.adoptTerm term) ∧
      node.raftState.currentTerm = raft.currentTerm ∧
      node.raftState.votedFor = raft.votedFor) :
    Ballots.Moves run.voter (⟨node, run.granted⟩ : RaftRun).voter := by
  obtain ⟨raft, hraft, hterm, hvote⟩ := hvotes
  unfold voter
  rw [voter_eq hterm hvote]
  rcases hraft with rfl | rfl
  · exact .refl
  · exact run.node.raftState.adoptTerm_moves term run.granted

theorem handle_tick {cluster : Option (List GoString)} (hid : run.node.id ≠ [])
    (hterm : run.node.raftState.currentTerm.toNat < 2 ^ 64 - 1) :
    (run.handle (.tick now cluster)).node.id = run.node.id ∧
      Ballots.Moves run.voter (run.handle (.tick now cluster)).voter := by
  unfold handle
  rcases run.node.tick_votes now cluster with
    ⟨hdue, htick⟩ | ⟨hquiet, hsame, hcurrent, hvote⟩
  · obtain ⟨hkept, hnext, hown⟩ := run.node.startElection_votes now cluster
    have hsucc : (run.node.raftState.currentTerm + 1).toNat =
        run.node.raftState.currentTerm.toNat + 1 := by
      rw [UInt64.toNat_add, UInt64.toNat_one]
      exact Nat.mod_eq_of_lt (by omega)
    -- an election moves to the next term and votes there
    have hlater := run.node.raftState.adoptTerm_moves
      (run.node.raftState.currentTerm + 1) run.granted
    have hadopted : run.node.raftState.adoptTerm
        (run.node.raftState.currentTerm + 1) =
          { run.node.raftState with
            currentTerm := run.node.raftState.currentTerm + 1
            votedFor := [] } := by
      rw [adoptTerm, if_pos]
      rw [gt_iff_lt, UInt64.lt_iff_toNat_lt, hsucc]
      exact Nat.lt_succ_self _
    rw [hadopted] at hlater
    simp only [hdue, if_true, htick, hkept]
    refine ⟨trivial, hlater.trans ?_⟩
    rw [hnext]
    exact cast_moves (.inl rfl) hid hnext hown run.granted
  · simp only [hquiet, Bool.false_eq_true, if_false]
    refine ⟨hsame, ?_⟩
    unfold voter
    rw [voter_eq hcurrent hvote]
    exact .refl

theorem handle_moves (hid : run.node.id ≠ []) (hadmissible : run.Admissible input) :
    (run.handle input).node.id = run.node.id ∧
      Ballots.Moves run.voter (run.handle input).voter := by
  cases input with
  | requestVote now req => exact handle_requestVote hadmissible
  | appendEntries now req =>
    obtain ⟨hkept, hvotes⟩ := run.node.handleAppendEntries_votes now
    exact ⟨hkept, moves_of_votes hvotes⟩
  | snapshot now req =>
    obtain ⟨hkept, hvotes⟩ := run.node.handleSnapshot_votes now
    exact ⟨hkept, moves_of_votes hvotes⟩
  | tick now cluster => exact handle_tick hid hadmissible

theorem moves_of_steps (hsteps : Runs.Steps raftSystem RaftRun.Admissible run later)
    (hid : run.node.id ≠ []) :
    later.node.id ≠ [] ∧ Ballots.Moves run.voter later.voter := by
  induction hsteps with
  | refl => exact ⟨hid, .refl⟩
  | tail _ hadmissible hstep ih =>
    cases hstep
    obtain ⟨hkept, hmoves⟩ := handle_moves ih.1 hadmissible
    rw [hkept]
    exact ⟨ih.1, ih.2.trans hmoves⟩

end RaftRun

/-- Over any requests and ticks that one node handles, its term never
decreases, and it votes for at most one candidate in each term. -/
theorem vote_safety (run : RaftRun) (hreach : Runs.Reachable raftSystem RaftRun.Admissible run) :
    (∀ later, Runs.Steps raftSystem RaftRun.Admissible run later →
        run.node.raftState.currentTerm ≤ later.node.raftState.currentTerm) ∧
      ∀ term first second, (term, first) ∈ run.granted →
        (term, second) ∈ run.granted → first = second := by
  obtain ⟨start, ⟨config, hostname, now, loaded, rfl⟩, hrun⟩ := hreach
  obtain ⟨hid, hmoves⟩ := RaftRun.moves_of_steps hrun
    (Node.new_id_ne_nil config hostname now loaded)
  have hsafe := hmoves.safe (Ballots.safe_of_granted_nil rfl)
  constructor
  · intro later hlater
    exact UInt64.le_iff_toNat_le.mpr (RaftRun.moves_of_steps hlater hid).2.term_le
  · intro term first second hfirst hsecond
    exact hsafe.2 term.toNat first second (List.mem_map_of_mem hfirst) (List.mem_map_of_mem hsecond)

/-- Two candidates ask in one term, and then the node times out in a cluster
of three. -/
def RaftRun.contested : RaftRun :=
  (((⟨Node.new ⟨str "a", 0, 0⟩ [] 0 none, []⟩ : RaftRun).handle
    (.requestVote 0 ⟨1, str "b", 0, 0⟩)).handle
      (.requestVote 0 ⟨1, str "c", 0, 0⟩)).handle
        (.tick (1000 * millisecond) (some [str "a", str "b", str "c"]))

theorem vote_safety_contested :
    Runs.Reachable raftSystem RaftRun.Admissible RaftRun.contested ∧
      RaftRun.contested.granted = [(2, str "a"), (1, str "b")] ∧
      ∀ term first second, (term, first) ∈ RaftRun.contested.granted →
        (term, second) ∈ RaftRun.contested.granted → first = second := by
  have hreach : Runs.Reachable raftSystem RaftRun.Admissible RaftRun.contested := by
    refine ⟨⟨Node.new ⟨str "a", 0, 0⟩ [] 0 none, []⟩, ⟨_, _, _, _, rfl⟩,
      .tail (.tail (.tail .refl ?_ rfl) ?_ rfl) ?_ rfl⟩
    · change str "b" ≠ []
      decide
    · change str "c" ≠ []
      decide
    · change UInt64.toNat _ < 2 ^ 64 - 1
      decide +kernel
  exact ⟨hreach, by decide +kernel, (vote_safety _ hreach).2⟩

/-! ## Elections in a cluster -/

namespace RaftRun

/-- The nodes that granted the candidate their vote in the term. -/
def voters [Fintype ι] (runs : ι → RaftRun) (term : UInt64) (candidate : GoString) : Finset ι :=
  {i | (term, candidate) ∈ (runs i).granted}

theorem oncePerTerm (hreach : Runs.Reachable raftSystem Admissible run) :
    run.voter.OncePerTerm := by
  obtain ⟨start, ⟨config, hostname, now, loaded, rfl⟩, hrun⟩ := hreach
  have hmoves := (moves_of_steps hrun (Node.new_id_ne_nil config hostname now loaded)).2
  exact (hmoves.safe (Ballots.safe_of_granted_nil rfl)).2

/-- Whatever each node of a cluster has handled, no two candidates have the votes of
more than half of the nodes in one term. -/
theorem elections_agree {ι : Type} [Fintype ι] {runs : ι → RaftRun}
    (hreach : ∀ i, Runs.Reachable raftSystem Admissible (runs i))
    {term : UInt64} {first second : GoString}
    (hfirst : Fintype.card ι < 2 * (voters runs term first).card)
    (hsecond : Fintype.card ι < 2 * (voters runs term second).card) :
    first = second := by
  classical
  have hshared : (voters runs term first ∩ voters runs term second).Nonempty := by
    apply Finset.inter_nonempty_of_card_lt_card_add_card (Finset.subset_univ _)
      (Finset.subset_univ _)
    rw [Finset.card_univ]
    omega
  obtain ⟨i, hi⟩ := hshared
  simp only [voters, Finset.mem_inter, Finset.mem_filter_univ] at hi
  exact oncePerTerm (hreach i) term.toNat first second (List.mem_map_of_mem hi.1)
    (List.mem_map_of_mem hi.2)

def asked : RaftRun := (⟨Node.new ⟨str "a", 0, 0⟩ [] 0 none, []⟩ : RaftRun).handle
  (.requestVote 0 ⟨1, str "b", 0, 0⟩)

theorem elections_agree_asked :
    3 < 2 * (voters (fun _ : Fin 3 => asked) 1 (str "b")).card ∧ str "b" = str "b" := by
  have hreach : Runs.Reachable raftSystem Admissible asked := by
    refine ⟨_, ⟨_, _, _, _, rfl⟩, .tail .refl ?_ rfl⟩
    change str "b" ≠ []
    decide
  have hcard : Fintype.card (Fin 3) < 2 * (voters (fun _ : Fin 3 => asked) 1 (str "b")).card := by decide +kernel
  exact ⟨hcard, elections_agree (fun _ => hreach) hcard hcard⟩

end RaftRun

end Govc
