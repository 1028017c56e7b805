import Govc.GuardedRuns
import Govc.RaftLog

/-!
# Compaction and log positions

`AppendEntries` finds entries by position, compaction and snapshots remove them
by index.  The two agree as long as the log is an initial part of the leader's;
removing some entries moves the rest to positions that are not theirs.
-/

namespace Govc

open Go

structure LeaderLog where
  entries : List LogEntry
  indexed : ∀ (i : ℕ) entry, entries[i]? = some entry → entry.index.toNat = i + 1
  length_lt : entries.length < 2 ^ 63

/-- The request carries a part of the leader's log and names the entry before
it. -/
structure AppendEntriesRequest.SentFrom (req : AppendEntriesRequest)
    (leader : LeaderLog) : Prop where
  prev_le : req.prevLogIndex.toNat ≤ leader.entries.length
  prevTerm : req.prevLogIndex = 0 ∨
    ∃ entry, leader.entries[(req.prevLogIndex - 1).toNat]? = some entry ∧
      entry.term = req.prevLogTerm
  slice : ∃ count, req.entries = (leader.entries.drop req.prevLogIndex.toNat).take count

def RaftState.comparedEntry (raft : RaftState) (req : AppendEntriesRequest) : Option LogEntry :=
  if req.prevLogIndex = 0 then none
  else raft.log[(req.prevLogIndex - 1).toNat]?

theorem RaftState.consistent_iff (raft : RaftState) (req : AppendEntriesRequest) :
    raft.consistent req = true ↔
      req.prevLogIndex = 0 ∨
        ∃ entry, raft.comparedEntry req = some entry ∧ entry.term = req.prevLogTerm := by
  unfold consistent comparedEntry
  by_cases hzero : req.prevLogIndex = 0
  · simp [hzero]
  · simp only [hzero, if_false, false_or]
    have hpos : 0 < req.prevLogIndex.toNat := by
      rw [Nat.pos_iff_ne_zero]
      intro hnone
      exact hzero (UInt64.toNat_inj.mp hnone)
    have hprev : (req.prevLogIndex - 1).toNat = req.prevLogIndex.toNat - 1 := by
      rw [UInt64.toNat_sub_of_le, UInt64.toNat_one]
      exact hpos
    by_cases hbeyond : raft.log.length < req.prevLogIndex.toNat
    · rw [if_pos hbeyond, List.getElem?_eq_none (by omega)]
      simp
    · have hin : (req.prevLogIndex - 1).toNat < raft.log.length := by omega
      rw [if_neg hbeyond, List.getElem?_eq_getElem hin]
      simp

/-- Positions and indices agree: the check compares the entry with the index
it asks for, and every entry is the leader's entry of that index. -/
structure Node.Indexed (leader : LeaderLog) (n : Node) : Prop where
  compared : ∀ req entry, n.raftState.comparedEntry req = some entry →
    entry.index = req.prevLogIndex
  retained : ∀ entry ∈ n.raftState.log, ∃ original,
    leader.entries[entry.index.toNat - 1]? = some original ∧
      original.index = entry.index ∧ original.term = entry.term

inductive LogInput where
  | compact
  | snapshot (now : ℤ) (req : SnapshotRequest)
  | append (now : ℤ) (req : AppendEntriesRequest)

/-- Nodes that follow one leader.  At the start the log is an initial part of
the leader's, so an empty one in a new node. -/
def followerSystem (leader : LeaderLog) : Runs.System Node LogInput where
  init n := ∃ count, n.raftState.log = leader.entries.take count
  step n input after :=
    match input with
    | .compact => after = n.compactLog
    | .snapshot now req => after = (n.handleSnapshot now req).2
    | .append now req =>
      req.SentFrom leader ∧ after = (n.handleAppendEntries now req).2

def Node.KeepsNumbering (n : Node) : LogInput → Prop
  | .compact =>
    n.raftState.lastApplied ≤ 100 ∨
      (∀ entry ∈ n.raftState.log, n.raftState.lastApplied - 100 ≤ entry.index) ∨
      ∀ entry ∈ n.raftState.log, entry.index < n.raftState.lastApplied - 100
  | .snapshot _ req =>
    req.term < n.raftState.currentTerm ∨ req.done = false ∨
      (∀ entry ∈ n.raftState.log, req.lastIncludedIndex < entry.index) ∨
      ∀ entry ∈ n.raftState.log, entry.index ≤ req.lastIncludedIndex
  | .append _ _ => True

/-! ## Initial parts of the leader's log -/

def Node.Follows (leader : LeaderLog) (n : Node) : Prop :=
  ∃ count, n.raftState.log = leader.entries.take count

namespace Node

variable {leader : LeaderLog} {n : Node}

theorem Follows.indexed (hfollows : n.Follows leader) : n.Indexed leader := by
  obtain ⟨count, hlog⟩ := hfollows
  have hplace : ∀ (i : ℕ) entry, n.raftState.log[i]? = some entry →
      leader.entries[i]? = some entry := by
    intro i entry hentry
    rw [hlog, List.getElem?_take] at hentry
    by_cases hlt : i < count
    · rw [if_pos hlt] at hentry
      exact hentry
    · simp [hlt] at hentry
  constructor
  · intro req entry hcompared
    unfold RaftState.comparedEntry at hcompared
    by_cases hzero : req.prevLogIndex = 0
    · simp [hzero] at hcompared
    · rw [if_neg hzero] at hcompared
      have hindex := leader.indexed _ entry (hplace _ entry hcompared)
      have hle : 1 ≤ req.prevLogIndex := by
        rw [UInt64.le_iff_toNat_le, UInt64.toNat_one, Nat.one_le_iff_ne_zero]
        intro hnone
        exact hzero (UInt64.toNat_inj.mp hnone)
      have hpos := UInt64.le_iff_toNat_le.mp hle
      rw [UInt64.toNat_sub_of_le _ _ hle, UInt64.toNat_one] at hindex
      rw [UInt64.toNat_one] at hpos
      apply UInt64.toNat_inj.mp
      omega
  · intro entry hmem
    obtain ⟨i, hentry⟩ := List.mem_iff_getElem?.mp hmem
    have horiginal := hplace i entry hentry
    have hindex := leader.indexed i entry horiginal
    refine ⟨entry, ?_, rfl, rfl⟩
    rw [hindex]
    exact horiginal

theorem Follows.of_log {after : Node} (hfollows : n.Follows leader)
    (hlog : after.raftState.log = n.raftState.log) : after.Follows leader := by
  obtain ⟨count, hcount⟩ := hfollows
  exact ⟨count, hlog.trans hcount⟩

theorem Follows.of_filter {after : Node}
    (hfollows : n.Follows leader)
    (hlog : after.raftState.log = n.raftState.log.filter keep)
    (hkeep : (∀ entry ∈ n.raftState.log, keep entry = true) ∨
      ∀ entry ∈ n.raftState.log, keep entry = false) :
    after.Follows leader := by
  rcases hkeep with hall | hnone
  · rw [List.filter_eq_self.mpr hall] at hlog
    exact hfollows.of_log hlog
  · refine ⟨0, ?_⟩
    rw [hlog, List.take_zero, List.filter_eq_nil_iff]
    intro entry hentry
    rw [hnone entry hentry]
    exact Bool.false_ne_true

theorem Follows.compactLog (hfollows : n.Follows leader)
    (hkeeps : n.KeepsNumbering .compact) : n.compactLog.Follows leader := by
  unfold Node.compactLog
  split_ifs with hold
  · refine hfollows.of_filter rfl ?_
    rcases hkeeps with hyoung | hall | hnone
    · exact absurd hold (UInt64.not_lt.mpr hyoung)
    · left
      intro entry hentry
      exact decide_eq_true (hall entry hentry)
    · right
      intro entry hentry
      exact decide_eq_false (UInt64.not_le.mpr (hnone entry hentry))
  · exact hfollows

theorem handleSnapshot_log (now : ℤ) (req : SnapshotRequest) (n : Node) :
    (n.handleSnapshot now req).2.raftState.log =
      if req.term < n.raftState.currentTerm then n.raftState.log
      else if req.done then
        n.raftState.log.filter fun entry =>
          decide (entry.index > req.lastIncludedIndex)
      else n.raftState.log := by
  have hadopt := n.raftState.adoptTerm_log req.term
  unfold handleSnapshot
  split
  · rfl
  · split
    · split_ifs
      · dsimp only
        rw [hadopt]
      · exact hadopt
    · split_ifs
      · rfl
      · rfl

theorem Follows.handleSnapshot (hfollows : n.Follows leader)
    (hkeeps : n.KeepsNumbering (.snapshot now req)) :
    (n.handleSnapshot now req).2.Follows leader := by
  have hlog := n.handleSnapshot_log now req
  by_cases hold : req.term < n.raftState.currentTerm
  · rw [if_pos hold] at hlog
    exact hfollows.of_log hlog
  · rw [if_neg hold] at hlog
    have hkeeps := hkeeps.resolve_left hold
    cases hdone : req.done with
    | false =>
      rw [hdone, if_neg Bool.false_ne_true] at hlog
      exact hfollows.of_log hlog
    | true =>
      rw [hdone, if_pos rfl] at hlog
      rw [hdone] at hkeeps
      refine hfollows.of_filter hlog ?_
      rcases hkeeps.resolve_left (nomatch ·) with hall | hnone
      · left
        intro entry hentry
        exact decide_eq_true (hall entry hentry)
      · right
        intro entry hentry
        exact decide_eq_false (UInt64.not_lt.mpr (hnone entry hentry))

theorem Follows.handleAppendEntries (hfollows : n.Follows leader) (hsent : req.SentFrom leader) :
    (n.handleAppendEntries now req).2.Follows leader := by
  rw [handleAppendEntries_eq]
  split
  · exact hfollows
  · cases hconsistent : n.raftState.consistent req with
    | false =>
      exact hfollows.of_log (n.raftState.adoptTerm_log req.term)
    | true =>
      rw [if_pos rfl]
      have hstart := RaftState.prevLogIndex_le_of_consistent hconsistent
      obtain ⟨known, hlog⟩ := hfollows
      obtain ⟨count, hslice⟩ := hsent.slice
      have hlength : req.entries.length ≤ leader.entries.length := by
        rw [hslice, List.length_take, List.length_drop]
        omega
      have hbound : req.prevLogIndex.toNat + req.entries.length < 2 ^ 64 := by
        have := leader.length_lt
        have := hsent.prev_le
        omega
      have hknown : req.prevLogIndex.toNat ≤ known := by
        rw [hlog, List.length_take] at hstart
        exact hstart.trans (min_le_left _ _)
      refine ⟨req.prevLogIndex.toNat + max (known - req.prevLogIndex.toNat) count, ?_⟩
      rw [applyCommittedEntries, applyFrom_log, taken_log hbound hconsistent,
        hlog, hslice, List.take_take, min_eq_left hknown, List.drop_take,
        Overlay.overlay_take_take, List.take_add]

end Node

/-! ## Runs -/

/-- In every run whose compactions and snapshots remove all entries or none,
positions and indices agree in every state. -/
theorem log_indexed (leader : LeaderLog) (n : Node)
    (hreach : Runs.Reachable (followerSystem leader) Node.KeepsNumbering n) :
    n.Indexed leader := by
  have hfollows : n.Follows leader := by
    apply hreach.invariant
    · intro start hstart
      exact hstart
    · intro before input after hbefore hkeeps hstep
      cases input with
      | compact =>
        rw [show after = before.compactLog from hstep]
        exact hbefore.compactLog hkeeps
      | snapshot now req =>
        rw [show after = (before.handleSnapshot now req).2 from hstep]
        exact hbefore.handleSnapshot hkeeps
      | append now req =>
        obtain ⟨hsent, hafter⟩ := hstep
        rw [hafter]
        exact hbefore.handleAppendEntries hsent
  exact hfollows.indexed

def LeaderLog.twoTerms : LeaderLog where
  entries := entriesFrom 1 [1, 1, 2]
  indexed := by
    intro i entry hentry
    match i with
    | 0 => cases hentry; rfl
    | 1 => cases hentry; rfl
    | 2 => cases hentry; rfl
    | i + 3 => cases hentry
  length_lt := by decide

def AppendEntriesRequest.all : AppendEntriesRequest where
  term := 2
  leaderID := str "b"
  prevLogIndex := 0
  prevLogTerm := 0
  entries := entriesFrom 1 [1, 1, 2]
  leaderCommit := 3

theorem AppendEntriesRequest.all_sentFrom : AppendEntriesRequest.all.SentFrom .twoTerms where
  prev_le := Nat.zero_le _
  prevTerm := .inl rfl
  slice := ⟨3, rfl⟩

def Node.caughtUp : Node := ((Node.new ⟨str "a", 0, 0⟩ [] 0 none).handleAppendEntries 0 .all).2

theorem Node.caughtUp_reachable (guard : Node → LogInput → Prop)
    (hguard : ∀ n now req, guard n (.append now req)) :
    Runs.Reachable (followerSystem .twoTerms) guard Node.caughtUp :=
  ⟨Node.new ⟨str "a", 0, 0⟩ [] 0 none, ⟨0, rfl⟩,
    .tail .refl (hguard _ 0 .all) ⟨AppendEntriesRequest.all_sentFrom, rfl⟩⟩

def SnapshotRequest.upTo (index term : UInt64) : SnapshotRequest where
  term := 2
  leaderID := str "b"
  lastIncludedIndex := index
  lastIncludedTerm := term
  offset := 0
  data := []
  done := true

/-- A snapshot of everything empties the log. -/
theorem log_indexed_of_whole_snapshot :
    (Node.caughtUp.handleSnapshot 0 (.upTo 3 2)).2.Indexed .twoTerms ∧
      (Node.caughtUp.handleSnapshot 0 (.upTo 3 2)).2.raftState.log = [] := by
  refine ⟨?_, by decide +kernel⟩
  obtain ⟨start, hinit, hrun⟩ := Node.caughtUp_reachable Node.KeepsNumbering fun _ _ _ => trivial
  have hkeeps : Node.caughtUp.KeepsNumbering (.snapshot 0 (.upTo 3 2)) :=
    .inr (.inr (.inr (by decide +kernel)))
  exact log_indexed _ _ ⟨start, hinit, hrun.next (.snapshot 0 (.upTo 3 2)) hkeeps rfl⟩

/-- After a snapshot of the first entry, the check looks for entry 2 at the
place of entry 3. -/
def Node.snapshotted : Node := (Node.caughtUp.handleSnapshot 0 (.upTo 1 1)).2

def AppendEntriesRequest.afterSecond : AppendEntriesRequest where
  term := 2
  leaderID := str "b"
  prevLogIndex := 2
  prevLogTerm := 1
  entries := entriesFrom 3 [2]
  leaderCommit := 3

theorem snapshot_shifts_positions :
    Runs.Reachable (followerSystem .twoTerms) (fun _ _ => True) Node.snapshotted ∧
      Node.snapshotted.raftState.log = entriesFrom 2 [1, 2] ∧
      AppendEntriesRequest.afterSecond.SentFrom .twoTerms ∧
      (Node.snapshotted.handleAppendEntries 0 .afterSecond).1.success = false ∧
      ¬ Node.snapshotted.Indexed .twoTerms := by
  refine ⟨?_, by decide +kernel, ?_, by decide +kernel, ?_⟩
  · obtain ⟨start, hinit, hrun⟩ := Node.caughtUp_reachable (fun _ _ => True) fun _ _ _ => trivial
    exact ⟨start, hinit, hrun.next (.snapshot 0 (.upTo 1 1)) trivial rfl⟩
  · exact ⟨by decide +kernel, .inr ⟨_, rfl, rfl⟩, ⟨1, rfl⟩⟩
  · intro hindexed
    have hcompared := hindexed.compared .afterSecond
      ⟨2, 3, ⟨str "commit", str "r"⟩⟩ (by decide +kernel)
    revert hcompared
    decide

end Govc
