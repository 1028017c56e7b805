import Govc.RaftLog
import Govc.RaftVoting

/-!
# Commit progress of a Raft node

The commit index says how much of the log may be applied, and the apply loop
follows it one index at a time.  Both only grow as long as no request takes
the commit index back.  Two kinds of late requests do: entries that end in
front of the commit index, sent by a leader that has committed more, and a
snapshot of less than what is committed.
-/

namespace Govc

open Go RaftRun

namespace Node

def CommitSafe (n : Node) : RaftInput → Prop
  | .appendEntries _ req =>
    req.term < n.raftState.currentTerm ∨ n.raftState.consistent req = false ∨
      req.leaderCommit ≤ n.raftState.commitIndex ∨
      n.raftState.commitIndex ≤ req.prevLogIndex + UInt64.ofNat req.entries.length
  | .snapshot _ req =>
    req.term < n.raftState.currentTerm ∨ req.done = false ∨
      n.raftState.commitIndex ≤ req.lastIncludedIndex
  | .requestVote _ _ => True
  | .tick _ _ => True

/-- Commit index and apply index have grown, and every entry applied on the
way lies above the old apply index. -/
structure Advances (before after : Node) : Prop where
  commit : before.raftState.commitIndex ≤ after.raftState.commitIndex
  lastApplied : before.raftState.lastApplied ≤ after.raftState.lastApplied
  bounded : after.raftState.lastApplied ≤ after.raftState.commitIndex
  newly : ∃ entries, after.applied = before.applied ++ entries ∧
    (entries.map LogEntry.index).Pairwise (· < ·) ∧
    ∀ entry ∈ entries, before.raftState.lastApplied < entry.index ∧
      entry.index ≤ after.raftState.lastApplied

theorem Advances.of_same {before after : Node}
    (hcommit : after.raftState.commitIndex = before.raftState.commitIndex)
    (hlast : after.raftState.lastApplied = before.raftState.lastApplied)
    (happlied : after.applied = before.applied)
    (hbounded : before.raftState.lastApplied ≤ before.raftState.commitIndex) :
    before.Advances after where
  commit := UInt64.le_of_eq hcommit.symm
  lastApplied := UInt64.le_of_eq hlast.symm
  bounded := by
    rw [hlast, hcommit]
    exact hbounded
  newly := ⟨[], by rw [happlied, List.append_nil], .nil, by simp⟩

theorem Advances.trans {first second third : Node}
    (hfirst : first.Advances second) (hsecond : second.Advances third) :
    first.Advances third := by
  obtain ⟨earlier, hearlier, hearlierOrder, hearlierBounds⟩ := hfirst.newly
  obtain ⟨later, hlater, hlaterOrder, hlaterBounds⟩ := hsecond.newly
  refine ⟨UInt64.le_trans hfirst.commit hsecond.commit,
    UInt64.le_trans hfirst.lastApplied hsecond.lastApplied,
    hsecond.bounded, earlier ++ later, ?_, ?_, ?_⟩
  · rw [hlater, hearlier, List.append_assoc]
  · rw [List.map_append, List.pairwise_append]
    refine ⟨hearlierOrder, hlaterOrder, ?_⟩
    intro a ha b hb
    obtain ⟨x, hx, rfl⟩ := List.mem_map.mp ha
    obtain ⟨y, hy, rfl⟩ := List.mem_map.mp hb
    exact UInt64.lt_of_le_of_lt (hearlierBounds x hx).2 (hlaterBounds y hy).1
  · intro entry hentry
    rcases List.mem_append.mp hentry with hmem | hmem
    · obtain ⟨habove, hbelow⟩ := hearlierBounds entry hmem
      exact ⟨habove, UInt64.le_trans hbelow hsecond.lastApplied⟩
    · obtain ⟨habove, hbelow⟩ := hlaterBounds entry hmem
      exact ⟨UInt64.lt_of_le_of_lt hfirst.lastApplied habove, hbelow⟩

/-! ## The apply loop -/

theorem toNat_lastApplied_succ {n : Node}
    (hbehind : n.raftState.lastApplied < n.raftState.commitIndex) :
    (n.raftState.lastApplied + 1).toNat = n.raftState.lastApplied.toNat + 1 := by
  have hlt := UInt64.lt_iff_toNat_lt.mp hbehind
  rw [UInt64.toNat_add, UInt64.toNat_one]
  have := n.raftState.commitIndex.toNat_lt
  exact Nat.mod_eq_of_lt (by omega)

theorem advances_applyNext {n : Node}
    (hbehind : n.raftState.lastApplied < n.raftState.commitIndex) :
    n.Advances
      { n with
        raftState := { n.raftState with
          lastApplied := n.raftState.lastApplied + 1 }
        applied := n.applied ++
          (n.raftState.log.find? fun entry =>
            decide (entry.index = n.raftState.lastApplied + 1)).toList } := by
  have hsucc := toNat_lastApplied_succ hbehind
  have hnext : n.raftState.lastApplied < n.raftState.lastApplied + 1 := by
    rw [UInt64.lt_iff_toNat_lt, hsucc]
    exact Nat.lt_succ_self _
  refine ⟨UInt64.le_refl _, UInt64.le_of_lt hnext, ?_, _, rfl, ?_, ?_⟩
  · rw [UInt64.le_iff_toNat_le, hsucc]
    exact UInt64.lt_iff_toNat_lt.mp hbehind
  · cases n.raftState.log.find? fun entry =>
        decide (entry.index = n.raftState.lastApplied + 1) with
    | none => exact .nil
    | some entry => exact List.pairwise_singleton _ _
  · intro entry hentry
    have hindex : entry.index = n.raftState.lastApplied + 1 := by
      simpa using List.find?_some (Option.mem_toList.mp hentry)
    rw [hindex]
    exact ⟨hnext, UInt64.le_refl _⟩

theorem advances_applyFrom {n : Node}
    (hroom : n.raftState.lastApplied.toNat + turns ≤ n.raftState.commitIndex.toNat) :
    n.Advances (n.applyFrom turns) := by
  induction turns generalizing n with
  | zero =>
    exact .of_same rfl rfl rfl (UInt64.le_iff_toNat_le.mpr (by omega))
  | succ turns ih =>
    have hbehind : n.raftState.lastApplied < n.raftState.commitIndex :=
      UInt64.lt_iff_toNat_lt.mpr (by omega)
    have hsucc := toNat_lastApplied_succ hbehind
    refine (advances_applyNext hbehind).trans (ih ?_)
    dsimp only
    omega

/-! ## The handlers -/

theorem adoptTerm_progress {raft : RaftState} :
    (raft.adoptTerm term).commitIndex = raft.commitIndex ∧
      (raft.adoptTerm term).lastApplied = raft.lastApplied := by
  unfold RaftState.adoptTerm
  split_ifs
  · exact ⟨rfl, rfl⟩
  · exact ⟨rfl, rfl⟩

variable {n : Node} {now : ℤ}

variable (hbounded : n.raftState.lastApplied ≤ n.raftState.commitIndex)

include hbounded

theorem advances_applyCommittedEntries : n.Advances n.applyCommittedEntries := by
  have hle := UInt64.le_iff_toNat_le.mp hbounded
  exact advances_applyFrom (by omega)

theorem advances_heardFrom : n.Advances (n.heardFrom now req) := by
  obtain ⟨hcommit, hlast⟩ := adoptTerm_progress
  exact .of_same hcommit hlast rfl hbounded

theorem advances_taken {req : AppendEntriesRequest}
    (hsafe : req.leaderCommit ≤ n.raftState.commitIndex ∨
      n.raftState.commitIndex ≤ req.prevLogIndex + UInt64.ofNat req.entries.length) :
    n.Advances (n.taken now req) := by
  obtain ⟨hcommit, hlast⟩ := adoptTerm_progress
  unfold taken RaftState.advanceCommit
  have hsame : ((n.heardFrom now req).raftState.mergeEntries req).commitIndex =
      n.raftState.commitIndex := hcommit
  rw [hsame]
  split_ifs with hmore
  · have hend := hsafe.resolve_left (UInt64.not_le.mpr hmore)
    have hgrown : n.raftState.commitIndex ≤
        if req.leaderCommit <
            req.prevLogIndex + UInt64.ofNat req.entries.length then
          req.leaderCommit
        else req.prevLogIndex + UInt64.ofNat req.entries.length := by
      split_ifs
      · exact UInt64.le_of_lt hmore
      · exact hend
    refine ⟨hgrown, UInt64.le_of_eq hlast.symm, ?_, [], ?_, .nil, by simp⟩
    · refine UInt64.le_trans (UInt64.le_of_eq hlast) ?_
      exact UInt64.le_trans hbounded hgrown
    · exact (List.append_nil _).symm
  · exact .of_same hcommit hlast rfl hbounded

theorem advances_handleAppendEntries (hsafe : n.CommitSafe (.appendEntries now req)) :
    n.Advances (n.handleAppendEntries now req).2 := by
  rw [handleAppendEntries_eq]
  by_cases hold : req.term < n.raftState.currentTerm
  · rw [if_pos hold]
    exact .of_same rfl rfl rfl hbounded
  · rw [if_neg hold]
    have hsafe := hsafe.resolve_left hold
    cases hconsistent : n.raftState.consistent req with
    | false =>
      exact advances_heardFrom hbounded
    | true =>
      rw [hconsistent] at hsafe
      have htaken : n.Advances (n.taken now req) :=
        advances_taken hbounded (hsafe.resolve_left (nomatch ·))
      exact htaken.trans (advances_applyCommittedEntries htaken.bounded)

theorem advances_handleSnapshot (hsafe : n.CommitSafe (.snapshot now req)) :
    n.Advances (n.handleSnapshot now req).2 := by
  unfold handleSnapshot
  by_cases hold : req.term < n.raftState.currentTerm
  · rw [if_pos hold]
    exact .of_same rfl rfl rfl hbounded
  · rw [if_neg hold]
    have hsafe := hsafe.resolve_left hold
    -- the term is adopted before, which leaves the indices alone
    obtain ⟨hcommit, hlast⟩ := adoptTerm_progress
    generalize hadopted : (if req.term > n.raftState.currentTerm then
        { n with
          raftState := n.raftState.adoptTerm req.term
          state := .follower
          isLeader := false }
      else n) = adopted
    have hsame : adopted.raftState.commitIndex = n.raftState.commitIndex ∧
        adopted.raftState.lastApplied = n.raftState.lastApplied ∧
        adopted.applied = n.applied := by
      rw [← hadopted]
      split_ifs
      · exact ⟨hcommit, hlast, rfl⟩
      · exact ⟨rfl, rfl, rfl⟩
    cases hdone : req.done with
    | false =>
      exact .of_same hsame.1 hsame.2.1 hsame.2.2 hbounded
    | true =>
      rw [hdone] at hsafe
      have hgrown := hsafe.resolve_left (nomatch ·)
      refine ⟨hgrown, UInt64.le_trans hbounded hgrown, UInt64.le_refl _, [], ?_, .nil, by simp⟩
      exact hsame.2.2.trans (List.append_nil _).symm

theorem advances_handleRequestVote : n.Advances (n.handleRequestVote now req).2 := by
  obtain ⟨hcommit, hlast⟩ := adoptTerm_progress
  unfold handleRequestVote
  split
  · exact .of_same rfl rfl rfl hbounded
  · by_cases hlater : req.term > n.raftState.currentTerm
    · simp only [if_pos hlater]
      split_ifs
      · exact .of_same hcommit hlast rfl hbounded
      · exact .of_same hcommit hlast rfl hbounded
    · simp only [if_neg hlater]
      split_ifs
      · exact .of_same rfl rfl rfl hbounded
      · exact .of_same rfl rfl rfl hbounded

theorem advances_startElection : n.Advances (n.startElection now cluster) := by
  unfold startElection
  cases cluster with
  | none => exact .of_same rfl rfl rfl hbounded
  | some nodes =>
    dsimp only
    split_ifs
    · exact .of_same rfl rfl rfl hbounded
    · exact .of_same rfl rfl rfl hbounded

theorem advances_tick : n.Advances (n.tick now cluster) := by
  by_cases hwaiting : n.state = .follower ∨ n.state = .candidate
  · rw [(tick_of_waiting now cluster hwaiting).2]
    split_ifs
    · exact advances_startElection hbounded
    · exact .of_same rfl rfl rfl hbounded
  · unfold tick
    cases hstate : n.state with
    | follower => exact absurd (.inl hstate) hwaiting
    | candidate => exact absurd (.inr hstate) hwaiting
    | leader =>
      dsimp only
      split_ifs
      · exact .of_same rfl rfl rfl hbounded
      · exact .of_same rfl rfl rfl hbounded
    | _ => exact .of_same rfl rfl rfl hbounded

end Node

/-! ## Runs -/

theorem RaftRun.advances_handle {run : RaftRun}
    (hbounded : run.node.raftState.lastApplied ≤ run.node.raftState.commitIndex)
    (hsafe : run.node.CommitSafe input) :
    run.node.Advances (run.handle input).node := by
  cases input with
  | requestVote now req => exact Node.advances_handleRequestVote hbounded
  | appendEntries now req =>
    exact Node.advances_handleAppendEntries hbounded hsafe
  | snapshot now req => exact Node.advances_handleSnapshot hbounded hsafe
  | tick now cluster => exact Node.advances_tick hbounded

/-- Whatever a node handles, as long as nothing takes its commit index back:
both indices only grow, the apply index stays below the commit index, and the
entries applied on the way have increasing indices above the old one. -/
theorem commit_progress (start later : RaftRun)
    (hstart : start.node.raftState.lastApplied ≤ start.node.raftState.commitIndex)
    (hrun : Runs.Steps raftSystem (fun run input => run.node.CommitSafe input) start later) :
    start.node.Advances later.node := by
  induction hrun with
  | refl => exact .of_same rfl rfl rfl hstart
  | tail _ hsafe hstep ih =>
    cases hstep
    exact ih.trans (advances_handle ih.bounded hsafe)

def RaftRun.fresh : RaftRun := ⟨Node.new ⟨str "a", 0, 0⟩ [] 0 none, []⟩

def appendFromB (prevLogIndex : UInt64) (count : ℕ) (leaderCommit : UInt64) : RaftInput :=
  .appendEntries 0
    { term := 1
      leaderID := str "b"
      prevLogIndex := prevLogIndex
      prevLogTerm := if prevLogIndex = 0 then 0 else 1
      entries := entriesFrom (prevLogIndex + 1) (List.replicate count 1)
      leaderCommit := leaderCommit }

def RaftRun.followed : RaftRun :=
  ((fresh.handle (appendFromB 0 3 0)).handle (appendFromB 3 0 2)).handle (appendFromB 3 0 2)

theorem commit_progress_followed :
    fresh.node.Advances followed.node ∧ followed.node.raftState.commitIndex = 2 ∧
      followed.node.applied = entriesFrom 1 [1, 1] := by
  refine ⟨?_, by decide +kernel, by decide +kernel⟩
  apply commit_progress fresh
  · exact UInt64.le_refl _
  · refine .tail (.tail (.tail .refl ?_ rfl) ?_ rfl) ?_ rfl
    · exact .inr (.inr (.inl (by decide +kernel)))
    · exact .inr (.inr (.inr (by decide +kernel)))
    · exact .inr (.inr (.inl (by decide +kernel)))

/-- Three committed entries, and then the first of them again, sent by a
leader that has committed four. -/
def RaftRun.resent : RaftRun :=
  ((fresh.handle (appendFromB 0 3 0)).handle (appendFromB 3 0 3)).handle (appendFromB 0 1 4)

def RaftRun.resnapshot : RaftRun :=
  (((fresh.handle (appendFromB 0 3 0)).handle
    (appendFromB 3 0 3)).handle
      (.snapshot 0 ⟨1, str "b", 1, 1, 0, [], true⟩)).handle (appendFromB 2 0 3)

theorem late_requests_take_commit_back :
    (Runs.Steps raftSystem (fun _ _ => True) fresh resent ∧
        resent.node.raftState.commitIndex < resent.node.raftState.lastApplied ∧
        ¬ fresh.node.Advances resent.node) ∧
      Runs.Steps raftSystem (fun _ _ => True) fresh resnapshot ∧
        resnapshot.node.applied = entriesFrom 1 [1, 1, 1] ++ entriesFrom 2 [1] ∧
        ¬ fresh.node.Advances resnapshot.node := by
  have hbehind : resent.node.raftState.commitIndex < resent.node.raftState.lastApplied := by
    decide +kernel
  have htwice : resnapshot.node.applied = entriesFrom 1 [1, 1, 1] ++ entriesFrom 2 [1] := by
    decide +kernel
  refine ⟨⟨.tail (.tail (.tail .refl trivial rfl) trivial rfl) trivial rfl,
    hbehind, ?_⟩, ?_, htwice, ?_⟩
  · intro hadvances
    exact UInt64.not_le.mpr hbehind hadvances.bounded
  · exact .tail (.tail (.tail (.tail .refl trivial rfl) trivial rfl) trivial rfl) trivial rfl
  · intro hadvances
    obtain ⟨entries, happlied, horder, -⟩ := hadvances.newly
    have hentries : entries = entriesFrom 1 [1, 1, 1] ++ entriesFrom 2 [1] := by
      rw [← htwice, happlied]
      rfl
    rw [hentries] at horder
    revert horder
    decide +kernel

end Govc
