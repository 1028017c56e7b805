import Govc.BatchOverlay
import Govc.RaftNode

/-!
# The log after `AppendEntries`

An accepted request lays its entries over the log, behind the entry it names
as the previous one.  The two loops of the handler cut the log at the first
entry of another term and then append what is missing; together they are the
overlay of the entries by term.  A slice has fewer than `2 ^ 63` elements, so
the positions the loops compute do not wrap.
-/

namespace Govc

open Go Node

namespace RaftState

theorem toNat_logIndex (hbound : prevLogIndex.toNat + i + 1 < 2 ^ 64) :
    (prevLogIndex + UInt64.ofNat i + 1).toNat = prevLogIndex.toNat + i + 1 := by
  have hi : (UInt64.ofNat i).toNat = i := by
    exact Nat.mod_eq_of_lt (by omega)
  rw [UInt64.toNat_add, UInt64.toNat_add, hi, UInt64.toNat_one]
  rw [Nat.mod_eq_of_lt (show prevLogIndex.toNat + i < 2 ^ 64 by omega)]
  exact Nat.mod_eq_of_lt (by omega)

theorem toNat_logIndex_sub_one (hbound : prevLogIndex.toNat + i + 1 < 2 ^ 64) :
    (prevLogIndex + UInt64.ofNat i + 1 - 1).toNat = prevLogIndex.toNat + i := by
  have hindex := toNat_logIndex hbound
  rw [UInt64.toNat_sub_of_le, hindex, UInt64.toNat_one]
  · omega
  · rw [UInt64.le_iff_toNat_le, hindex, UInt64.toNat_one]
    omega

theorem dropConflict_eq {prevLogIndex : UInt64} {log : List LogEntry}
    {i : ℕ} {entries : List LogEntry}
    (hbound : prevLogIndex.toNat + i + entries.length < 2 ^ 64) :
    dropConflict prevLogIndex log i entries =
      log.take (prevLogIndex.toNat + i) ++
        Overlay.kept LogEntry.term (log.drop (prevLogIndex.toNat + i)) entries := by
  induction entries generalizing i with
  | nil =>
    rw [dropConflict, Overlay.kept_nil_right, List.take_append_drop]
  | cons entry rest ih =>
    rw [List.length_cons] at hbound
    have hrest := @ih (i + 1) (by omega)
    rw [dropConflict]
    simp only [toNat_logIndex (show prevLogIndex.toNat + i + 1 < 2 ^ 64 by
      omega), toNat_logIndex_sub_one (show prevLogIndex.toNat + i + 1 < 2 ^ 64 by omega)]
    by_cases hin : prevLogIndex.toNat + i < log.length
    · rw [if_pos (by omega), List.getElem?_eq_getElem hin]
      rw [List.drop_eq_getElem_cons hin, Overlay.kept]
      dsimp only
      by_cases hsame : log[prevLogIndex.toNat + i].term = entry.term
      · rw [if_neg (not_not_intro hsame), if_pos hsame, hrest]
        rw [← Nat.add_assoc, List.take_succ_eq_append_getElem hin, List.append_assoc]
        rfl
      · rw [if_pos hsame, if_neg hsame, List.append_nil]
    · -- behind the end nothing is compared
      rw [if_neg (by omega), hrest]
      rw [List.drop_of_length_le (by omega), List.drop_of_length_le (by omega)]
      rw [List.take_of_length_le (by omega), List.take_of_length_le (by omega)]
      cases rest <;> rfl

theorem appendNew_eq {prevLogIndex : UInt64} {log : List LogEntry}
    {i : ℕ} {entries : List LogEntry}
    (hbound : prevLogIndex.toNat + i + entries.length < 2 ^ 64)
    (hstart : prevLogIndex.toNat + i ≤ log.length) :
    appendNew prevLogIndex log i entries =
      log ++ entries.drop (log.length - (prevLogIndex.toNat + i)) := by
  induction entries generalizing log i with
  | nil => simp [appendNew]
  | cons entry rest ih =>
    rw [List.length_cons] at hbound
    rw [appendNew]
    simp only [toNat_logIndex (show prevLogIndex.toNat + i + 1 < 2 ^ 64 by
      omega)]
    by_cases hend : log.length < prevLogIndex.toNat + i + 1
    · have hlast : log.length - (prevLogIndex.toNat + i) = 0 := by omega
      rw [if_pos hend, ih (by omega) (by simp; omega), hlast]
      have hnone : (log ++ [entry]).length - (prevLogIndex.toNat + (i + 1)) = 0 := by
        rw [List.length_append, List.length_singleton]
        omega
      rw [hnone]
      simp
    · have hnext : log.length - (prevLogIndex.toNat + i) =
          log.length - (prevLogIndex.toNat + (i + 1)) + 1 := by omega
      rw [if_neg hend, ih (by omega) (by omega), hnext, List.drop_succ_cons]

theorem mergeEntries_log {raft : RaftState} {req : AppendEntriesRequest}
    (hbound : req.prevLogIndex.toNat + req.entries.length < 2 ^ 64)
    (hstart : req.prevLogIndex.toNat ≤ raft.log.length) :
    (raft.mergeEntries req).log =
      raft.log.take req.prevLogIndex.toNat ++
        Overlay.overlay LogEntry.term (raft.log.drop req.prevLogIndex.toNat) req.entries := by
  have hdrop := @dropConflict_eq req.prevLogIndex raft.log 0 req.entries (by omega)
  rw [Nat.add_zero] at hdrop
  have hlength : (raft.log.take req.prevLogIndex.toNat).length = req.prevLogIndex.toNat := by
    rw [List.length_take]
    exact min_eq_left hstart
  rw [mergeEntries]
  rw [hdrop, appendNew_eq (by omega) (by rw [List.length_append, hlength]; omega)]
  rw [List.length_append, hlength, Nat.add_zero, Nat.add_sub_cancel_left,
    List.append_assoc, Overlay.kept_append_drop]

theorem prevLogIndex_le_of_consistent {raft : RaftState}
    {req : AppendEntriesRequest} (hconsistent : raft.consistent req = true) :
    req.prevLogIndex.toNat ≤ raft.log.length := by
  unfold consistent at hconsistent
  by_cases hzero : req.prevLogIndex = 0
  · rw [hzero]
    exact Nat.zero_le _
  · rw [if_neg hzero] at hconsistent
    by_contra hbeyond
    rw [if_pos (by omega)] at hconsistent
    cases hconsistent

theorem advanceCommit_log {raft : RaftState} {req : AppendEntriesRequest} :
    (raft.advanceCommit req).log = raft.log := by
  unfold advanceCommit
  split_ifs
  · rfl
  · rfl

theorem adoptTerm_log (raft : RaftState) (term : UInt64) :
    (raft.adoptTerm term).log = raft.log := by
  unfold adoptTerm
  split_ifs
  · rfl
  · rfl

end RaftState

namespace Node

def heardFrom (now : ℤ) (req : AppendEntriesRequest) (n : Node) : Node := { n with
    state := .follower
    isLeader := false
    leaderID := req.leaderID
    raftState := { n.raftState.adoptTerm req.term with lastHeartbeat := now } }

def taken (now : ℤ) (req : AppendEntriesRequest) (n : Node) : Node := { n.heardFrom now req with
    raftState := ((n.heardFrom now req).raftState.mergeEntries req).advanceCommit req }

theorem heardFrom_consistent (now : ℤ) (req : AppendEntriesRequest) (n : Node) :
    (n.heardFrom now req).raftState.consistent req = n.raftState.consistent req := by
  have hlog : (n.heardFrom now req).raftState.log = n.raftState.log :=
    n.raftState.adoptTerm_log req.term
  unfold RaftState.consistent
  rw [hlog]

/-- What a request does: nothing in an old term; otherwise the leader is
heard, and the entries are taken if the previous one is there. -/
theorem handleAppendEntries_eq (now : ℤ) (req : AppendEntriesRequest) (n : Node) :
    n.handleAppendEntries now req =
      if req.term < n.raftState.currentTerm then
        (⟨n.raftState.currentTerm, false⟩, n)
      else if n.raftState.consistent req then
        (⟨(n.taken now req).raftState.currentTerm, true⟩, (n.taken now req).applyCommittedEntries)
      else
        (⟨(n.heardFrom now req).raftState.currentTerm, false⟩, n.heardFrom now req) := by
  have hsame := n.heardFrom_consistent now req
  rw [← hsame]
  rfl

theorem applyFrom_log (turns : ℕ) (n : Node) :
    (n.applyFrom turns).raftState.log = n.raftState.log := by
  induction turns generalizing n with
  | zero => rfl
  | succ turns ih => exact ih _

theorem taken_log {now : ℤ} {req : AppendEntriesRequest} {n : Node}
    (hbound : req.prevLogIndex.toNat + req.entries.length < 2 ^ 64)
    (hconsistent : n.raftState.consistent req = true) :
    (n.taken now req).raftState.log =
      n.raftState.log.take req.prevLogIndex.toNat ++
        Overlay.overlay LogEntry.term
          (n.raftState.log.drop req.prevLogIndex.toNat) req.entries := by
  have hlog : (n.heardFrom now req).raftState.log = n.raftState.log :=
    n.raftState.adoptTerm_log req.term
  have hstart := RaftState.prevLogIndex_le_of_consistent hconsistent
  rw [← hlog] at hstart ⊢
  rw [taken, RaftState.advanceCommit_log]
  exact RaftState.mergeEntries_log hbound hstart

end Node

/-! ## Log matching -/

/-- The log after a successful request: the new entries have the terms of the
request, the earlier ones are unchanged, and later ones are dropped only
because of a conflict. -/
structure AppendEntriesRequest.Matched (req : AppendEntriesRequest)
    (before after : List LogEntry) : Prop where
  terms : ∀ (i : ℕ) entry, req.entries[i]? = some entry →
    ∃ placed, after[req.prevLogIndex.toNat + i]? = some placed ∧ placed.term = entry.term
  earlier : after.take req.prevLogIndex.toNat = before.take req.prevLogIndex.toNat
  later : after.drop (req.prevLogIndex.toNat + req.entries.length) =
      before.drop (req.prevLogIndex.toNat + req.entries.length) ∨
    ∃ (i : ℕ) (existing entry : LogEntry),
      before[req.prevLogIndex.toNat + i]? = some existing ∧
        req.entries[i]? = some entry ∧ existing.term ≠ entry.term

theorem AppendEntriesRequest.matched_overlay (req : AppendEntriesRequest)
    {log : List LogEntry} (hstart : req.prevLogIndex.toNat ≤ log.length) :
    req.Matched log
      (log.take req.prevLogIndex.toNat ++ Overlay.overlay LogEntry.term
        (log.drop req.prevLogIndex.toNat) req.entries) := by
  have hlength : (log.take req.prevLogIndex.toNat).length = req.prevLogIndex.toNat := by
    rw [List.length_take]
    exact min_eq_left hstart
  constructor
  · intro i entry hentry
    obtain ⟨placed, hplaced, hterm⟩ : ∃ placed,
        (Overlay.overlay LogEntry.term (log.drop req.prevLogIndex.toNat)
          req.entries)[i]? = some placed ∧ placed.term = entry.term :=
      Overlay.overlay_getElem? hentry
    refine ⟨placed, ?_, hterm⟩
    rw [List.getElem?_append_right (by omega), hlength, Nat.add_sub_cancel_left]
    exact hplaced
  · exact List.take_left' hlength
  · by_cases hagree : Overlay.Agree LogEntry.term (log.drop req.prevLogIndex.toNat) req.entries
    · left
      rw [← List.drop_drop, List.drop_left' hlength, hagree.drop_overlay, List.drop_drop]
    · right
      unfold Overlay.Agree at hagree
      push Not at hagree
      obtain ⟨i, existing, entry, hexisting, hentry, hne⟩ := hagree
      rw [List.getElem?_drop] at hexisting
      exact ⟨i, existing, entry, hexisting, hentry, hne⟩

/-- Whatever the log and the request are, a success leaves the entries of the
request in their places, and a failure leaves the log alone. -/
theorem log_matching (now : ℤ) (req : AppendEntriesRequest) (n : Node)
    (hlog : n.raftState.log.length < 2 ^ 63)
    (hentries : req.entries.length < 2 ^ 63) :
    ((n.handleAppendEntries now req).1.success = true →
        req.Matched n.raftState.log (n.handleAppendEntries now req).2.raftState.log) ∧
      ((n.handleAppendEntries now req).1.success = false →
        (n.handleAppendEntries now req).2.raftState.log = n.raftState.log) := by
  rw [Node.handleAppendEntries_eq]
  split
  · exact ⟨fun hsuccess => (nomatch hsuccess), fun _ => rfl⟩
  · cases hconsistent : n.raftState.consistent req with
    | false =>
      exact ⟨fun hsuccess => (nomatch hsuccess), fun _ => n.raftState.adoptTerm_log req.term⟩
    | true =>
      rw [if_pos rfl]
      refine ⟨fun _ => ?_, fun hfailure => (nomatch hfailure)⟩
      have hstart := RaftState.prevLogIndex_le_of_consistent hconsistent
      rw [applyCommittedEntries, Node.applyFrom_log, Node.taken_log (by omega) hconsistent]
      exact req.matched_overlay hstart

def entriesFrom (index : UInt64) : List UInt64 → List LogEntry
  | [] => []
  | term :: terms =>
    ⟨term, index, ⟨str "commit", str "r"⟩⟩ :: entriesFrom (index + 1) terms

def Node.divergent : Node :=
  new ⟨str "a", 0, 0⟩ [] 0 (some
    { (new ⟨str "a", 0, 0⟩ [] 0 none).raftState with
      currentTerm := 2
      log := entriesFrom 1 [1, 1, 2] })

def AppendEntriesRequest.overwriting : AppendEntriesRequest where
  term := 3
  leaderID := str "b"
  prevLogIndex := 1
  prevLogTerm := 1
  entries := entriesFrom 2 [1, 3]
  leaderCommit := 0

theorem log_matching_divergent :
    (divergent.handleAppendEntries 0 .overwriting).1.success = true ∧
      (divergent.handleAppendEntries 0 .overwriting).2.raftState.log = entriesFrom 1 [1, 1, 3] ∧
      AppendEntriesRequest.overwriting.Matched divergent.raftState.log
        (divergent.handleAppendEntries 0 .overwriting).2.raftState.log := by
  have hsuccess : (divergent.handleAppendEntries 0 .overwriting).1.success = true := by
    decide +kernel
  have hmatching := log_matching 0 .overwriting divergent (by decide +kernel) (by decide +kernel)
  exact ⟨hsuccess, by decide +kernel, hmatching.1 hsuccess⟩

end Govc
