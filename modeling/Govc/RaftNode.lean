import Govc.GoMaps
import Govc.GoStrings

/-!
# A Raft node

What a node does with the three Raft requests and with the ticks of its clock.
Requests that cannot be decoded change nothing.  Terms and indices are unsigned
64-bit numbers and wrap.

`AppendEntries` uses slice positions, the snapshot and the apply loop use the
index that an entry carries.  Applying an entry is recording it.  Heartbeats to
other nodes touch no state that is modelled.
-/

namespace Govc

open Go

inductive NodeState where
  | follower
  | candidate
  | leader
  | offline
  | joining
  | leaving
  deriving DecidableEq, Repr

structure Command where
  type : GoString
  repository : GoString
  deriving DecidableEq, Repr

structure LogEntry where
  term : UInt64
  index : UInt64
  command : Command
  deriving DecidableEq, Repr

structure RaftState where
  currentTerm : UInt64
  votedFor : GoString
  log : List LogEntry
  commitIndex : UInt64
  lastApplied : UInt64
  nextIndex : GoMap GoString UInt64
  matchIndex : GoMap GoString UInt64
  electionTimeout : ℤ
  heartbeatTimeout : ℤ
  lastHeartbeat : ℤ

structure Node where
  id : GoString
  state : NodeState
  isLeader : Bool
  leaderID : GoString
  raftState : RaftState
  applied : List LogEntry

structure NodeConfig where
  id : GoString
  electionTimeout : ℤ
  heartbeatTimeout : ℤ

def generateNodeID (hostname : GoString) (now : ℤ) : GoString :=
  hostname ++ str "-" ++ formatInt now

def millisecond : ℤ := 1000000

/-- The zero value of `time.Time`, in nanoseconds. -/
def zeroTime : ℤ := -62135596800000000000

/-- `time.Since`, which saturates. -/
def since (now earlier : ℤ) : ℤ := max (-2 ^ 63) (min (now - earlier) (2 ^ 63 - 1))

/-- `loaded` is the state file of an earlier run, if there is one. -/
def Node.new (config : NodeConfig) (hostname : GoString) (now : ℤ)
    (loaded : Option RaftState) : Node where
  id := if config.id = [] then generateNodeID hostname now else config.id
  state := .follower
  isLeader := false
  leaderID := []
  raftState := loaded.getD
    { currentTerm := 0
      votedFor := []
      log := []
      commitIndex := 0
      lastApplied := 0
      nextIndex := ∅
      matchIndex := ∅
      electionTimeout :=
        if config.electionTimeout = 0 then 150 * millisecond
        else config.electionTimeout
      heartbeatTimeout :=
        if config.heartbeatTimeout = 0 then 50 * millisecond
        else config.heartbeatTimeout
      lastHeartbeat := zeroTime }
  applied := []

/-! ## Requests -/

structure RequestVoteRequest where
  term : UInt64
  candidateID : GoString
  lastLogIndex : UInt64
  lastLogTerm : UInt64

structure RequestVoteResponse where
  term : UInt64
  voteGranted : Bool
  deriving DecidableEq

structure AppendEntriesRequest where
  term : UInt64
  leaderID : GoString
  prevLogIndex : UInt64
  prevLogTerm : UInt64
  entries : List LogEntry
  leaderCommit : UInt64

structure AppendEntriesResponse where
  term : UInt64
  success : Bool
  deriving DecidableEq

structure SnapshotRequest where
  term : UInt64
  leaderID : GoString
  lastIncludedIndex : UInt64
  lastIncludedTerm : UInt64
  offset : UInt64
  data : Bytes
  done : Bool

structure SnapshotResponse where
  term : UInt64
  deriving DecidableEq

namespace RaftState

def logUpToDate (raft : RaftState) (req : RequestVoteRequest) : Bool :=
  let (lastLogIndex, lastLogTerm) :=
    match raft.log.getLast? with
    | some lastEntry => (lastEntry.index, lastEntry.term)
    | none => (0, 0)
  decide (req.lastLogTerm > lastLogTerm) ||
    (decide (req.lastLogTerm = lastLogTerm) && decide (req.lastLogIndex ≥ lastLogIndex))

def adoptTerm (raft : RaftState) (term : UInt64) : RaftState :=
  if term > raft.currentTerm then
    { raft with currentTerm := term, votedFor := [] }
  else raft

def consistent (raft : RaftState) (req : AppendEntriesRequest) : Bool :=
  if req.prevLogIndex = 0 then true
  else if raft.log.length < req.prevLogIndex.toNat then false
  else
    match raft.log[(req.prevLogIndex - 1).toNat]? with
    | some prevEntry => decide (prevEntry.term = req.prevLogTerm)
    | none => true

/-- The first loop of `handleAppendEntries`, from the `i`-th new entry on: cut
the log at the first entry of another term. -/
def dropConflict (prevLogIndex : UInt64) (log : List LogEntry) : ℕ → List LogEntry → List LogEntry
  | _, [] => log
  | i, entry :: rest =>
    let logIndex := prevLogIndex + UInt64.ofNat i + 1
    if logIndex.toNat ≤ log.length then
      match log[(logIndex - 1).toNat]? with
      | some existingEntry =>
        if existingEntry.term ≠ entry.term then
          log.take (logIndex - 1).toNat
        else dropConflict prevLogIndex log (i + 1) rest
      | none => dropConflict prevLogIndex log (i + 1) rest
    else dropConflict prevLogIndex log (i + 1) rest

def appendNew (prevLogIndex : UInt64) : List LogEntry → ℕ → List LogEntry → List LogEntry
  | log, _, [] => log
  | log, i, entry :: rest =>
    let logIndex := prevLogIndex + UInt64.ofNat i + 1
    if log.length < logIndex.toNat then
      appendNew prevLogIndex (log ++ [entry]) (i + 1) rest
    else appendNew prevLogIndex log (i + 1) rest

def mergeEntries (raft : RaftState) (req : AppendEntriesRequest) : RaftState := { raft with
    log := appendNew req.prevLogIndex
      (dropConflict req.prevLogIndex raft.log 0 req.entries) 0 req.entries }

def advanceCommit (raft : RaftState) (req : AppendEntriesRequest) : RaftState :=
  if req.leaderCommit > raft.commitIndex then
    let lastNewIndex := req.prevLogIndex + UInt64.ofNat req.entries.length
    { raft with
      commitIndex :=
        if req.leaderCommit < lastNewIndex then req.leaderCommit
        else lastNewIndex }
  else raft

end RaftState

namespace Node

def handleRequestVote (now : ℤ) (req : RequestVoteRequest) (n : Node) :
    RequestVoteResponse × Node :=
  if req.term < n.raftState.currentTerm then
    (⟨n.raftState.currentTerm, false⟩, n)
  else
    let n :=
      if req.term > n.raftState.currentTerm then
        { n with
          raftState := n.raftState.adoptTerm req.term
          state := .follower
          isLeader := false }
      else n
    if (n.raftState.votedFor = [] ∨ n.raftState.votedFor = req.candidateID) ∧
        n.raftState.logUpToDate req = true then
      (⟨n.raftState.currentTerm, true⟩,
        { n with
          raftState := { n.raftState with
            votedFor := req.candidateID, lastHeartbeat := now } })
    else (⟨n.raftState.currentTerm, false⟩, n)

/-- The number of turns of the loop is the distance it closes. -/
def applyFrom : ℕ → Node → Node
  | 0, n => n
  | turns + 1, n =>
    let lastApplied := n.raftState.lastApplied + 1
    applyFrom turns
      { n with
        raftState := { n.raftState with lastApplied := lastApplied }
        applied := n.applied ++
          (n.raftState.log.find? fun entry =>
            decide (entry.index = lastApplied)).toList }

def applyCommittedEntries (n : Node) : Node :=
  n.applyFrom (n.raftState.commitIndex.toNat - n.raftState.lastApplied.toNat)

def handleAppendEntries (now : ℤ) (req : AppendEntriesRequest) (n : Node) :
    AppendEntriesResponse × Node :=
  if req.term < n.raftState.currentTerm then
    (⟨n.raftState.currentTerm, false⟩, n)
  else
    let raft := n.raftState.adoptTerm req.term
    let n := { n with
      state := .follower
      isLeader := false
      leaderID := req.leaderID
      raftState := { raft with lastHeartbeat := now } }
    if n.raftState.consistent req then
      let n := { n with
        raftState := (n.raftState.mergeEntries req).advanceCommit req }
      (⟨n.raftState.currentTerm, true⟩, n.applyCommittedEntries)
    else (⟨n.raftState.currentTerm, false⟩, n)

def handleSnapshot (now : ℤ) (req : SnapshotRequest) (n : Node) : SnapshotResponse × Node :=
  if req.term < n.raftState.currentTerm then
    (⟨n.raftState.currentTerm⟩, n)
  else
    let n :=
      if req.term > n.raftState.currentTerm then
        { n with
          raftState := n.raftState.adoptTerm req.term
          state := .follower
          isLeader := false }
      else n
    let n := { n with
      leaderID := req.leaderID
      raftState := { n.raftState with lastHeartbeat := now } }
    let n :=
      if req.done then
        { n with
          raftState := { n.raftState with
            log := n.raftState.log.filter fun entry =>
              decide (entry.index > req.lastIncludedIndex)
            lastApplied := req.lastIncludedIndex
            commitIndex := req.lastIncludedIndex } }
      else n
    (⟨n.raftState.currentTerm⟩, n)

/-! ## The clock -/

def becomeLeader (nodes : List GoString) (n : Node) : Node :=
  let others := nodes.filter fun id => decide (id ≠ n.id)
  { n with
    state := .leader
    isLeader := true
    leaderID := n.id
    raftState := { n.raftState with
      nextIndex := others.foldl
        (fun next id => next.insert id (UInt64.ofNat n.raftState.log.length + 1))
        n.raftState.nextIndex
      matchIndex := others.foldl (fun known id => known.insert id 0)
        n.raftState.matchIndex } }

/-- `cluster` lists the ids of the cluster's nodes, if the node is in one.  A
candidate counts its own vote only. -/
def startElection (now : ℤ) (cluster : Option (List GoString)) (n : Node) : Node :=
  let n := { n with
    state := .candidate
    raftState := { n.raftState with
      currentTerm := n.raftState.currentTerm + 1
      votedFor := n.id
      lastHeartbeat := now } }
  match cluster with
  | none => n
  | some nodes =>
    if 1 ≥ nodes.length / 2 + 1 then n.becomeLeader nodes else n

def timedOut (now : ℤ) (n : Node) : Bool :=
  decide (since now n.raftState.lastHeartbeat > n.raftState.electionTimeout)

def tick (now : ℤ) (cluster : Option (List GoString)) (n : Node) : Node :=
  match n.state with
  | .follower | .candidate =>
    if n.timedOut now then n.startElection now cluster else n
  | .leader =>
    if since now n.raftState.lastHeartbeat >
        n.raftState.heartbeatTimeout then
      { n with raftState := { n.raftState with lastHeartbeat := now } }
    else n
  | _ => n

/-! ## Maintenance -/

/-- Keep the entries from 100 below the last applied index on. -/
def compactLog (n : Node) : Node :=
  if n.raftState.lastApplied > 100 then
    let keepFrom := n.raftState.lastApplied - 100
    { n with
      raftState := { n.raftState with
        log := n.raftState.log.filter fun entry =>
          decide (entry.index ≥ keepFrom) } }
  else n

/-- `performMaintenance` up to the saving of the state. -/
def performMaintenance (n : Node) : Node :=
  if 1000 < n.raftState.log.length then n.compactLog else n

end Node

end Govc
