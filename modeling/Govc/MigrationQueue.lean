import Govc.GuardedRuns
import Govc.ShardingManager

/-!
# The migration queue

Each critical section on the queue is one step.  A migration that was started
runs beside the other calls until its last section moves it to the completed
ones.  A `MigrateShard` for an unknown shard leaves the queue as it is.
-/

namespace Govc

open Go

structure MigrationQueue where
  pending : List (GoString × MigrationTask)
  active : GoMap GoString MigrationTask
  completed : List (GoString × MigrationTask)
  maxActive : ℕ

/-- A queue with its running migrations, and the ids that were ever queued and
ever started. -/
structure QueueRun where
  queue : MigrationQueue
  running : List (GoString × MigrationTask)
  queued : List GoString
  started : List GoString

namespace QueueRun

def new (maxActive : ℕ) : QueueRun := ⟨⟨[], ∅, [], maxActive⟩, [], [], []⟩

def queueTask (id : GoString) (task : MigrationTask) (run : QueueRun) : QueueRun := { run with
    queue := { run.queue with pending := run.queue.pending ++ [(id, task)] }
    queued := run.queued ++ [id] }

def start (i : ℕ) (task : GoString × MigrationTask) (run : QueueRun) : QueueRun := { run with
    queue := { run.queue with
      pending := run.queue.pending.eraseIdx i
      active := run.queue.active.insert task.1 task.2 }
    running := run.running ++ [task]
    started := run.started ++ [task.1] }

/-- The loop of `processPendingMigrations` over the positions below `i`. -/
def startPending : ℕ → QueueRun → QueueRun
  | 0, run => run
  | i + 1, run =>
    if run.queue.active.keys.length ≥ run.queue.maxActive then run
    else
      match run.queue.pending[i]? with
      | none => run
      | some task => startPending i (run.start i task)

def processPendingMigrations (run : QueueRun) : QueueRun :=
  if run.queue.active.keys.length ≥ run.queue.maxActive then run
  else startPending run.queue.pending.length run

/-- The last section of the `i`-th running migration. -/
def complete (i : ℕ) (run : QueueRun) : QueueRun :=
  match run.running[i]? with
  | none => run
  | some task =>
    { run with
      queue := { run.queue with
        active := run.queue.active.erase task.1
        completed := run.queue.completed ++ [task] }
      running := run.running.eraseIdx i }

inductive QueueStep where
  | migrateShard (id : GoString) (task : MigrationTask)
  | processPendingMigrations
  | complete (i : ℕ)

def next (run : QueueRun) : QueueStep → QueueRun
  | .migrateShard id task => run.queueTask id task
  | .processPendingMigrations => run.processPendingMigrations
  | .complete i => run.complete i

/-- A queued task has an id of its own. -/
def Fresh (run : QueueRun) : QueueStep → Prop
  | .migrateShard id _ => id ∉ run.queued
  | _ => True

def ids (tasks : List (GoString × MigrationTask)) : List GoString := tasks.map Prod.fst

/-- The ids in the three parts of the queue. -/
def placed (run : QueueRun) : List GoString :=
  ids run.queue.pending ++ (run.queue.active.keys ++ ids run.queue.completed)

structure Conserved (run : QueueRun) : Prop where
  distinct : run.queued.Nodup
  placed : run.placed.Perm run.queued
  started : run.started.Perm (run.queue.active.keys ++ ids run.queue.completed)
  running : (ids run.running).Perm run.queue.active.keys
  bounded : run.queue.active.keys.length ≤ run.queue.maxActive

theorem keys_insert_of_notMem {κ ν : Type} [DecidableEq κ] {m : GoMap κ ν} {key : κ}
    (hnew : key ∉ m.keys) {value : ν} : (m.insert key value).keys = key :: m.keys := by
  rw [AList.keys_insert, List.erase_of_not_mem hnew]

theorem keys_erase_perm {κ ν : Type} [DecidableEq κ] {m : GoMap κ ν} {key : κ}
    (hold : key ∈ m.keys) : m.keys.Perm (key :: (m.erase key).keys) := by
  rw [AList.keys_erase]
  exact List.perm_cons_erase hold

theorem ids_perm {tasks : List (GoString × MigrationTask)} {i : ℕ}
    {task : GoString × MigrationTask} (htask : tasks[i]? = some task) :
    (ids tasks).Perm (task.1 :: ids (tasks.eraseIdx i)) := by
  obtain ⟨hi, rfl⟩ := List.getElem?_eq_some_iff.mp htask
  exact (List.getElem_cons_eraseIdx_perm hi).symm.map Prod.fst

variable {run : QueueRun}

theorem Conserved.queueTask (h : Conserved run) {id : GoString} (hfresh : id ∉ run.queued)
    (task : MigrationTask) : Conserved (run.queueTask id task) := by
  refine ⟨?_, ?_, h.started, h.running, h.bounded⟩
  · change (run.queued ++ [id]).Nodup
    rw [← List.concat_eq_append]
    exact h.distinct.concat hfresh
  · rw [QueueRun.placed, QueueRun.queueTask, ids, List.map_append, List.append_assoc]
    refine List.Perm.trans ?_ (h.placed.append_right [id])
    rw [QueueRun.placed, List.append_assoc]
    exact List.perm_append_comm.append_left _

theorem Conserved.start (h : Conserved run) {i : ℕ} {task : GoString × MigrationTask}
    (htask : run.queue.pending[i]? = some task)
    (hroom : run.queue.active.keys.length < run.queue.maxActive) :
    Conserved (run.start i task) := by
  have hplaced : (task.1 :: (ids (run.queue.pending.eraseIdx i) ++
      (run.queue.active.keys ++ ids run.queue.completed))).Perm run.queued :=
    ((ids_perm htask).append_right _).symm.trans h.placed
  have hidle : task.1 ∉ run.queue.active.keys := by
    have hnodup := hplaced.nodup_iff.mpr h.distinct
    simp only [List.nodup_cons, List.mem_append, not_or] at hnodup
    exact hnodup.1.2.1
  have hkeys : (run.start i task).queue.active.keys = task.1 :: run.queue.active.keys :=
    keys_insert_of_notMem hidle
  have hlast (items : List GoString) : (items ++ [task.1]).Perm (task.1 :: items) :=
    List.perm_append_comm
  refine ⟨h.distinct, ?_, ?_, ?_, ?_⟩
  · rw [QueueRun.placed, hkeys]
    exact List.perm_middle.trans hplaced
  · rw [hkeys]
    exact (hlast _).trans (h.started.cons _)
  · rw [hkeys, QueueRun.start, ids, List.map_append]
    exact (hlast _).trans (h.running.cons _)
  · rw [hkeys]
    exact hroom

theorem Conserved.startPending (h : Conserved run) (i : ℕ) : Conserved (run.startPending i) := by
  induction i generalizing run with
  | zero => exact h
  | succ i ih =>
    rw [QueueRun.startPending]
    split_ifs with hfull
    · exact h
    · cases htask : run.queue.pending[i]? with
      | none => exact h
      | some task => exact ih (h.start htask (not_le.mp hfull))

theorem Conserved.complete (h : Conserved run) (i : ℕ) : Conserved (run.complete i) := by
  unfold QueueRun.complete
  cases htask : run.running[i]? with
  | none => exact h
  | some task =>
    have hrunning := (ids_perm htask).symm.trans h.running
    have hactive := keys_erase_perm (hrunning.mem_iff.mp List.mem_cons_self)
    have hmoved : (run.queue.active.keys ++ ids run.queue.completed).Perm
        ((run.queue.active.erase task.1).keys ++ ids (run.queue.completed ++ [task])) := by
      rw [ids, ids, List.map_append, ← List.append_assoc]
      exact (hactive.append_right _).trans (List.perm_append_singleton _ _).symm
    refine ⟨h.distinct, ?_, h.started.trans hmoved, (hrunning.trans hactive).cons_inv, ?_⟩
    · exact (hmoved.symm.append_left _).trans h.placed
    · have hlength := hactive.length_eq
      have hbounded := h.bounded
      rw [List.length_cons] at hlength
      dsimp only
      omega

theorem Conserved.next (h : Conserved run) (step : QueueStep) (hfresh : run.Fresh step) :
    Conserved (run.next step) := by
  cases step with
  | migrateShard id task => exact h.queueTask hfresh task
  | processPendingMigrations =>
    rw [QueueRun.next, QueueRun.processPendingMigrations]
    split_ifs
    · exact h
    · exact h.startPending _
  | complete i => exact h.complete i

end QueueRun

open QueueRun in
/-- After any steps with distinct ids, a task that was ever queued is in one
part of the queue, and once; those that are active or completed have been
started once, and the others not. -/
theorem migrationQueue_conserves (maxActive : ℕ) {steps : List QueueStep}
    (hfresh : Runs.Admits next Fresh (.new maxActive) steps) :
    let run := steps.foldl next (.new maxActive)
    (∀ id ∈ run.queued, (ids run.queue.pending).count id +
        run.queue.active.keys.count id + (ids run.queue.completed).count id = 1 ∧
      run.started.count id = run.queue.active.keys.count id + (ids run.queue.completed).count id) ∧
      run.queue.active.keys.length ≤ run.queue.maxActive := by
  have h : Conserved (steps.foldl next (.new maxActive)) :=
    hfresh.invariant (fun run step hrun => hrun.next step)
      ⟨List.nodup_nil, .nil, .nil, .nil, Nat.zero_le _⟩
  refine ⟨fun id hid => ⟨?_, ?_⟩, h.bounded⟩
  · have hone := List.count_eq_one_of_mem h.distinct hid
    rw [← h.placed.count_eq, placed, List.count_append, List.count_append] at hone
    omega
  · rw [h.started.count_eq, List.count_append]

open QueueRun in
theorem migrationQueue_conserves_started :
    let steps : List QueueStep :=
      [.migrateShard (str "a") ⟨[], [], [], []⟩, .processPendingMigrations, .complete 0]
    Runs.Admits next Fresh (.new 1) steps ∧
      (steps.foldl next (.new 1)).started.count (str "a") =
        (steps.foldl next (.new 1)).queue.active.keys.count (str "a") +
          (ids (steps.foldl next (.new 1)).queue.completed).count (str "a") := by
  intro steps
  have hfresh : Runs.Admits next Fresh (.new 1) steps := ⟨List.not_mem_nil, trivial, trivial, trivial⟩
  exact ⟨hfresh, ((migrationQueue_conserves 1 hfresh).1 (str "a") (by decide)).2⟩

end Govc
