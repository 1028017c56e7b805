import Govc.GoEffects
import Govc.GuardedRuns

/-!
# The concurrency limiter

The semaphore is a channel that starts full.  Receiving from it, the end of the
function and the deferred send are steps of a call, and the steps of all calls
interleave.
-/

namespace Govc

open Go Runs

inductive LimiterMethod where
  | doCall
  | doAsync
  | tryDo

inductive FnEnd where
  | returned
  | failed (err : GoString)
  | panicked

inductive LimitedCall where
  | waiting (method : LimiterMethod)
  | running
  | releasing (fnEnd : FnEnd)
  | done (fnEnd : FnEnd)
  | cancelled
  | refused

inductive LimiterStep where
  | call (method : LimiterMethod)
  | acquire (i : ℕ)
  | cancel (i : ℕ)
  | refuse (i : ℕ)
  | finish (i : ℕ) (fnEnd : FnEnd)
  | release (i : ℕ)

structure ConcurrentLimiter where
  maxGoroutines : ℕ
  semaphore : ℕ
  calls : List LimitedCall

def LimitedCall.holds : LimitedCall → Bool
  | .running | .releasing _ => true
  | _ => false

namespace ConcurrentLimiter

/-- The loop that fills the semaphore fills all its places. -/
def new (numCPU : ℕ) (maxGoroutines : ℤ) : ConcurrentLimiter :=
  let places := if maxGoroutines ≤ 0 then numCPU * 2 else maxGoroutines.toNat
  ⟨places, places, []⟩

def move (cl : ConcurrentLimiter) (i : ℕ) (call : LimitedCall) (semaphore : ℕ) :
    ConcurrentLimiter :=
  { cl with semaphore, calls := cl.calls.set i call }

/-- The step, if it does not block.  A call in `select` takes a token, or sees that its
context is cancelled; only `TryDo` goes on without either. -/
def next (cl : ConcurrentLimiter) : LimiterStep → Option ConcurrentLimiter
  | .call method => some { cl with calls := cl.calls ++ [.waiting method] }
  | .acquire i =>
    match cl.calls[i]?, cl.semaphore with
    | some (.waiting _), tokens + 1 => some (cl.move i .running tokens)
    | _, _ => none
  | .cancel i =>
    match cl.calls[i]? with
    | some (.waiting .tryDo) => none
    | some (.waiting _) => some (cl.move i .cancelled cl.semaphore)
    | _ => none
  | .refuse i =>
    match cl.calls[i]?, cl.semaphore with
    | some (.waiting .tryDo), 0 => some (cl.move i .refused 0)
    | _, _ => none
  | .finish i fnEnd =>
    match cl.calls[i]? with
    | some .running => some (cl.move i (.releasing fnEnd) cl.semaphore)
    | _ => none
  | .release i =>
    match cl.calls[i]? with
    | some (.releasing fnEnd) =>
      if cl.semaphore < cl.maxGoroutines then some (cl.move i (.done fnEnd) (cl.semaphore + 1))
      else none
    | _ => none

def holders (cl : ConcurrentLimiter) : ℕ := cl.calls.countP LimitedCall.holds

def running (cl : ConcurrentLimiter) : ℕ := cl.calls.countP (· matches .running)

def system (numCPU : ℕ) (maxGoroutines : ℤ) : System ConcurrentLimiter LimiterStep where
  init cl := cl = new numCPU maxGoroutines
  step cl label cl' := cl.next label = some cl'

variable {cl cl' : ConcurrentLimiter}

theorem holders_move (hcall : cl.calls[i]? = some before) (call : LimitedCall) (tokens : ℕ) :
    (cl.move i call tokens).holders + before.holds.toNat = cl.holders + call.holds.toNat := by
  obtain ⟨hi, rfl⟩ := List.getElem?_eq_some_iff.mp hcall
  have hheld : cl.calls[i].holds = true → 0 < cl.calls.countP LimitedCall.holds :=
    fun hholds => List.countP_pos_iff.mpr ⟨_, List.getElem_mem hi, hholds⟩
  rw [holders, holders, move, List.countP_set hi]
  cases hbefore : cl.calls[i].holds <;> cases hafter : call.holds <;> simp_all

/-- A step starts a call or moves one, and then tokens and slots change together. -/
theorem next_cases (hnext : cl.next label = some cl') :
    (∃ method, cl' = { cl with calls := cl.calls ++ [.waiting method] }) ∨
      ∃ i before call tokens, cl.calls[i]? = some before ∧ cl' = cl.move i call tokens ∧
        tokens + call.holds.toNat = cl.semaphore + before.holds.toNat := by
  cases label with
  | call method =>
    cases hnext
    exact .inl ⟨method, rfl⟩
  | acquire i =>
    simp only [next] at hnext
    split at hnext
    next method tokens hcall htokens =>
      cases hnext
      exact .inr ⟨i, _, _, _, hcall, rfl, htokens.symm⟩
    next => cases hnext
  | cancel i =>
    simp only [next] at hnext
    split at hnext
    next => cases hnext
    next hcall =>
      cases hnext
      exact .inr ⟨i, _, _, _, hcall, rfl, rfl⟩
    next => cases hnext
  | refuse i =>
    simp only [next] at hnext
    split at hnext
    next hcall htokens =>
      cases hnext
      exact .inr ⟨i, _, _, _, hcall, rfl, htokens.symm⟩
    next => cases hnext
  | finish i fnEnd =>
    simp only [next] at hnext
    split at hnext
    next hcall =>
      cases hnext
      exact .inr ⟨i, _, _, _, hcall, rfl, rfl⟩
    next => cases hnext
  | release i =>
    simp only [next] at hnext
    split at hnext
    next fnEnd hcall =>
      split_ifs at hnext
      cases hnext
      exact .inr ⟨i, _, _, _, hcall, rfl, rfl⟩
    next => cases hnext

theorem conserved_next (hnext : cl.next label = some cl') :
    cl'.maxGoroutines = cl.maxGoroutines ∧
      cl'.semaphore + cl'.holders = cl.semaphore + cl.holders := by
  rcases next_cases hnext with ⟨method, rfl⟩ | ⟨i, before, call, tokens, hcall, rfl, htokens⟩
  · simp [holders, LimitedCall.holds]
  · have hholders := holders_move hcall call tokens
    refine ⟨rfl, ?_⟩
    change tokens + _ = _
    omega

theorem conserved_of_reachable (hreach : Reachable (system numCPU places) allowed cl) :
    cl.maxGoroutines = (new numCPU places).maxGoroutines ∧
      cl.semaphore + cl.holders = cl.maxGoroutines := by
  apply hreach.invariant
  · rintro first rfl
    exact ⟨rfl, rfl⟩
  · rintro before label after ⟨hmax, htotal⟩ _ hnext
    obtain ⟨hsame, hkept⟩ := conserved_next hnext
    exact ⟨hsame.trans hmax, by omega⟩

end ConcurrentLimiter

open ConcurrentLimiter in
/-- Tokens and held slots together are `max` in every state, so no more functions
run at once, and a call that gives its slot back finds room in the semaphore. -/
theorem concurrentLimiter_limits (numCPU : ℕ) {max : ℕ} (hmax : 1 ≤ max)
    {cl : ConcurrentLimiter}
    (hreach : Reachable (system numCPU max) (fun _ _ => True) cl) :
    cl.semaphore + cl.holders = max ∧ cl.running ≤ max ∧
      (∀ i fnEnd, cl.calls[i]? = some (.releasing fnEnd) → (cl.next (.release i)).isSome) ∧
      (cl.holders = 0 → cl.semaphore = max) := by
  obtain ⟨hplaces, htotal⟩ := conserved_of_reachable hreach
  have hnew : (new numCPU max).maxGoroutines = max := by
    simp [new, show ¬ max = 0 by omega]
  have hrunning : cl.running ≤ cl.holders :=
    List.countP_mono_left fun call _ hcall => by
      cases call <;> first | rfl | cases hcall
  refine ⟨by omega, by omega, fun i fnEnd hcall => ?_, by omega⟩
  have hheld : 0 < cl.holders := List.countP_pos_iff.mpr ⟨_, List.mem_of_getElem? hcall, rfl⟩
  simp [next, hcall, show cl.semaphore < cl.maxGoroutines by omega]

open ConcurrentLimiter in
theorem concurrentLimiter_limits_one :
    ∃ cl : ConcurrentLimiter, cl.running = 1 ∧
      cl.semaphore + cl.holders = 1 ∧ cl.running ≤ 1 ∧
      (∀ i fnEnd, cl.calls[i]? = some (.releasing fnEnd) → (cl.next (.release i)).isSome) ∧
      (cl.holders = 0 → cl.semaphore = 1) := by
  have hcalled : Steps (system 0 (1 : ℕ)) (fun _ _ => True) (new 0 1) ⟨1, 1, [.waiting .tryDo]⟩ :=
    Steps.refl.next (.call .tryDo) trivial rfl
  exact ⟨⟨1, 0, [.running]⟩, rfl, concurrentLimiter_limits 0 le_rfl
    ⟨_, rfl, hcalled.next (.acquire 0) trivial rfl⟩⟩

/-! ## Progress -/

/-- The steps that a call still has to take. -/
def LimitedCall.left : LimitedCall → ℕ
  | .waiting _ => 3
  | .running => 2
  | .releasing _ => 1
  | _ => 0

namespace ConcurrentLimiter

def left (cl : ConcurrentLimiter) : ℕ := (cl.calls.map LimitedCall.left).sum

def NoCall (_ : ConcurrentLimiter) (label : LimiterStep) : Prop := ∀ method, label ≠ .call method

variable {cl cl' : ConcurrentLimiter}

theorem left_next (hnext : cl.next label = some cl') (hold : cl.NoCall label) :
    cl'.left < cl.left := by
  obtain ⟨i, before, call, tokens, hcall, rfl, hless⟩ : ∃ i before call tokens,
      cl.calls[i]? = some before ∧ cl' = cl.move i call tokens ∧ call.left < before.left := by
    cases label with
    | call method => exact absurd rfl (hold method)
    | _ =>
      simp only [next] at hnext
      grind [LimitedCall.left]
  obtain ⟨hi, rfl⟩ := List.getElem?_eq_some_iff.mp hcall
  have hsum := List.sum_take_add_sum_drop (cl.calls.map LimitedCall.left) i
  rw [List.drop_eq_getElem_cons (by simpa using hi), List.sum_cons, List.getElem_map] at hsum
  rw [left, left, move, List.map_set, List.sum_set, if_pos (by simpa using hi)]
  omega

theorem progress (htotal : cl.semaphore + cl.holders = cl.maxGoroutines)
    (hmax : 1 ≤ cl.maxGoroutines) (hleft : cl.left ≠ 0) :
    ∃ label, cl.NoCall label ∧ (cl.next label).isSome := by
  by_cases hheld : 0 < cl.holders
  · obtain ⟨call, hmem, hholds⟩ := List.countP_pos_iff.mp hheld
    obtain ⟨i, hcall⟩ := List.getElem?_of_mem hmem
    cases call with
    | running => exact ⟨.finish i .returned, nofun, by simp [next, hcall]⟩
    | releasing fnEnd =>
      have hroom : cl.semaphore < cl.maxGoroutines := by omega
      exact ⟨.release i, nofun, by simp [next, hcall, hroom]⟩
    | _ => cases hholds
  -- with no holder all tokens are there
  · obtain ⟨call, hmem, hopen⟩ : ∃ call ∈ cl.calls, call.left ≠ 0 := by
      simpa [left, List.sum_eq_zero_iff] using hleft
    obtain ⟨i, hcall⟩ := List.getElem?_of_mem hmem
    cases call with
    | waiting method =>
      obtain ⟨tokens, htokens⟩ := Nat.exists_eq_add_of_lt (show 0 < cl.semaphore by omega)
      exact ⟨.acquire i, nofun, by simp [next, hcall, htokens]⟩
    | running | releasing => exact absurd (List.countP_pos_iff.mpr ⟨_, hmem, rfl⟩) hheld
    | _ => exact absurd rfl hopen

/-- From every reachable state the calls that are there can all be brought to their end. -/
theorem limiter_drains (numCPU : ℕ) {max : ℕ} (hmax : 1 ≤ max) {cl : ConcurrentLimiter}
    (hreach : Reachable (system numCPU max) (fun _ _ => True) cl) :
    ∃ last, Steps (system numCPU max) NoCall cl last ∧ ∀ call ∈ last.calls, call.left = 0 := by
  induction hn : cl.left using Nat.strong_induction_on generalizing cl with
  | h n ih =>
    obtain ⟨hplaces, htotal⟩ := conserved_of_reachable hreach
    have hnew : (new numCPU max).maxGoroutines = max := by
      simp [new, show ¬ max = 0 by omega]
    by_cases hleft : cl.left = 0
    · exact ⟨cl, .refl, by simpa [left, List.sum_eq_zero_iff] using hleft⟩
    · obtain ⟨label, hold, hsome⟩ := progress htotal (by omega) hleft
      obtain ⟨cl', hnext⟩ := Option.isSome_iff_exists.mp hsome
      obtain ⟨first, hfirst, hrun⟩ := hreach
      obtain ⟨last, hrest, hover⟩ :=
        ih _ (hn ▸ left_next hnext hold) ⟨first, hfirst, hrun.next label trivial hnext⟩ rfl
      exact ⟨last, (Steps.refl.next label hold hnext).trans hrest, hover⟩

theorem limiter_drains_waiting :
    ∃ last, Steps (system 0 (1 : ℕ)) NoCall ⟨1, 1, [.waiting .doCall]⟩ last ∧
      ∀ call ∈ last.calls, call.left = 0 :=
  limiter_drains 0 le_rfl ⟨_, rfl, Steps.refl.next (.call .doCall) trivial rfl⟩

end ConcurrentLimiter

end Govc
