import Govc.GoEffects

/-!
# Calls that change files

A program asks the operating system to change files; each request may be
refused, for reasons that depend on everything asked before.  What a program
does to the file system is the list of its requests.  `Only P` says that every
request so far satisfies `P`; `Asks` and `Writes` say what a call asks for when
nothing is refused.
-/

namespace Go

inductive FileCall where
  | mkdirAll (dir : GoString)
  | create (path : GoString)
  | copy (path : GoString) (content : Bytes)
  | writeFile (path : GoString) (content : Bytes)
  | chmod (path : GoString) (mode : UInt32)
  | remove (path : GoString)
  | removeAll (path : GoString)
  deriving DecidableEq

def FileCall.written : FileCall → Option GoString
  | .create path => some path
  | .copy path _ => some path
  | .writeFile path _ => some path
  | .chmod path _ => some path
  | .mkdirAll _ => none
  | .remove _ => none
  | .removeAll _ => none

/-- The requests so far, and the answers to come: whether a request is
refused, whether a path exists, and whether the program was told to stop. -/
structure Machine where
  calls : List FileCall
  refuses : List FileCall → FileCall → Option GoString
  present : List FileCall → GoString → Bool
  cancelled : List FileCall → Option GoString

namespace Machine

def after (machine : Machine) (calls : List FileCall) : Machine :=
  { machine with calls := machine.calls ++ calls }

def perform (call : FileCall) : GoM Machine Unit := fun machine =>
  match machine.refuses machine.calls call with
  | none => (.ok (), machine.after [call])
  | some e => (.error e, machine.after [call])

def stat (path : GoString) : GoM Machine Bool :=
  GoM.view fun machine => machine.present machine.calls path

def checkCancelled : GoM Machine Unit := GoM.query fun machine =>
    match machine.cancelled machine.calls with
    | none => .ok ()
    | some e => .error e

/-! ## Every request -/

def Only (P : FileCall → Prop) (machine : Machine) : Prop := ∀ call ∈ machine.calls, P call

section

variable {P : FileCall → Prop}

theorem perform_only (hcall : P call) :
    GoM.Triple (Only P) (perform call) (fun _ => Only P) (Only P) := by
  intro machine honly
  have hafter : Only P (machine.after [call]) := by
    intro other hmem
    rcases List.mem_append.mp hmem with hold | hnew
    · exact honly other hold
    · rw [List.mem_singleton.mp hnew]
      exact hcall
  unfold perform
  cases machine.refuses machine.calls call <;> exact ⟨fun _ _ => hafter, fun _ => hafter⟩

theorem stat_only : GoM.Triple (Only P) (stat path) (fun _ => Only P) (Only P) :=
  GoM.Triple.view fun _ honly => honly

theorem checkCancelled_only : GoM.Triple (Only P) checkCancelled (fun _ => Only P) (Only P) :=
  GoM.Triple.query (fun _ _ _ honly => honly) fun _ honly => honly

end

/-! ## When nothing is refused -/

structure Obliging (machine : Machine) : Prop where
  refuses : ∀ calls call, machine.refuses calls call = none
  present : ∀ calls path, machine.present calls path = false
  cancelled : ∀ calls, machine.cancelled calls = none

def obliging : Machine where
  calls := []
  refuses := fun _ _ => none
  present := fun _ _ => false
  cancelled := fun _ => none

theorem obliging_obliging : Obliging obliging := ⟨fun _ _ => rfl, fun _ _ => rfl, fun _ => rfl⟩

theorem Obliging.after (h : Obliging machine)
    (calls : List FileCall) : Obliging (machine.after calls) :=
  ⟨h.refuses, h.present, h.cancelled⟩

theorem after_nil {machine : Machine} : machine.after [] = machine := by
  simp [after]

theorem after_after {machine : Machine} :
    (machine.after first).after second = machine.after (first ++ second) := by
  simp [after]

/-- On an obliging machine, `m` returns `value` and asks for `calls`. -/
def Asks {α : Type} (m : GoM Machine α) (value : α) (calls : List FileCall) : Prop :=
  ∀ machine, Obliging machine → m machine = (.ok value, machine.after calls)

section

variable {α γ : Type} {m : GoM Machine α}

theorem asks_pure (value : α) : Asks (pure value) value [] := by
  intro machine _
  rw [after_nil]
  rfl

theorem asks_perform : Asks (perform call) () [call] := by
  intro machine h
  unfold perform
  rw [h.refuses]

theorem asks_stat : Asks (stat path) false [] := by
  intro machine h
  rw [after_nil]
  unfold stat
  rw [GoM.view_apply, h.present]

theorem asks_checkCancelled : Asks checkCancelled () [] := by
  intro machine h
  rw [after_nil]
  unfold checkCancelled
  rw [GoM.query_apply, h.cancelled]
  rfl

theorem asks_ofExcept : Asks (GoM.ofExcept (.ok value)) value [] := by
  intro machine _
  rw [after_nil]
  rfl

variable {f : α → GoM Machine γ} {value : α}

theorem Asks.bind (hm : Asks m value first) (hf : Asks (f value) result second) :
    Asks (m >>= f) result (first ++ second) := by
  intro machine h
  rw [GoM.bind_of_ok (hm machine h), hf _ (h.after first), after_after]

variable {calls : List FileCall}

theorem Asks.mapError {f : GoString → GoString} (hm : Asks m value calls) :
    Asks (GoM.mapError f m) value calls := by
  intro machine h
  unfold GoM.mapError
  rw [hm machine h]

/-- On an obliging machine, `m` writes to all of `paths`. -/
def Writes (m : GoM Machine α) (paths : List GoString) : Prop :=
  ∀ machine, Obliging machine →
    ∃ calls, (m machine).2 = machine.after calls ∧
      ∀ path ∈ paths, ∃ call ∈ calls, call.written = some path

variable {paths : List GoString}

theorem Asks.writes (hm : Asks m value calls)
    (hpaths : ∀ path ∈ paths, ∃ call ∈ calls, call.written = some path) :
    Writes m paths := by
  intro machine h
  exact ⟨calls, by rw [hm machine h], hpaths⟩

theorem Writes.mono (hm : Writes m more) (hsub : fewer ⊆ more) : Writes m fewer := by
  intro machine h
  obtain ⟨calls, hrun, hpaths⟩ := hm machine h
  exact ⟨calls, hrun, fun path hmem => hpaths path (hsub hmem)⟩

theorem writes_nil_of_error (herror : ∀ machine, ∃ e, m machine = (.error e, machine)) :
    Writes (m >>= f) [] := by
  intro machine _
  obtain ⟨e, hrun⟩ := herror machine
  refine ⟨[], ?_, by simp⟩
  rw [GoM.bind_of_error hrun, after_nil]

theorem Writes.bind (hm : Asks m value calls)
    (hfirst : ∀ path ∈ first, ∃ call ∈ calls, call.written = some path)
    (hf : Writes (f value) rest) : Writes (m >>= f) (first ++ rest) := by
  intro machine h
  obtain ⟨more, hrun, hrest⟩ := hf _ (h.after calls)
  refine ⟨calls ++ more, ?_, ?_⟩
  · rw [GoM.bind_of_ok (hm machine h), hrun, after_after]
  · intro path hmem
    rcases List.mem_append.mp hmem with hmem | hmem
    · obtain ⟨call, hcall, hwritten⟩ := hfirst path hmem
      exact ⟨call, List.mem_append_left _ hcall, hwritten⟩
    · obtain ⟨call, hcall, hwritten⟩ := hrest path hmem
      exact ⟨call, List.mem_append_right _ hcall, hwritten⟩

theorem Writes.after (hf : Writes (f value) paths) (hm : Asks m value calls) :
    Writes (m >>= f) paths := by
  have hnone : ∀ path ∈ ([] : List GoString), ∃ call ∈ calls, call.written = some path := by
    simp
  exact Writes.bind hm hnone hf

theorem Writes.mapError {f : GoString → GoString}
    (hm : Writes m paths) : Writes (GoM.mapError f m) paths := by
  intro machine h
  obtain ⟨calls, hrun, hpaths⟩ := hm machine h
  refine ⟨calls, ?_, hpaths⟩
  rw [← hrun]
  unfold GoM.mapError
  rcases m machine with ⟨outcome, machine'⟩
  cases outcome <;> rfl

end

end Machine

end Go
