import Govc.GoStrings

/-!
# State, errors and panics of a Go call

A call returns a value or an error, panics, or never returns; what it had
written to its receiver stays written.  `GoM σ α` is that shape, and `attempt`
is the idiom `value, err := call()`.  `Triple` is partial correctness, with one
postcondition for a returned value and one for the other exits.
-/

namespace Go

inductive Outcome (α : Type) where
  | ok (value : α)
  | error (text : GoString)
  | panic (text : GoString)
  | diverge
  deriving DecidableEq

def Outcome.toOption {α : Type} : Outcome α → Option α
  | .ok a => some a
  | .error _ => none
  | .panic _ => none
  | .diverge => none

theorem Outcome.eq_ok_of_toOption {α : Type} {outcome : Outcome α} {a : α}
    (hreturned : outcome.toOption = some a) : outcome = .ok a := by
  cases outcome with
  | ok b => exact congrArg Outcome.ok (Option.some.inj hreturned)
  | _ => cases hreturned

namespace Outcome

variable {α γ : Type}

protected def bind : Outcome α → (α → Outcome γ) → Outcome γ
  | ok a, f => f a
  | error e, _ => error e
  | panic e, _ => panic e
  | diverge, _ => diverge

instance : Monad Outcome where
  pure := ok
  bind := Outcome.bind

@[simp] theorem ok_bind (a : α) (f : α → Outcome γ) : (ok a >>= f) = f a := rfl

@[simp] theorem panic_bind (e : GoString) (f : α → Outcome γ) : (panic e >>= f) = panic e := rfl

theorem ok_of_bind (hrun : (m >>= f) = ok b) : ∃ a, m = ok a ∧ f a = ok b := by
  cases m with
  | ok a => exact ⟨a, rfl, hrun⟩
  | _ => cases hrun

def ofExcept : Except GoString α → Outcome α
  | .ok a => ok a
  | .error e => error e

end Outcome

/-- The sum of two `int`s. -/
def intAdd (a b : ℤ) : ℤ := (a + b).bmod (2 ^ 64)

theorem intAdd_of_lt (hlow : 0 ≤ a + b) (hhigh : a + b < 2 ^ 63) : intAdd a b = a + b :=
  Int.bmod_eq_of_le (by omega) (by omega)

/-- The slice expression `s[low:high]`. -/
def slice {α : Type} (s : List α) (low high : ℤ) : Outcome (List α) :=
  if 0 ≤ low ∧ low ≤ high ∧ high ≤ s.length then .ok (s.extract low.toNat high.toNat)
  else .panic (str "runtime error: slice bounds out of range")

theorem slice_of_le {α : Type} {s : List α} {low high : ℤ}
    (hbounds : 0 ≤ low ∧ low ≤ high ∧ high ≤ s.length) :
    slice s low high = .ok (s.extract low.toNat high.toNat) :=
  if_pos hbounds

theorem slice_eq_ok {α : Type} {s part : List α} {low high : ℤ}
    (hslice : slice s low high = .ok part) :
    0 ≤ low ∧ low ≤ high ∧ high ≤ s.length ∧ part = s.extract low.toNat high.toNat := by
  unfold slice at hslice
  split_ifs at hslice with hbounds
  exact ⟨hbounds.1, hbounds.2.1, hbounds.2.2, (Outcome.ok.inj hslice).symm⟩

/-- A call on a receiver of type `σ`. -/
def GoM (σ α : Type) : Type := σ → Outcome α × σ

namespace GoM

variable {σ τ α γ : Type}

protected def pure (a : α) : GoM σ α := fun s => (.ok a, s)

protected def bind (m : GoM σ α) (f : α → GoM σ γ) : GoM σ γ := fun s =>
    match m s with
    | (.ok a, s') => f a s'
    | (.error e, s') => (.error e, s')
    | (.panic e, s') => (.panic e, s')
    | (.diverge, s') => (.diverge, s')

instance : Monad (GoM σ) where
  pure := GoM.pure
  bind := GoM.bind

def fail (text : GoString) : GoM σ α := fun s => (.error text, s)

def crash (text : GoString) : GoM σ α := fun s => (.panic text, s)

def diverge : GoM σ α := fun s => (.diverge, s)

def view (f : σ → α) : GoM σ α := fun s => (.ok (f s), s)

def update (f : σ → σ) : GoM σ Unit := fun s => (.ok (), f s)

def ofExcept : Except GoString α → GoM σ α
  | .ok a => fun s => (.ok a, s)
  | .error e => fun s => (.error e, s)

def inspect (f : σ → Outcome α) : GoM σ α := fun s => (f s, s)

def query (f : σ → Except GoString α) : GoM σ α := fun s => ofExcept (f s) s

/-- The pair `value, err := m()`. -/
def attempt (m : GoM σ α) : GoM σ (Except GoString α) := fun s =>
    match m s with
    | (.ok a, s') => (.ok (.ok a), s')
    | (.error e, s') => (.ok (.error e), s')
    | (.panic e, s') => (.panic e, s')
    | (.diverge, s') => (.diverge, s')

/-- Rewrite the text of every error of `m`, as `fmt.Errorf` around it does. -/
def mapError (f : GoString → GoString) (m : GoM σ α) : GoM σ α := fun s =>
    match m s with
    | (.ok a, s') => (.ok a, s')
    | (.error e, s') => (.error (f e), s')
    | (.panic e, s') => (.panic e, s')
    | (.diverge, s') => (.diverge, s')

/-- The outcome of a call after its deferred clean-up has run; an error of
the clean-up is dropped. -/
def afterCleanup (outcome : Outcome α) : Outcome Unit × σ → Outcome α × σ
  | (.ok _, s) => (outcome, s)
  | (.error _, s) => (outcome, s)
  | (.panic e, s) => (.panic e, s)
  | (.diverge, s) => (.diverge, s)

/-- `defer cleanup()` around `m`. -/
def deferring (cleanup : GoM σ Unit) (m : GoM σ α) : GoM σ α := fun s =>
    match m s with
    | (.ok a, s') => afterCleanup (.ok a) (cleanup s')
    | (.error e, s') => afterCleanup (.error e) (cleanup s')
    | (.panic e, s') => afterCleanup (.panic e) (cleanup s')
    | (.diverge, s') => (.diverge, s')

def zoom (get : σ → τ) (set : σ → τ → σ) (m : GoM τ α) : GoM σ α :=
  fun s => ((m (get s)).1, set s (m (get s)).2)

/-- A `range` loop whose body may return an error. -/
def forEach : List α → (α → GoM σ Unit) → GoM σ Unit
  | [], _ => GoM.pure ()
  | a :: rest, body => GoM.bind (body a) fun _ => forEach rest body

@[simp] theorem pure_apply (a : α) (s : σ) : (pure a : GoM σ α) s = (.ok a, s) := rfl

theorem bind_apply (m : GoM σ α) (f : α → GoM σ γ) (s : σ) :
    (m >>= f) s =
      match m s with
      | (.ok a, s') => f a s'
      | (.error e, s') => (.error e, s')
      | (.panic e, s') => (.panic e, s')
      | (.diverge, s') => (.diverge, s') := rfl

variable {m : GoM σ α} {f : α → GoM σ γ} {s s' : σ}

theorem bind_of_ok (hm : m s = (.ok a, s')) : (m >>= f) s = f a s' := by
  rw [bind_apply, hm]

theorem snd_bind_pure (m : GoM σ α) (b : γ) (s : σ) : ((m >>= fun _ => pure b) s).2 = (m s).2 := by
  rw [bind_apply]
  rcases m s with ⟨outcome, s'⟩
  cases outcome <;> rfl

theorem bind_of_error (hrun : m s = (.error e, s')) : (m >>= f) s = (.error e, s') := by
  rw [bind_apply, hrun]

theorem bind_of_not_ok (hbad : ∀ a, (m s).1 ≠ .ok a) :
    (∀ c, ((m >>= f) s).1 ≠ .ok c) ∧ ((m >>= f) s).2 = (m s).2 := by
  rw [bind_apply]
  rcases hrun : m s with ⟨outcome, s'⟩
  rw [hrun] at hbad
  cases outcome with
  | ok a => exact absurd rfl (hbad a)
  | _ => exact ⟨fun _ h => (nomatch h), rfl⟩

@[simp] theorem fail_apply (text : GoString) (s : σ) :
    (fail text : GoM σ α) s = (.error text, s) := rfl

@[simp] theorem crash_apply (text : GoString) (s : σ) :
    (crash text : GoM σ α) s = (.panic text, s) := rfl

@[simp] theorem diverge_apply (s : σ) : (diverge : GoM σ α) s = (.diverge, s) := rfl

@[simp] theorem view_apply {f : σ → α} {s : σ} : view f s = (.ok (f s), s) := rfl

@[simp] theorem inspect_apply (f : σ → Outcome α) (s : σ) : inspect f s = (f s, s) := rfl

@[simp] theorem update_apply (f : σ → σ) (s : σ) : update f s = (.ok (), f s) := rfl

@[simp] theorem ofExcept_ok (a : α) (s : σ) :
    ofExcept (.ok a : Except GoString α) s = (.ok a, s) := rfl

@[simp] theorem ofExcept_error (e : GoString) (s : σ) :
    ofExcept (.error e : Except GoString α) s = (.error e, s) := rfl

theorem query_apply (f : σ → Except GoString α) (s : σ) : query f s = ofExcept (f s) s := rfl

theorem afterCleanup_snd {result : Outcome Unit × σ} :
    (afterCleanup outcome result).2 = result.2 := by
  obtain ⟨cleaned, s⟩ := result
  cases cleaned <;> rfl

theorem deferring_snd :
    (deferring cleanup m s).2 = (m s).2 ∨ (deferring cleanup m s).2 = (cleanup (m s).2).2 := by
  unfold deferring
  rcases m s with ⟨outcome, s'⟩
  cases outcome with
  | diverge => exact .inl rfl
  | _ => exact .inr (afterCleanup_snd)

theorem attempt_of_ok (hm : m s = (.ok a, s')) : attempt m s = (.ok (.ok a), s') := by
  simp [attempt, hm]

theorem attempt_of_error (hm : m s = (.error e, s')) : attempt m s = (.ok (.error e), s') := by
  simp [attempt, hm]

theorem zoom_apply (get : σ → τ) (set : σ → τ → σ) (m : GoM τ α) (s : σ) :
    zoom get set m s = ((m (get s)).1, set s (m (get s)).2) := rfl

theorem bind_eq_ok (hrun : (m >>= f) s = (.ok c, s'')) :
    ∃ a s', m s = (.ok a, s') ∧ f a s' = (.ok c, s'') := by
  rw [bind_apply] at hrun
  rcases hm : m s with ⟨outcome, s'⟩
  cases outcome with
  | ok a =>
    rw [hm] at hrun
    exact ⟨a, s', rfl, hrun⟩
  | _ => simp [hm] at hrun

theorem mapError_eq_ok (hrun : mapError g m s = (.ok a, s')) : m s = (.ok a, s') := by
  unfold mapError at hrun
  rcases hm : m s with ⟨outcome, mid⟩
  cases outcome <;> simp_all

theorem query_eq_ok (hrun : query g s = (.ok a, s')) : g s = .ok a ∧ s = s' := by
  rw [query_apply] at hrun
  cases hg : g s <;> simp_all

theorem deferring_eq_ok (hrun : deferring cleanup m s = (.ok a, s')) :
    ∃ mid, m s = (.ok a, mid) ∧ (cleanup mid).2 = s' := by
  unfold deferring at hrun
  rcases hm : m s with ⟨outcome, mid⟩
  rcases hc : cleanup mid with ⟨cleaned, last⟩
  cases outcome <;> cases cleaned <;> simp_all [afterCleanup]

/-! ## Partial correctness -/

/-- From `P`, a returned value satisfies `Q` and every abnormal exit leaves
`E`. -/
def Triple (P : σ → Prop) (m : GoM σ α) (Q : α → σ → Prop) (E : σ → Prop) : Prop :=
  ∀ s, P s → (∀ a, (m s).1 = .ok a → Q a (m s).2) ∧ ((∀ a, (m s).1 ≠ .ok a) → E (m s).2)

namespace Triple

variable {P P' E : σ → Prop} {m : GoM σ α} {Q Q' : α → σ → Prop}

variable {I : σ → Prop}

theorem exit (hm : Triple P m (fun _ => I) I) (hs : P s) : I (m s).2 := by
  by_cases hreturned : ∃ a, (m s).1 = .ok a
  · obtain ⟨a, ha⟩ := hreturned
    exact (hm s hs).1 a ha
  · exact (hm s hs).2 (fun a ha => hreturned ⟨a, ha⟩)

theorem pure (h : ∀ s, P s → Q a s) : Triple P (Pure.pure a : GoM σ α) Q E := by
  intro s hs
  refine ⟨?_, ?_⟩
  · intro b hb
    simp only [pure_apply, Outcome.ok.injEq] at hb ⊢
    exact hb ▸ h s hs
  · intro hne
    exact absurd rfl (hne a)

theorem bind {R : α → σ → Prop} {f : α → GoM σ γ} {Q : γ → σ → Prop}
    (hm : Triple P m R E) (hf : ∀ a, Triple (R a) (f a) Q E) :
    Triple P (m >>= f) Q E := by
  intro s hs
  rcases hm s hs with ⟨hok, hbad⟩
  rw [bind_apply]
  rcases hrun : m s with ⟨outcome, s'⟩
  rw [hrun] at hok hbad
  cases outcome with
  | ok a => exact hf a s' (hok a rfl)
  | _ =>
    refine ⟨fun c hc => by simp at hc, fun _ => ?_⟩
    exact hbad (fun a ha => by simp at ha)

theorem fail (h : ∀ s, P s → E s) : Triple P (GoM.fail text : GoM σ α) Q E := by
  intro s hs
  exact ⟨fun a ha => by simp at ha, fun _ => h s hs⟩

theorem crash (h : ∀ s, P s → E s) : Triple P (GoM.crash text : GoM σ α) Q E := by
  intro s hs
  exact ⟨fun a ha => by simp at ha, fun _ => h s hs⟩

theorem diverge (h : ∀ s, P s → E s) : Triple P (GoM.diverge : GoM σ α) Q E := by
  intro s hs
  exact ⟨fun a ha => by simp at ha, fun _ => h s hs⟩

theorem view {f : σ → α} (h : ∀ s, P s → Q (f s) s) :
    Triple P (GoM.view f) Q E := by
  intro s hs
  refine ⟨?_, ?_⟩
  · intro b hb
    simp only [view_apply, Outcome.ok.injEq] at hb ⊢
    exact hb ▸ h s hs
  · intro hne
    exact absurd rfl (hne (f s))

theorem ofExcept (hok : ∀ a s, result = .ok a → P s → Q a s) (hbad : ∀ s, P s → E s) :
    Triple P (GoM.ofExcept result) Q E := by
  intro s hs
  cases result with
  | ok a =>
    refine ⟨?_, fun hne => absurd rfl (hne a)⟩
    intro b hb
    simp only [ofExcept_ok, Outcome.ok.injEq] at hb ⊢
    exact hb ▸ hok a s rfl hs
  | error e => exact ⟨fun a ha => by simp at ha, fun _ => hbad s hs⟩

theorem query {f : σ → Except GoString α}
    (hok : ∀ a s, f s = .ok a → P s → Q a s) (hbad : ∀ s, P s → E s) :
    Triple P (GoM.query f) Q E := by
  intro s hs
  have hread : Triple (fun t => t = s) (GoM.ofExcept (f s)) Q E := by
    apply Triple.ofExcept
    · intro a t ha ht
      subst ht
      exact hok a t ha hs
    · intro t ht
      subst ht
      exact hbad t hs
  exact hread s rfl

theorem update {f : σ → σ} {Q : Unit → σ → Prop} (h : ∀ s, P s → Q () (f s)) :
    Triple P (GoM.update f) Q E := by
  intro s hs
  refine ⟨fun _ _ => h s hs, ?_⟩
  intro hne
  exact absurd rfl (hne ())

theorem attempt {Q : Except GoString α → σ → Prop}
    (hm : Triple P m (fun a => Q (.ok a)) E)
    (herror : ∀ e s, E s → Q (.error e) s) : Triple P (GoM.attempt m) Q E := by
  intro s hs
  rcases hm s hs with ⟨hok, hbad⟩
  unfold GoM.attempt
  rcases hrun : m s with ⟨outcome, s'⟩
  rw [hrun] at hok hbad
  cases outcome with
  | ok a =>
    refine ⟨?_, fun hne => absurd rfl (hne (.ok a))⟩
    intro b hb
    simp only [Outcome.ok.injEq] at hb
    exact hb ▸ hok a rfl
  | error e =>
    refine ⟨?_, fun hne => absurd rfl (hne (.error e))⟩
    intro b hb
    simp only [Outcome.ok.injEq] at hb
    exact hb ▸ herror e s' (hbad (fun a ha => by simp at ha))
  | _ =>
    refine ⟨fun b hb => by simp at hb, fun _ => ?_⟩
    exact hbad (fun a ha => by simp at ha)

theorem mapError {f : GoString → GoString} (hm : Triple P m Q E) :
    Triple P (GoM.mapError f m) Q E := by
  intro s hs
  rcases hm s hs with ⟨hok, hbad⟩
  unfold GoM.mapError
  rcases hrun : m s with ⟨outcome, s'⟩
  rw [hrun] at hok hbad
  cases outcome with
  | ok a => exact ⟨hok, fun hne => absurd rfl (hne a)⟩
  | _ =>
    refine ⟨fun b hb => by simp at hb, fun _ => ?_⟩
    exact hbad (fun a ha => by simp at ha)

theorem consequence (hm : Triple P m Q E) (hpre : ∀ s, P' s → P s) (hpost : ∀ a s, Q a s → Q' a s) :
    Triple P' m Q' E := by
  intro s hs
  rcases hm s (hpre s hs) with ⟨hok, hbad⟩
  exact ⟨fun a ha => hpost a _ (hok a ha), hbad⟩

theorem weaken (hm : Triple P m Q E) (hexit : ∀ s, E s → E' s) : Triple P m Q E' := by
  intro s hs
  rcases hm s hs with ⟨hok, hbad⟩
  exact ⟨hok, fun hne => hexit _ (hbad hne)⟩

theorem ite [Decidable c] (hm : c → Triple P m Q E) (hn : ¬ c → Triple P n Q E) :
    Triple P (if c then m else n) Q E := by
  split_ifs with hc
  · exact hm hc
  · exact hn hc

theorem deferring (hm : Triple P m (fun _ => I) I) (hcleanup : Triple I cleanup (fun _ => I) I) :
    Triple P (GoM.deferring cleanup m) (fun _ => I) I := by
  intro s hs
  have hafter : I (m s).2 := hm.exit hs
  have hcleaned : I (cleanup (m s).2).2 := hcleanup.exit hafter
  have hfinal : I (GoM.deferring cleanup m s).2 := by
    rcases deferring_snd with heq | heq
    · rw [heq]
      exact hafter
    · rw [heq]
      exact hcleaned
  exact ⟨fun _ _ => hfinal, fun _ => hfinal⟩

variable {items : List α}

theorem forEach (hbody : ∀ a ∈ items, Triple I (body a) (fun _ => I) E) :
    Triple I (GoM.forEach items body) (fun _ => I) E := by
  induction items with
  | nil => exact Triple.pure (fun s hs => hs)
  | cons a rest ih =>
    have hhead := hbody a (by simp)
    have hrest := ih (fun b hb => hbody b (List.mem_cons_of_mem a hb))
    exact Triple.bind hhead (fun _ => hrest)

/-- The simulation rule: where each pass returns and does to what is seen what
`step` does, so does the loop. -/
theorem forEach_simulates {τ : Type} {view : σ → τ} {step : τ → α → τ}
    (hbody : ∀ a ∈ items, ∀ s, I s →
      ∃ s', body a s = (.ok (), s') ∧ I s' ∧ view s' = step (view s) a)
    (hs : I s) :
    ∃ s', GoM.forEach items body s = (.ok (), s') ∧ I s' ∧ view s' = items.foldl step (view s) := by
  induction items generalizing s with
  | nil => exact ⟨s, rfl, hs, rfl⟩
  | cons a rest ih =>
    obtain ⟨middle, hrun, hmiddle, hview⟩ := hbody a (by simp) s hs
    have hrest : ∀ b ∈ rest, ∀ s, I s →
        ∃ s', body b s = (.ok (), s') ∧ I s' ∧ view s' = step (view s) b :=
      fun b hb => hbody b (List.mem_cons_of_mem a hb)
    obtain ⟨last, hloop, hlast, hend⟩ := ih hrest hmiddle
    refine ⟨last, ?_, hlast, ?_⟩
    · change (body a >>= fun _ => GoM.forEach rest body) s = _
      rw [bind_of_ok hrun]
      exact hloop
    · rw [hend, hview, List.foldl_cons]

theorem foldlM (hbody : ∀ c, ∀ a ∈ items, Triple I (body c a) (fun _ => I) E) (first : γ) :
    Triple I (items.foldlM body first) (fun _ => I) E := by
  induction items generalizing first with
  | nil => exact Triple.pure (fun s hs => hs)
  | cons a rest ih =>
    apply Triple.bind (hbody first a (by simp))
    apply ih
    intro c' b hb
    exact hbody c' b (List.mem_cons_of_mem a hb)

end Triple

end GoM

end Go
