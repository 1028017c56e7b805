import Govc.GoEffects
import Govc.GoMaps
import Govc.GuardedRuns

/-!
# The delta store

An object is stored whole, as a base object, or as a delta against one.  A hash
that is held as a base object can be stored again and become a delta too, against
itself in the worst case; then whatever was built on it may be built on a loop.
Runs without such calls return every object.

The coder is any correct one, and the selection may pick any base object.  An
entry is named by its place in `entries`, and its access count is kept apart.
Statistics are left out.
-/

namespace Govc

open Go GoMap

structure DeltaAlgorithm where
  createDelta : Bytes → Bytes → Except GoString Bytes
  applyDelta : Bytes → Bytes → Except GoString Bytes
  correct : ∀ base target, ∃ deltaData,
    createDelta base target = .ok deltaData ∧ applyDelta base deltaData = .ok target

structure DeltaEntry where
  hash : GoString
  baseHash : GoString
  deltaData : Bytes
  chainDepth : ℕ

structure DeltaChain where
  deltas : List ℕ
  chainLength : ℕ
  lastAccess : ℤ

structure DeltaCompression where
  entries : List DeltaEntry
  accessCount : ℕ → ℤ
  deltas : GoMap GoString ℕ
  baseObjects : GoMap GoString Bytes
  deltaChains : GoMap GoString DeltaChain

structure BaseSelection where
  select : DeltaCompression → Bytes → GoString × Bytes
  candidate : ∀ dc data, (select dc data).1 ≠ [] →
    dc.baseObjects.lookup (select dc data).1 = some (select dc data).2

namespace DeltaCompression

def maxDeltaChainLength : ℕ := 10

def new : DeltaCompression where
  entries := []
  accessCount := fun _ => 0
  deltas := ∅
  baseObjects := ∅
  deltaChains := ∅

def lookupEntry (dc : DeltaCompression) (hash : GoString) : Option DeltaEntry :=
  (dc.deltas.lookup hash).bind (dc.entries[·]?)

def getChainDepth (dc : DeltaCompression) (hash : GoString) : ℕ :=
  match dc.lookupEntry hash with
  | some entry => entry.chainDepth
  | none => 0

def addToChain (dc : DeltaCompression) (now : ℤ) (baseHash : GoString)
    (entry : ℕ) : DeltaCompression :=
  let chain := (dc.deltaChains.lookup baseHash).getD ⟨[], 0, now⟩
  { dc with
    deltaChains := dc.deltaChains.insert baseHash
      { deltas := chain.deltas ++ [entry]
        chainLength := chain.chainLength + 1
        lastAccess := now } }

def countAccess (dc : DeltaCompression) (entry : ℕ) : DeltaCompression := { dc with
    accessCount := Function.update dc.accessCount entry (dc.accessCount entry + 1) }

def storeBase (dc : DeltaCompression) (hash : GoString) (data : Bytes) : DeltaCompression :=
  { dc with baseObjects := dc.baseObjects.insert hash data }

def storeDelta (dc : DeltaCompression) (now : ℤ) (entry : DeltaEntry) : DeltaCompression :=
  ({ dc with
    entries := dc.entries ++ [entry]
    accessCount := Function.update dc.accessCount dc.entries.length 1
    deltas := dc.deltas.insert entry.hash dc.entries.length }).addToChain now
      entry.baseHash dc.entries.length

/-- `float64(len(deltaData)) / float64(len(data)) > 0.5`; no data gives an
infinite ratio, or no number at all if the delta is empty too. -/
def notBeneficial (deltaData data : Bytes) : Bool :=
  if data.length = 0 then decide (0 < deltaData.length)
  else decide (data.length < 2 * deltaData.length)

def storeWithDelta (coder : DeltaAlgorithm) (selection : BaseSelection)
    (now : ℤ) (hash : GoString) (data : Bytes) :
    GoM DeltaCompression Bool := fun dc =>
  match dc.deltas.lookup hash with
  | some entry => (.ok true, dc.countAccess entry)
  | none =>
    let (baseHash, baseData) := selection.select dc data
    if baseHash = [] then (.ok false, dc.storeBase hash data)
    else
      match coder.createDelta baseData data with
      | .error e => (.error (str "failed to create delta: " ++ e), dc)
      | .ok deltaData =>
        let chainDepth := dc.getChainDepth baseHash + 1
        if notBeneficial deltaData data then
          (.ok false, dc.storeBase hash data)
        else if chainDepth > maxDeltaChainLength then
          (.ok false, dc.storeBase hash data)
        else
          (.ok true, dc.storeDelta now ⟨hash, baseHash, deltaData, chainDepth⟩)

def ofExcept : Except GoString Bytes → Outcome Bytes
  | .ok data => .ok data
  | .error e => .error e

/-- The recursion over base hashes; it diverges when it has not ended within
the fuel. -/
def reconstructFromDelta (coder : DeltaAlgorithm) (dc : DeltaCompression) :
    ℕ → DeltaEntry → Outcome Bytes
  | 0, _ => .diverge
  | fuel + 1, entry => do
    let baseData ←
      match dc.lookupEntry entry.baseHash with
      | some baseEntry => reconstructFromDelta coder dc fuel baseEntry
      | none =>
        match dc.baseObjects.lookup entry.baseHash with
        | some data => .ok data
        | none =>
          .error (str "base object not found: " ++ entry.baseHash)
    ofExcept (coder.applyDelta baseData entry.deltaData)

def touchChain (dc : DeltaCompression) (now : ℤ) (baseHash : GoString) : DeltaCompression :=
  match dc.deltaChains.lookup baseHash with
  | none => dc
  | some chain =>
    { dc with
      deltaChains := dc.deltaChains.insert baseHash { chain with lastAccess := now } }

def getWithDelta (coder : DeltaAlgorithm) (fuel : ℕ) (now : ℤ)
    (hash : GoString) : GoM DeltaCompression (Bytes × Bool) := fun dc =>
  match dc.baseObjects.lookup hash with
  | some data => (.ok (data, false), dc)
  | none =>
    match dc.deltas.lookup hash, dc.lookupEntry hash with
    | some pointer, some entry =>
      match reconstructFromDelta coder dc fuel entry with
      | .ok data =>
        (.ok (data, true), (dc.countAccess pointer).touchChain now entry.baseHash)
      | .error e =>
        (.error (str "failed to reconstruct delta: " ++ e), dc)
      | .panic e => (.panic e, dc)
      | .diverge => (.diverge, dc)
    | _, _ => (.error (str "object not found: " ++ hash), dc)

def promote (dc : DeltaCompression) (hash : GoString) (data : Bytes) : DeltaCompression := { dc with
    baseObjects := dc.baseObjects.insert hash data
    deltas := dc.deltas.erase hash }

def optimizeEntry (coder : DeltaAlgorithm) (fuel : ℕ) (pointer : ℕ) :
    GoM DeltaCompression Unit := fun dc =>
  match dc.entries[pointer]? with
  | none => (.ok (), dc)
  | some entry =>
    if dc.accessCount pointer > 10 then
      match reconstructFromDelta coder dc fuel entry with
      | .ok data => (.ok (), dc.promote entry.hash data)
      | .error _ => (.ok (), dc)
      | .panic e => (.panic e, dc)
      | .diverge => (.diverge, dc)
    else (.ok (), dc)

def day : ℤ := 24 * 60 * 60 * 1000000000

def optimizeChain (coder : DeltaAlgorithm) (fuel : ℕ) (now : ℤ)
    (chain : DeltaChain) : GoM DeltaCompression Unit :=
  if chain.chainLength > maxDeltaChainLength ∨ now - chain.lastAccess > day then
    GoM.forEach chain.deltas (optimizeEntry coder fuel)
  else GoM.pure ()

def optimizeChains (coder : DeltaAlgorithm) (fuel : ℕ) (now : ℤ)
    (order : RangeOrder) : GoM DeltaCompression Unit := fun dc =>
  GoM.forEach ((dc.deltaChains.range order).map Prod.snd) (optimizeChain coder fuel now) dc

end DeltaCompression

/-! ## Runs -/

structure DeltaRun where
  dc : DeltaCompression
  stored : GoMap GoString Bytes

inductive DeltaCall where
  | store (selection : BaseSelection) (now : ℤ) (hash : GoString)
      (data : Bytes)
  | get (now : ℤ) (hash : GoString)
  | optimize (now : ℤ) (order : RangeOrder)

/-- A hash always comes with the same data; only calls that return are
steps. -/
def DeltaRun.Step (coder : DeltaAlgorithm) (state : DeltaRun) : DeltaCall → DeltaRun → Prop
  | .store selection now hash data, after =>
    (∀ old ∈ state.stored.lookup hash, old = data) ∧
      ∃ held, DeltaCompression.storeWithDelta coder selection now hash data
          state.dc = (.ok held, after.dc) ∧
        after.stored = state.stored.insert hash data
  | .get now hash, after =>
    (∃ fuel outcome, DeltaCompression.getWithDelta coder fuel now hash
        state.dc = (outcome, after.dc) ∧ outcome ≠ .diverge) ∧
      after.stored = state.stored
  | .optimize now order, after =>
    (∃ fuel, DeltaCompression.optimizeChains coder fuel now order state.dc = (.ok (), after.dc)) ∧
      after.stored = state.stored

def deltaSystem (coder : DeltaAlgorithm) : Runs.System DeltaRun DeltaCall where
  init state := state = ⟨.new, ∅⟩
  step state call after := state.Step coder call after

/-- Every stored hash is read in finitely many steps, and with its data. -/
def DeltaRun.ReturnsStored (coder : DeltaAlgorithm) (state : DeltaRun) : Prop :=
  ∀ hash data, state.stored.lookup hash = some data → ∀ now,
    ∃ enough, ∀ fuel ≥ enough, ∃ fromDelta after,
      DeltaCompression.getWithDelta coder fuel now hash state.dc = (.ok (data, fromDelta), after)

/-- `hash` is `target`, or a delta whose base is built on it. -/
inductive DeltaCompression.BuiltOn (dc : DeltaCompression) :
    GoString → GoString → Prop where
  | refl (hash : GoString) : BuiltOn dc hash hash
  | step {hash target : GoString} {entry : DeltaEntry} :
      dc.lookupEntry hash = some entry →
      BuiltOn dc entry.baseHash target → BuiltOn dc hash target

/-- A base object that is not a delta is stored again only against a base that
is not built on it. -/
def notLooping (state : DeltaRun) : DeltaCall → Prop
  | .store selection _ hash data =>
    state.dc.deltas.lookup hash = none →
    (state.dc.baseObjects.lookup hash).isSome = true →
    (selection.select state.dc data).1 ≠ [] →
    ¬ state.dc.BuiltOn (selection.select state.dc data).1 hash
  | _ => True

namespace DeltaCompression

variable {coder : DeltaAlgorithm} {dc after : DeltaCompression}
  {hash other : GoString} {data : Bytes}

/-- Following the bases from `hash`, deltas first, ends and gives `data`. -/
inductive Resolves (coder : DeltaAlgorithm) (dc : DeltaCompression) :
    GoString → Bytes → Prop where
  | base {hash : GoString} {data : Bytes} :
      dc.lookupEntry hash = none →
      dc.baseObjects.lookup hash = some data → Resolves coder dc hash data
  | delta {hash : GoString} {entry : DeltaEntry} {baseData data : Bytes} :
      dc.lookupEntry hash = some entry →
      Resolves coder dc entry.baseHash baseData →
      coder.applyDelta baseData entry.deltaData = .ok data →
      Resolves coder dc hash data

theorem Resolves.unique (hfirst : Resolves coder dc hash first)
    (hsecond : Resolves coder dc hash second) : first = second := by
  induction hfirst generalizing second with
  | base hentry hbase =>
    cases hsecond with
    | base _ hother =>
      rw [hbase] at hother
      exact Option.some.inj hother
    | delta hother => rw [hentry] at hother; cases hother
  | delta hentry _ happly ih =>
    cases hsecond with
    | base hother => rw [hentry] at hother; cases hother
    | delta hother hbase hresult =>
      rw [hentry] at hother
      cases hother
      rw [ih hbase, hresult] at happly
      exact (Except.ok.inj happly).symm

theorem Resolves.of_same (hlookup : after.lookupEntry = dc.lookupEntry)
    (hbase : after.baseObjects = dc.baseObjects)
    (hresolves : Resolves coder dc hash data) :
    Resolves coder after hash data := by
  induction hresolves with
  | base hnone hheld =>
    exact .base (by rw [hlookup, hnone]) (by rw [hbase, hheld])
  | delta hentry _ happly ih =>
    exact .delta (by rw [hlookup, hentry]) ih happly

variable {entry : DeltaEntry} {baseData : Bytes}

theorem reconstruct_of_base (hnone : dc.lookupEntry entry.baseHash = none)
    (hheld : dc.baseObjects.lookup entry.baseHash = some baseData) :
    reconstructFromDelta coder dc (fuel + 1) entry =
      ofExcept (coder.applyDelta baseData entry.deltaData) := by
  simp only [reconstructFromDelta, hnone]
  rw [hheld]
  rfl

theorem reconstruct_of_delta (hentry : dc.lookupEntry entry.baseHash = some baseEntry) :
    reconstructFromDelta coder dc (fuel + 1) entry =
      (reconstructFromDelta coder dc fuel baseEntry >>= fun baseData =>
        ofExcept (coder.applyDelta baseData entry.deltaData)) := by
  simp only [reconstructFromDelta, hentry]

theorem reconstruct_of_resolves (hbase : Resolves coder dc entry.baseHash baseData)
    (happly : coder.applyDelta baseData entry.deltaData = .ok data) :
    ∃ enough, ∀ fuel ≥ enough, reconstructFromDelta coder dc fuel entry = .ok data := by
  generalize hname : entry.baseHash = baseHash at hbase
  induction hbase generalizing entry data with
  | base hnone hheld =>
    subst hname
    refine ⟨1, fun fuel hfuel => ?_⟩
    obtain ⟨less, rfl⟩ : ∃ less, fuel = less + 1 := ⟨fuel - 1, by omega⟩
    rw [reconstruct_of_base hnone hheld, happly]
    rfl
  | delta hentry _ hinner ih =>
    subst hname
    obtain ⟨enough, hrec⟩ := ih hinner rfl
    refine ⟨enough + 1, fun fuel hfuel => ?_⟩
    obtain ⟨less, rfl⟩ : ∃ less, fuel = less + 1 := ⟨fuel - 1, by omega⟩
    rw [reconstruct_of_delta hentry, hrec less (by omega), Outcome.ok_bind, happly]
    rfl

theorem reconstruct_ok_eq (hbase : Resolves coder dc entry.baseHash baseData)
    (happly : coder.applyDelta baseData entry.deltaData = .ok data)
    (hrun : reconstructFromDelta coder dc fuel entry = .ok result) :
    result = data := by
  generalize hname : entry.baseHash = baseHash at hbase
  induction hbase generalizing entry data result fuel with
  | base hnone hheld =>
    subst hname
    cases fuel with
    | zero => cases hrun
    | succ less =>
      rw [reconstruct_of_base hnone hheld, happly] at hrun
      exact (Outcome.ok.inj hrun).symm
  | delta hentry _ hinner ih =>
    subst hname
    cases fuel with
    | zero => cases hrun
    | succ less =>
      rw [reconstruct_of_delta hentry] at hrun
      obtain ⟨inner, hread, hrest⟩ := Outcome.ok_of_bind hrun
      rw [ih hinner hread rfl, happly] at hrest
      exact (Outcome.ok.inj hrest).symm

theorem Resolves.of_builtOn (hbuilt : dc.BuiltOn other hash)
    (hresolves : Resolves coder dc other data) :
    ∃ target, Resolves coder dc hash target := by
  induction hbuilt generalizing data with
  | refl => exact ⟨data, hresolves⟩
  | step hentry _ ih =>
    cases hresolves with
    | base hnone => rw [hentry] at hnone; cases hnone
    | delta hother hbase =>
      rw [hentry] at hother
      cases hother
      exact ih hbase

structure SameExcept (dc after : DeltaCompression) (hash : GoString) : Prop where
  entry : ∀ other, other ≠ hash → after.lookupEntry other = dc.lookupEntry other
  baseObject : ∀ other, other ≠ hash → after.baseObjects.lookup other = dc.baseObjects.lookup other

/-- What does not rest on the changed hash resolves as before, and so does the
rest if the hash itself does. -/
theorem Resolves.of_sameExcept (hsame : SameExcept dc after hash)
    (hhash : dc.BuiltOn other hash → ∀ old, Resolves coder dc hash old →
      Resolves coder after hash old)
    (hresolves : Resolves coder dc other data) :
    Resolves coder after other data := by
  induction hresolves with
  | @base other _ hnone hbase =>
    by_cases heq : other = hash
    · subst heq
      exact hhash (.refl _) _ (.base hnone hbase)
    · exact .base ((hsame.entry other heq).trans hnone) ((hsame.baseObject other heq).trans hbase)
  | @delta other entry _ _ hentry hinner happly ih =>
    by_cases heq : other = hash
    · subst heq
      exact hhash (.refl _) _ (.delta hentry hinner happly)
    · exact .delta ((hsame.entry other heq).trans hentry)
        (ih fun hbuilt => hhash (.step hentry hbuilt)) happly

end DeltaCompression

namespace DeltaRun

variable {coder : DeltaAlgorithm} {dc after : DeltaCompression}
  {stored : GoMap GoString Bytes}

/-- Every stored object resolves to its data; base objects and the recorded
deltas hold what was stored. -/
structure Coherent (coder : DeltaAlgorithm) (dc : DeltaCompression)
    (stored : GoMap GoString Bytes) : Prop where
  resolves : ∀ hash data, stored.lookup hash = some data → dc.Resolves coder hash data
  baseObject : ∀ hash data, dc.baseObjects.lookup hash = some data → stored.lookup hash = some data
  recorded : ∀ entry ∈ dc.entries, ∃ baseData data,
    stored.lookup entry.baseHash = some baseData ∧ stored.lookup entry.hash = some data ∧
      coder.applyDelta baseData entry.deltaData = .ok data
  pointer : ∀ hash place, dc.deltas.lookup hash = some place →
    ∃ entry, dc.entries[place]? = some entry ∧ entry.hash = hash

namespace Coherent

section

variable (hcoherent : Coherent coder dc stored)

include hcoherent

theorem returnsStored : ReturnsStored coder ⟨dc, stored⟩ := by
  intro hash data hstored now
  have hresolves := hcoherent.resolves hash data hstored
  cases hheld : dc.baseObjects.lookup hash with
  | some baseData =>
    have hbase := hcoherent.baseObject hash baseData hheld
    rw [hstored] at hbase
    cases hbase
    refine ⟨0, fun fuel _ => ⟨false, dc, ?_⟩⟩
    simp only [DeltaCompression.getWithDelta]
    rw [hheld]
  | none =>
    cases hresolves with
    | base _ hbase => rw [hheld] at hbase; cases hbase
    | @delta _ entry _ _ hentry hbase happly =>
      obtain ⟨enough, hrec⟩ := DeltaCompression.reconstruct_of_resolves hbase happly
      obtain ⟨place, hplace, -⟩ := Option.bind_eq_some_iff.mp hentry
      refine ⟨enough, fun fuel hfuel =>
        ⟨true, (dc.countAccess place).touchChain now entry.baseHash, ?_⟩⟩
      simp only [DeltaCompression.getWithDelta, hentry]
      rw [hheld]
      simp only [hplace]
      rw [hrec fuel hfuel]

variable {hash : GoString}

theorem lookupEntry_eq_none_iff : dc.lookupEntry hash = none ↔ dc.deltas.lookup hash = none := by
  constructor
  · intro hnone
    cases hplace : dc.deltas.lookup hash with
    | none => rfl
    | some place =>
      obtain ⟨entry, hentry, -⟩ := hcoherent.pointer hash place hplace
      rw [DeltaCompression.lookupEntry, hplace] at hnone
      rw [Option.bind_some, hentry] at hnone
      cases hnone
  · intro hnone
    rw [DeltaCompression.lookupEntry, hnone]
    rfl

theorem of_same_objects (hentries : after.entries = dc.entries) (hdeltas : after.deltas = dc.deltas)
    (hbase : after.baseObjects = dc.baseObjects) :
    Coherent coder after stored := by
  have hlookup : after.lookupEntry = dc.lookupEntry := by
    funext hash
    rw [DeltaCompression.lookupEntry, DeltaCompression.lookupEntry, hentries, hdeltas]
  constructor
  · intro hash data hstored
    exact (hcoherent.resolves hash data hstored).of_same hlookup hbase
  · rw [hbase]
    exact hcoherent.baseObject
  · rw [hentries]
    exact hcoherent.recorded
  · rw [hentries, hdeltas]
    exact hcoherent.pointer

variable {data : Bytes}

theorem stored_of_resolves (hresolves : dc.Resolves coder hash data) :
    stored.lookup hash = some data := by
  cases hresolves with
  | base _ hheld => exact hcoherent.baseObject hash data hheld
  | @delta _ entry _ _ hentry hbase happly =>
    obtain ⟨place, hplace, hget⟩ := Option.bind_eq_some_iff.mp hentry
    obtain ⟨named, hnamed, hhash⟩ := hcoherent.pointer hash place hplace
    rw [hget] at hnamed
    cases hnamed
    obtain ⟨_, original, _, hstored, _⟩ := hcoherent.recorded entry (List.mem_of_getElem? hget)
    rw [hhash] at hstored
    have hsame := (hcoherent.resolves hash original hstored).unique (.delta hentry hbase happly)
    rw [← hsame]
    exact hstored

theorem of_sameExcept (hold : ∀ old ∈ stored.lookup hash, old = data)
    (hstored : ∀ other, storedAfter.lookup other =
      if other = hash then some data else stored.lookup other)
    (hsame : dc.SameExcept after hash)
    (hnew : after.Resolves coder hash data)
    (hheld : ∀ held ∈ after.baseObjects.lookup hash, held = data)
    (hentries : ∀ entry ∈ after.entries, entry ∈ dc.entries ∨
      entry.hash = hash ∧ ∃ baseData,
        stored.lookup entry.baseHash = some baseData ∧
          coder.applyDelta baseData entry.deltaData = .ok data)
    (hpointer : ∀ other place, after.deltas.lookup other = some place →
      ∃ entry, after.entries[place]? = some entry ∧ entry.hash = other) :
    Coherent coder after storedAfter := by
  have hkept : ∀ other kept, stored.lookup other = some kept →
      storedAfter.lookup other = some kept := by
    intro other kept hkept
    rw [hstored]
    split_ifs with heq
    · rw [hold kept (heq ▸ hkept)]
    · exact hkept
  constructor
  · intro other kept hlookup
    rw [hstored] at hlookup
    split_ifs at hlookup with heq
    · cases hlookup
      rw [heq]
      exact hnew
    · refine .of_sameExcept hsame (fun _ old hresolves => ?_)
        (hcoherent.resolves other kept hlookup)
      rw [hold old (hcoherent.stored_of_resolves hresolves)]
      exact hnew
  · intro other kept hlookup
    by_cases heq : other = hash
    · rw [heq] at hlookup
      rw [hstored, if_pos heq, hheld kept hlookup]
    · rw [hsame.baseObject other heq] at hlookup
      exact hkept other kept (hcoherent.baseObject other kept hlookup)
  · intro entry hentry
    cases hentries entry hentry with
    | inl hbefore =>
      obtain ⟨baseData, target, hbase, htarget, happly⟩ := hcoherent.recorded entry hbefore
      exact ⟨baseData, target, hkept _ _ hbase, hkept _ _ htarget, happly⟩
    | inr hadded =>
      obtain ⟨hhash, baseData, hbase, happly⟩ := hadded
      refine ⟨baseData, data, hkept _ _ hbase, ?_, happly⟩
      rw [hstored, if_pos hhash]
  · exact hpointer

theorem storeBase (hdeltas : dc.deltas.lookup hash = none)
    (hold : ∀ old ∈ stored.lookup hash, old = data) :
    Coherent coder (dc.storeBase hash data) (stored.insert hash data) := by
  have hheld : (dc.storeBase hash data).baseObjects.lookup hash = some data := by
    rw [DeltaCompression.storeBase, lookup_insert_eq, if_pos rfl]
  apply hcoherent.of_sameExcept hold
  · exact fun other => lookup_insert_eq stored hash other data
  · constructor
    · intro other _
      rfl
    · intro other hne
      rw [DeltaCompression.storeBase, lookup_insert_eq, if_neg hne]
  · exact .base (hcoherent.lookupEntry_eq_none_iff.mpr hdeltas) hheld
  · exact fun _ hlookup => Option.mem_unique hlookup hheld
  · exact fun entry hentry => .inl hentry
  · exact hcoherent.pointer

variable {now : ℤ}

theorem storeDelta (hold : ∀ old ∈ stored.lookup entry.hash, old = data)
    (hbase : dc.baseObjects.lookup entry.baseHash = some baseData)
    (happly : coder.applyDelta baseData entry.deltaData = .ok data)
    (hnot : ¬ dc.BuiltOn entry.baseHash entry.hash) :
    Coherent coder (dc.storeDelta now entry) (stored.insert entry.hash data) := by
  have hstored := hcoherent.baseObject _ _ hbase
  have hlookup : ∀ other, (dc.storeDelta now entry).lookupEntry other =
      if other = entry.hash then some entry else dc.lookupEntry other := by
    intro other
    simp only [DeltaCompression.lookupEntry, DeltaCompression.storeDelta,
      DeltaCompression.addToChain, lookup_insert_eq]
    split_ifs
    · simp
    · cases hplace : dc.deltas.lookup other with
      | none => rfl
      | some place =>
        obtain ⟨held, hheld, -⟩ := hcoherent.pointer other place hplace
        have hlt := (List.getElem?_eq_some_iff.mp hheld).1
        simp [List.getElem?_append_left hlt]
  have hsame : dc.SameExcept (dc.storeDelta now entry) entry.hash := by
    constructor
    · intro other hne
      rw [hlookup, if_neg hne]
    · intro other _
      rfl
  apply hcoherent.of_sameExcept hold
  · exact fun other => lookup_insert_eq stored entry.hash other data
  · exact hsame
  · refine .delta ?_ (.of_sameExcept hsame (fun hbuilt => absurd hbuilt hnot)
      (hcoherent.resolves _ _ hstored)) happly
    rw [hlookup, if_pos rfl]
  · intro held hheld
    exact hold held (hcoherent.baseObject _ _ hheld)
  · intro recorded hmem
    cases List.mem_append.mp hmem with
    | inl hbefore => exact .inl hbefore
    | inr hadded =>
      rw [List.mem_singleton.mp hadded]
      exact .inr ⟨rfl, baseData, hstored, happly⟩
  · intro other place hplace
    simp only [DeltaCompression.storeDelta, DeltaCompression.addToChain,
      lookup_insert_eq] at hplace ⊢
    split_ifs at hplace with heq
    · cases hplace
      exact ⟨entry, by simp, heq.symm⟩
    · obtain ⟨held, hheld, hhash⟩ := hcoherent.pointer other place hplace
      have hlt := (List.getElem?_eq_some_iff.mp hheld).1
      exact ⟨held, by rw [List.getElem?_append_left hlt, hheld], hhash⟩

theorem promote (hstored : stored.lookup hash = some data) :
    Coherent coder (dc.promote hash data) stored := by
  have hheld : (dc.promote hash data).baseObjects.lookup hash = some data := by
    rw [DeltaCompression.promote, lookup_insert_eq, if_pos rfl]
  have hlookup : ∀ other, (dc.promote hash data).lookupEntry other =
      if other = hash then none else dc.lookupEntry other := by
    intro other
    simp only [DeltaCompression.lookupEntry, DeltaCompression.promote, lookup_erase_eq]
    split_ifs <;> rfl
  have hold : ∀ old ∈ stored.lookup hash, old = data :=
    fun _ hlookup => Option.mem_unique hlookup hstored
  apply hcoherent.of_sameExcept hold
  · intro other
    split_ifs with heq
    · rw [heq, hstored]
    · rfl
  · constructor
    · intro other hne
      rw [hlookup, if_neg hne]
    · intro other hne
      rw [DeltaCompression.promote, lookup_insert_eq, if_neg hne]
  · exact .base (by rw [hlookup, if_pos rfl]) hheld
  · exact fun _ hlookup => Option.mem_unique hlookup hheld
  · exact fun entry hentry => .inl hentry
  · intro other place hplace
    exact hcoherent.pointer other place (lookup_of_erase hplace)

theorem insert_stored (hstored : stored.lookup hash = some data) :
    Coherent coder dc (stored.insert hash data) := by
  have hold : ∀ old ∈ stored.lookup hash, old = data :=
    fun _ hlookup => Option.mem_unique hlookup hstored
  apply hcoherent.of_sameExcept hold
  · exact fun other => lookup_insert_eq stored hash other data
  · exact ⟨fun _ _ => rfl, fun _ _ => rfl⟩
  · exact hcoherent.resolves hash data hstored
  · intro held hheld
    exact hold held (hcoherent.baseObject hash held hheld)
  · exact fun entry hentry => .inl hentry
  · exact hcoherent.pointer

theorem stored_of_pointer (hplace : dc.deltas.lookup hash = some place) :
    ∃ data, stored.lookup hash = some data := by
  obtain ⟨entry, hentry, hhash⟩ := hcoherent.pointer hash place hplace
  obtain ⟨_, data, _, hstored, _⟩ := hcoherent.recorded entry (List.mem_of_getElem? hentry)
  rw [hhash] at hstored
  exact ⟨data, hstored⟩

theorem not_builtOn_of_new (hdeltas : dc.deltas.lookup hash = none)
    (hnew : dc.baseObjects.lookup hash = none)
    (hbase : stored.lookup base = some baseData) : ¬ dc.BuiltOn base hash := by
  intro hbuilt
  obtain ⟨target, hresolves⟩ := DeltaCompression.Resolves.of_builtOn hbuilt
    (hcoherent.resolves base baseData hbase)
  cases hresolves with
  | base _ hheld => rw [hnew] at hheld; cases hheld
  | delta hentry =>
    rw [hcoherent.lookupEntry_eq_none_iff.mpr hdeltas] at hentry
    cases hentry

theorem storeWithDelta (hold : ∀ old ∈ stored.lookup hash, old = data)
    (hguard : notLooping ⟨dc, stored⟩ (.store selection now hash data))
    (hrun : DeltaCompression.storeWithDelta coder selection now hash data dc = (.ok held, after)) :
    Coherent coder after (stored.insert hash data) := by
  unfold DeltaCompression.storeWithDelta at hrun
  cases hplace : dc.deltas.lookup hash with
  | some place =>
    rw [hplace] at hrun
    cases hrun
    obtain ⟨kept, hkept⟩ := hcoherent.stored_of_pointer hplace
    rw [hold kept hkept] at hkept
    exact (hcoherent.insert_stored hkept).of_same_objects rfl rfl rfl
  | none =>
    rw [hplace] at hrun
    obtain ⟨deltaData, hcreate, happly⟩ := coder.correct (selection.select dc data).2 data
    simp only [hcreate] at hrun
    split_ifs at hrun with hpick
    · cases hrun
      exact hcoherent.storeBase hplace hold
    · cases hrun
      exact hcoherent.storeBase hplace hold
    · cases hrun
      exact hcoherent.storeBase hplace hold
    · cases hrun
      have hbase := selection.candidate dc data hpick
      refine hcoherent.storeDelta hold hbase happly ?_
      cases hheld : dc.baseObjects.lookup hash with
      | some _ => exact hguard hplace (by rw [hheld]; rfl) hpick
      | none =>
        exact hcoherent.not_builtOn_of_new hplace hheld (hcoherent.baseObject _ _ hbase)

theorem getWithDelta {fuel : ℕ} :
    Coherent coder (DeltaCompression.getWithDelta coder fuel now hash dc).2 stored := by
  unfold DeltaCompression.getWithDelta
  split
  · exact hcoherent
  · split
    · split
      · apply hcoherent.of_same_objects
        all_goals
          unfold DeltaCompression.touchChain
          split <;> rfl
      · exact hcoherent
      · exact hcoherent
      · exact hcoherent
    · exact hcoherent

end

theorem optimizeEntry (fuel place : ℕ) :
    GoM.Triple (Coherent coder · stored) (DeltaCompression.optimizeEntry coder fuel place)
      (fun _ => (Coherent coder · stored)) (Coherent coder · stored) := by
  intro dc hcoherent
  have hafter : Coherent coder (DeltaCompression.optimizeEntry coder fuel place dc).2 stored := by
    unfold DeltaCompression.optimizeEntry
    cases hentry : dc.entries[place]? with
    | none => exact hcoherent
    | some entry =>
      obtain ⟨baseData, data, hbase, hstored, happly⟩ :=
        hcoherent.recorded entry (List.mem_of_getElem? hentry)
      dsimp only
      split_ifs
      · cases hread : DeltaCompression.reconstructFromDelta coder dc fuel entry with
        | ok result =>
          have heq := DeltaCompression.reconstruct_ok_eq (hcoherent.resolves _ _ hbase) happly hread
          rw [heq]
          exact hcoherent.promote hstored
        | _ => exact hcoherent
      · exact hcoherent
  exact ⟨fun _ _ => hafter, fun _ => hafter⟩

theorem optimizeChains (hcoherent : Coherent coder dc stored) :
    Coherent coder (DeltaCompression.optimizeChains coder fuel now order dc).2 stored := by
  have hchain : ∀ chain, GoM.Triple (Coherent coder · stored)
      (DeltaCompression.optimizeChain coder fuel now chain)
      (fun _ => (Coherent coder · stored)) (Coherent coder · stored) := by
    intro chain
    refine GoM.Triple.ite (fun _ => ?_) fun _ => ?_
    · exact GoM.Triple.forEach fun place _ => optimizeEntry fuel place
    · exact GoM.Triple.pure fun _ hs => hs
  have hloop := GoM.Triple.forEach (fun chain
    (_ : chain ∈ (dc.deltaChains.range order).map Prod.snd) => hchain chain)
  exact hloop.exit hcoherent

end Coherent

theorem Coherent.new : Coherent coder .new ∅ := by
  constructor
  · intro hash data hstored
    cases hstored
  · intro hash data hheld
    cases hheld
  · intro entry hentry
    cases hentry
  · intro hash place hplace
    cases hplace

end DeltaRun

/-- In a run that never stores a base object again against something built on
it, every stored object is read back. -/
theorem returnsStored_of_notLooping (coder : DeltaAlgorithm) (state : DeltaRun)
    (hreach : Runs.Reachable (deltaSystem coder) notLooping state) :
    state.ReturnsStored coder := by
  have hcoherent : DeltaRun.Coherent coder state.dc state.stored := by
    refine Runs.Reachable.invariant
      (I := fun s => DeltaRun.Coherent coder s.dc s.stored) ?_ ?_ hreach
    · rintro first rfl
      exact .new
    · intro before call after hbefore hguard hstep
      cases call with
      | store selection now hash data =>
        obtain ⟨hold, held, hrun, hstored⟩ := hstep
        rw [hstored]
        exact hbefore.storeWithDelta hold hguard hrun
      | get now hash =>
        obtain ⟨⟨fuel, outcome, hrun, _⟩, hstored⟩ := hstep
        have hafter := (congrArg Prod.snd hrun).symm
        rw [hstored, show after.dc = _ from hafter]
        exact hbefore.getWithDelta
      | optimize now order =>
        obtain ⟨⟨fuel, hrun⟩, hstored⟩ := hstep
        have hafter := (congrArg Prod.snd hrun).symm
        rw [hstored, show after.dc = _ from hafter]
        exact hbefore.optimizeChains
  exact hcoherent.returnsStored

/-! ## Runs that store a base object again -/

def copyCoder : DeltaAlgorithm where
  createDelta base target := .ok (if base = target then [] else 0 :: target)
  applyDelta base deltaData :=
    match deltaData with
    | [] => .ok base
    | _ :: target => .ok target
  correct := by
    intro base target
    refine ⟨_, rfl, ?_⟩
    split_ifs with heq
    · rw [heq]
    · rfl

def BaseSelection.only (hash : GoString) : BaseSelection where
  select dc _ :=
    match dc.baseObjects.lookup hash with
    | some data => (hash, data)
    | none => ([], [])
  candidate := by
    intro dc data hpick
    cases hheld : dc.baseObjects.lookup hash with
    | some held =>
      simp only [hheld]
    | none =>
      simp only [hheld] at hpick
      exact absurd rfl hpick

namespace DeltaRun

def start : DeltaRun := ⟨.new, ∅⟩

def store (state : DeltaRun) (base hash : GoString) (data : Bytes) : DeltaRun :=
  ⟨(DeltaCompression.storeWithDelta copyCoder (.only base) 0 hash data
    state.dc).2, state.stored.insert hash data⟩

theorem reachable_store {guard : DeltaRun → DeltaCall → Prop} {state : DeltaRun}
    (hreach : Runs.Reachable (deltaSystem copyCoder) guard state)
    (base hash : GoString) (data : Bytes) (held : Bool)
    (hguard : guard state (.store (.only base) 0 hash data))
    (hold : ∀ old ∈ state.stored.lookup hash, old = data)
    (hheld : (DeltaCompression.storeWithDelta copyCoder (.only base) 0 hash data
      state.dc).1 = .ok held) :
    Runs.Reachable (deltaSystem copyCoder) guard (state.store base hash data) := by
  obtain ⟨first, hfirst, hrun⟩ := hreach
  exact ⟨first, hfirst, hrun.tail hguard ⟨hold, held, Prod.ext hheld rfl, rfl⟩⟩

def twoBases : DeltaRun := (start.store [] (str "h") (str "xx")).store [] (str "k") (str "xx")

theorem twoBases_not_builtOn : ¬ twoBases.dc.BuiltOn (str "h") (str "k") := by
  intro hbuilt
  cases hbuilt with
  | step hentry =>
    cases hentry

def restored : DeltaRun := twoBases.store (str "h") (str "k") (str "xx")

def looped : DeltaRun :=
  ((start.store [] (str "h") (str "xx")).store (str "h") (str "g")
    (str "xx")).store (str "h") (str "h") (str "xx")

end DeltaRun

/-- A base object that becomes a delta of another, and a delta built on it. -/
theorem returnsStored_of_restored :
    Runs.Reachable (deltaSystem copyCoder) notLooping
        (DeltaRun.restored.store (str "k") (str "g") (str "xx")) ∧
      (DeltaRun.restored.store (str "k") (str "g") (str "xx")).ReturnsStored copyCoder := by
  have hstart : Runs.Reachable (deltaSystem copyCoder) notLooping DeltaRun.start := ⟨_, rfl, .refl⟩
  have hbase := DeltaRun.reachable_store hstart [] (str "h") (str "xx") false
    (fun _ hheld => nomatch hheld) (by decide) (by decide +kernel)
  have hother := DeltaRun.reachable_store hbase [] (str "k") (str "xx") false
    (fun _ hheld => nomatch hheld) (by decide) (by decide +kernel)
  have hguard : notLooping DeltaRun.twoBases (.store (.only (str "h")) 0 (str "k") (str "xx")) := by
    intro _ _ _
    exact DeltaRun.twoBases_not_builtOn
  have hrestored := DeltaRun.reachable_store hother (str "h") (str "k") (str "xx") true hguard
    (by decide) (by decide +kernel)
  have hbuilt := DeltaRun.reachable_store hrestored (str "k") (str "g") (str "xx") true
    (fun _ hheld => nomatch hheld) (by decide) (by decide +kernel)
  exact ⟨hbuilt, returnsStored_of_notLooping _ _ hbuilt⟩

theorem DeltaCompression.reconstruct_diverges {coder : DeltaAlgorithm}
    {dc : DeltaCompression} {hash : GoString} {own entry : DeltaEntry}
    (hown : dc.lookupEntry hash = some own) (hloop : own.baseHash = hash)
    (hentry : entry.baseHash = hash) (fuel : ℕ) :
    reconstructFromDelta coder dc fuel entry = .diverge := by
  induction fuel generalizing entry with
  | zero => rfl
  | succ fuel ih =>
    rw [← hentry] at hown
    rw [reconstruct_of_delta hown, ih hloop]
    rfl

/-- A base object that is stored again can become a delta of itself; reading
what was built on it does not return. -/
theorem restored_base_loops :
    ∃ state, Runs.Reachable (deltaSystem copyCoder) (fun _ _ => True) state ∧
      state.stored.lookup (str "g") = some (str "xx") ∧
      ∀ fuel now, (DeltaCompression.getWithDelta copyCoder fuel now (str "g")
        state.dc).1 = .diverge := by
  have hstart : Runs.Reachable (deltaSystem copyCoder) (fun _ _ => True)
      DeltaRun.start := ⟨_, rfl, .refl⟩
  have hbase := DeltaRun.reachable_store hstart [] (str "h") (str "xx") false
    trivial (by decide) (by decide +kernel)
  have hdelta := DeltaRun.reachable_store hbase (str "h") (str "g") (str "xx")
    true trivial (by decide) (by decide +kernel)
  have hloop := DeltaRun.reachable_store hdelta (str "h") (str "h") (str "xx")
    true trivial (by decide) (by decide +kernel)
  refine ⟨DeltaRun.looped, hloop, by decide +kernel, fun fuel now => ?_⟩
  have hread : DeltaCompression.reconstructFromDelta copyCoder
      DeltaRun.looped.dc fuel ⟨str "g", str "h", [], 1⟩ = .diverge :=
    @DeltaCompression.reconstruct_diverges _ _ (str "h")
      ⟨str "h", str "h", [], 1⟩ _ rfl rfl rfl fuel
  have hentry : DeltaRun.looped.dc.lookupEntry (str "g") = some ⟨str "g", str "h", [], 1⟩ := by rfl
  have hnone : DeltaRun.looped.dc.baseObjects.lookup (str "g") = none := by rfl
  have hplace : DeltaRun.looped.dc.deltas.lookup (str "g") = some 0 := by rfl
  simp only [DeltaCompression.getWithDelta, hentry]
  rw [hnone]
  simp only [hplace]
  rw [hread]

end Govc
