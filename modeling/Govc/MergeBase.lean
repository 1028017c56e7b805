import Govc.CommitExecution
import Govc.LinkedWalks
import Govc.RepositoryHistory

/-!
# Parent chains and merge bases

Three helpers of the repository follow parent links: `canFastForward`,
`findMergeBase` and `findCommonAncestor`.  Each is a loop that ends at a root
commit or at a commit that cannot be read.  Here the number of turns is a
parameter; with more turns than the chains are long the answer is the nearest
common commit.
-/

namespace Govc

open Go Walks

open GoM Host Store

/-- The parent of a root commit is the empty string. -/
def named (hash : GoString) : Option GoString := if hash = [] then none else some hash

variable {β : Type} [Backend β] {host : Host} {store : Store β}
  {hash : GoString} {items : List GoString}

def Store.parentOf (host : Host) (store : Store β) (hash : GoString) : Option (Option GoString) :=
  (store.commitAt host hash).map fun commit => named commit.parentHash

/-- The parent chain of a hash. -/
def Store.Ancestry (host : Host) (store : Store β) (hash : GoString) : List GoString → Prop :=
  Walk (store.parentOf host) (named hash)

theorem Store.SameContent.parentOf {before after : Store β}
    (hsame : SameContent before after) (host : Host) :
    after.parentOf host = before.parentOf host := by
  funext hash
  have hread : after.commitAt host hash = before.commitAt host hash :=
    hsame.readAs asCommit host hash
  rw [Store.parentOf, Store.parentOf, hread]

theorem Store.ancestry_nil : store.Ancestry host [] items ↔ items = [] := by
  constructor
  · intro hitems
    cases hitems
    rfl
  · rintro rfl
    exact .finished

theorem Store.ancestry_iff (hne : hash ≠ []) :
    store.Ancestry host hash items ↔
      match store.commitAt host hash with
      | none => items = [hash]
      | some commit => ∃ rest, items = hash :: rest ∧
          store.Ancestry host commit.parentHash rest := by
  have hnamed : named hash = some hash := if_neg hne
  rw [Ancestry, hnamed]
  cases hcommit : store.commitAt host hash with
  | none =>
    have hnext : store.parentOf host hash = none := by
      simp [parentOf, hcommit]
    constructor
    · intro hwalk
      cases hwalk <;> simp_all
    · rintro rfl
      exact .stuck hnext
  | some commit =>
    have hnext : store.parentOf host hash = some (named commit.parentHash) := by
      simp [parentOf, hcommit]
    constructor
    · intro hwalk
      cases hwalk with
      | stuck hnone => simp_all
      | step hsome hrest =>
        rw [hnext, Option.some.injEq] at hsome
        subst hsome
        exact ⟨_, rfl, hrest⟩
    · rintro ⟨rest, rfl, hrest⟩
      exact .step hnext hrest

theorem Store.Ancestry.nil_notMem (hitems : store.Ancestry host hash items) : [] ∉ items := by
  generalize hstart : named hash = start at hitems
  unfold Ancestry at hitems
  rw [hstart] at hitems
  induction hitems generalizing hash with
  | finished => exact List.not_mem_nil
  | stuck _ => grind [named]
  | step hnext _ ih =>
    obtain ⟨commit, -, hparent⟩ := Option.map_eq_some_iff.mp hnext
    grind [named]

namespace Repository

theorem read_commit (hash : GoString) (repo : Repository β) :
    ∃ store result, Store.SameContent repo.store store ∧
      attempt (onStore (getCommit host hash)) repo = (.ok result, { repo with store := store }) ∧
      result.toOption = repo.store.commitAt host hash := by
  obtain ⟨after, hsame, ⟨c, hat, hrun⟩ | ⟨hat, e, hrun⟩⟩ := getCommit_run repo.store
  · exact ⟨after, .ok c, hsame, attempt_of_ok (onStore_of_run hrun), hat.symm⟩
  · exact ⟨after, .error e, hsame, attempt_of_error (onStore_of_run hrun), hat.symm⟩

/-! ## The loops -/

/-- How a search along the parent chain can end: at a hash that satisfies `p`,
at the end of the chain, or for want of turns. -/
inductive Searched (host : Host) (store : Store β) (p : GoString → Bool)
    (hash : GoString) (turns : ℕ) : Outcome (Option GoString) → Prop where
  | found {h : GoString} (hne : hash ≠ [])
      (hreach : Reaches (store.parentOf host) hash h) (hp : p h = true)
      (hfirst : ∀ items, store.Ancestry host hash items →
        items.find? p = some h) : Searched host store p hash turns (.ok (some h))
  | missed {items : List GoString} (hitems : store.Ancestry host hash items)
      (hnone : items.find? p = none) : Searched host store p hash turns
      (.ok none)
  | lost (hlong : ∀ items, store.Ancestry host hash items →
      turns ≤ items.length) : Searched host store p hash turns .diverge

theorem findOnChain_searched
    (hash : GoString) (repo : Repository β) :
    ∃ store outcome, Store.SameContent repo.store store ∧
      findOnChain host p turns hash repo = (outcome, { repo with store := store }) ∧
      Searched host repo.store p hash turns outcome := by
  induction turns generalizing hash repo with
  | zero => exact ⟨repo.store, _, .refl _, rfl, .lost fun _ _ => Nat.zero_le _⟩
  | succ turns ih =>
    by_cases hempty : hash = []
    · subst hempty
      exact ⟨repo.store, _, .refl _, rfl, .missed (ancestry_nil.mpr rfl) rfl⟩
    have hhead : ∀ items, repo.store.Ancestry host hash items → ∃ rest, items = hash :: rest := by
      intro items hitems
      rw [ancestry_iff hempty] at hitems
      grind
    rw [findOnChain, if_neg hempty]
    by_cases hp : p hash = true
    · refine ⟨repo.store, _, .refl _, by rw [if_pos hp]; rfl,
        .found hempty .refl hp ?_⟩
      intro items hitems
      obtain ⟨rest, rfl⟩ := hhead items hitems
      simp [hp]
    rw [if_neg hp]
    obtain ⟨mid, result, hsame, hread, hresult⟩ := read_commit hash repo
    rw [bind_of_ok hread]
    have hitems := fun items =>
      @ancestry_iff β _ host repo.store hash items hempty
    cases result with
    | error e =>
      have hend : repo.store.Ancestry host hash [hash] := by
        rw [hitems, ← hresult]
        rfl
      exact ⟨mid, _, hsame, rfl, .missed hend (by simp [hp])⟩
    | ok commit =>
      obtain ⟨after, outcome, hafter, hrun, hsearched⟩ :=
        ih commit.parentHash { repo with store := mid }
      refine ⟨after, outcome, hsame.trans hafter, hrun, ?_⟩
      simp only [← hresult, Except.toOption] at hitems
      have hparent : mid.parentOf host = repo.store.parentOf host := hsame.parentOf host
      cases hsearched with
      | found hne hreach hph hfirst =>
        simp only [Store.Ancestry, hparent] at hreach hfirst
        have hlink : repo.store.parentOf host hash = some (some commit.parentHash) := by
          simp [Store.parentOf, ← hresult, Except.toOption, named, hne]
        refine .found hempty (.head hlink hreach) hph fun items hchain => ?_
        obtain ⟨rest, rfl, hrest⟩ := (hitems items).mp hchain
        simp [hp, hfirst rest hrest]
      | missed hchain hnone =>
        simp only [Store.Ancestry, hparent] at hchain
        exact .missed ((hitems _).mpr ⟨_, rfl, hchain⟩) (by simp [hp, hnone])
      | lost hlong =>
        simp only [Store.Ancestry, hparent] at hlong
        refine .lost fun items hchain => ?_
        obtain ⟨rest, rfl, hrest⟩ := (hitems items).mp hchain
        exact Nat.succ_le_succ (hlong rest hrest)

theorem chain_walked (hash : GoString) (repo : Repository β) :
    ∃ store outcome, Store.SameContent repo.store store ∧
      chain host turns hash repo = (outcome, { repo with store := store }) ∧
      ((∃ items, outcome = .ok items ∧ repo.store.Ancestry host hash items) ∨
        outcome = .diverge ∧ ∀ items, repo.store.Ancestry host hash items →
          turns ≤ items.length) := by
  induction turns generalizing hash repo with
  | zero => exact ⟨repo.store, _, .refl _, rfl, .inr ⟨rfl, by simp⟩⟩
  | succ turns ih =>
    by_cases hempty : hash = []
    · subst hempty
      exact ⟨repo.store, _, .refl _, rfl, .inl ⟨[], rfl, ancestry_nil.mpr rfl⟩⟩
    rw [chain, if_neg hempty]
    obtain ⟨mid, result, hsame, hread, hresult⟩ := read_commit hash repo
    rw [bind_of_ok hread]
    have hitems := fun items =>
      @ancestry_iff β _ host repo.store hash items hempty
    simp only [← hresult] at hitems
    cases result with
    | error e => exact ⟨mid, _, hsame, rfl, .inl ⟨_, rfl, (hitems _).mpr rfl⟩⟩
    | ok commit =>
      obtain ⟨after, outcome, hafter, hrun, hwalked⟩ :=
        ih commit.parentHash { repo with store := mid }
      simp only [Store.Ancestry, hsame.parentOf host] at hwalked
      obtain ⟨items, rfl, hchain⟩ | ⟨rfl, hlong⟩ := hwalked
      · exact ⟨after, _, hsame.trans hafter, bind_of_ok hrun,
          .inl ⟨_, rfl, (hitems _).mpr ⟨_, rfl, hchain⟩⟩⟩
      · refine ⟨after, .diverge, hsame.trans hafter, ?_, .inr ⟨rfl, ?_⟩⟩
        · simp [bind_apply, hrun]
        · intro items hchain
          obtain ⟨rest, rfl, hrest⟩ := (hitems items).mp hchain
          exact Nat.succ_le_succ (hlong rest hrest)

variable {turns : ℕ} {repo after : Repository β}

theorem findOnChain_of_ancestry (p : GoString → Bool) (hitems : repo.store.Ancestry host hash items)
    (hturns : items.length < turns) :
    ∃ store, Store.SameContent repo.store store ∧
      findOnChain host p turns hash repo = (.ok (items.find? p), { repo with store := store }) := by
  obtain ⟨store, outcome, hsame, hrun, hsearched⟩ := findOnChain_searched hash repo
  refine ⟨store, hsame, hrun.trans ?_⟩
  cases hsearched with
  | found _ _ _ hfirst => rw [hfirst items hitems]
  | missed hother hnone => rw [← hother.unique hitems, hnone]
  | lost hlong => exact absurd (hlong items hitems) (by omega)

theorem chain_of_ancestry (hitems : repo.store.Ancestry host hash items)
    (hturns : items.length < turns) :
    ∃ store, Store.SameContent repo.store store ∧
      chain host turns hash repo = (.ok items, { repo with store := store }) := by
  obtain ⟨store, outcome, hsame, hrun, ⟨others, rfl, hother⟩ | ⟨-, hlong⟩⟩ :=
    chain_walked hash repo
  · exact ⟨store, hsame, by rw [hrun, hother.unique hitems]⟩
  · exact absurd (hlong items hitems) (by omega)

/-! ## Merge bases -/

def canFastForwardIn (host : Host) (turns : ℕ)
    (currentHash targetHash : GoString) : GoM (Repository β) Bool := do
  let found ← findOnChain host (· = currentHash) turns targetHash
  pure found.isSome

def findMergeBaseIn (host : Host) (turns : ℕ) (hash1 hash2 : GoString) :
    GoM (Repository β) GoString := do
  let ancestors1 ← chain host turns hash1
  match ← findOnChain host (· ∈ ancestors1) turns hash2 with
  | some hash => pure hash
  | none => fail (str "no common ancestor found")

theorem canFastForward_eq (host : Host) (hash1 hash2 : GoString) :
    canFastForward host hash1 hash2 repo =
      canFastForwardIn host repo.store.fuel hash1 hash2 repo := rfl

theorem findMergeBase_eq (host : Host) (hash1 hash2 : GoString) :
    findMergeBase host hash1 hash2 repo =
      findMergeBaseIn host repo.store.fuel hash1 hash2 repo := by
  simp only [findMergeBase, commonCommit, findMergeBaseIn, bind_apply, walkFuel, view]
  rcases chain host repo.store.fuel hash1 repo with ⟨outcome, mid⟩
  cases outcome <;> rfl

/-- The first loop of `findCommonAncestor`.  Other than `findMergeBase` it
leaves the loop at a root commit, before it is at the empty hash. -/
def ancestorsUntilRoot (host : Host) : ℕ → GoString → GoM (Repository β) (List GoString)
  | 0, _ => GoM.diverge
  | turns + 1, current =>
    if current = [] then pure []
    else do
      match ← attempt (onStore (getCommit host current)) with
      | .error _ => pure [current]
      | .ok commit =>
        if commit.parentHash = [] then pure [current]
        else do
          let rest ← ancestorsUntilRoot host turns commit.parentHash
          pure (current :: rest)

/-- The second loop of `findCommonAncestor`. -/
def firstSharedUntilRoot (host : Host) (ancestors1 : List GoString) :
    ℕ → GoString → GoM (Repository β) GoString
  | 0, _ => GoM.diverge
  | turns + 1, current =>
    if current = [] then pure []
    else if current ∈ ancestors1 then pure current
    else do
      match ← attempt (onStore (getCommit host current)) with
      | .error _ => pure []
      | .ok commit =>
        if commit.parentHash = [] then pure []
        else firstSharedUntilRoot host ancestors1 turns commit.parentHash

def findCommonAncestorIn (host : Host) (turns : ℕ) (hash1 hash2 : GoString) :
    GoM (Repository β) GoString := do
  let ancestors1 ← ancestorsUntilRoot host turns hash1
  firstSharedUntilRoot host ancestors1 turns hash2

theorem ancestorsUntilRoot_of_chain (hrun : chain host turns hash repo = (.ok items, after)) :
    ancestorsUntilRoot host turns hash repo = (.ok items, after) := by
  induction turns generalizing hash repo items with
  | zero => cases hrun
  | succ turns ih =>
    rw [chain] at hrun
    rw [ancestorsUntilRoot]
    split_ifs at hrun ⊢
    · exact hrun
    obtain ⟨result, mid, hread, hrun⟩ := bind_eq_ok hrun
    rw [bind_of_ok hread]
    cases result with
    | error e => exact hrun
    | ok commit =>
      obtain ⟨rest, _, hrest, hrun⟩ := bind_eq_ok hrun
      cases hrun
      by_cases hroot : commit.parentHash = []
      · rw [hroot] at hrest
        cases turns <;> cases hrest
        simp only [hroot, if_true]
        rfl
      · simp only [hroot, if_false]
        rw [bind_of_ok (ih hrest)]
        rfl

theorem firstSharedUntilRoot_of_findOnChain
    (hrun : findOnChain host (· ∈ ancestors1) turns hash repo = (.ok found, after)) :
    firstSharedUntilRoot host ancestors1 turns hash repo = (.ok (found.getD []), after) := by
  induction turns generalizing hash repo with
  | zero => cases hrun
  | succ turns ih =>
    rw [findOnChain] at hrun
    rw [firstSharedUntilRoot]
    simp only [decide_eq_true_eq] at hrun
    split_ifs at hrun ⊢
    · cases hrun
      rfl
    · cases hrun
      rfl
    obtain ⟨result, mid, hread, hrun⟩ := bind_eq_ok hrun
    rw [bind_of_ok hread]
    cases result with
    | error e =>
      cases hrun
      rfl
    | ok commit =>
      by_cases hroot : commit.parentHash = []
      · simp only [hroot] at hrun
        cases turns <;> cases hrun
        simp only [hroot, if_true]
        rfl
      · simp only [hroot, if_false]
        exact ih hrun

theorem mergeBases_run {xs ys : List GoString}
    (hx : repo.store.Ancestry host x xs) (hy : repo.store.Ancestry host y ys)
    (hxs : xs.length < turns) (hys : ys.length < turns) :
    (canFastForwardIn host turns x y repo).1 = .ok (x ∈ ys : Bool) ∧
    (findMergeBaseIn host turns x y repo).1 =
      (match ys.find? (· ∈ xs) with
        | some base => .ok base
        | none => .error (str "no common ancestor found")) ∧
    (findCommonAncestorIn host turns x y repo).1 = .ok ((ys.find? (· ∈ xs)).getD []) := by
  obtain ⟨mid, hsame, hchain⟩ := chain_of_ancestry hx hxs
  have hy' : mid.Ancestry host y ys := by
    simpa only [Store.Ancestry, hsame.parentOf host] using hy
  obtain ⟨last, -, hfind⟩ := @findOnChain_of_ancestry β _ host y ys turns
    { repo with store := mid } (· ∈ xs) hy' hys
  obtain ⟨other, -, hahead⟩ := findOnChain_of_ancestry (· = x) hy hys
  refine ⟨?_, ?_, ?_⟩
  · rw [canFastForwardIn, bind_of_ok hahead]
    exact congrArg Outcome.ok (Bool.eq_iff_iff.mpr (by simp))
  · rw [findMergeBaseIn, bind_of_ok hchain, bind_of_ok hfind]
    cases ys.find? (· ∈ xs) <;> rfl
  · rw [findCommonAncestorIn, bind_of_ok (ancestorsUntilRoot_of_chain hchain),
      firstSharedUntilRoot_of_findOnChain hfind]

/-- On finite parent chains the loops answer with the nearest common commit,
or with none if the chains do not meet.  They need not come to a root: a chain
may also end at a commit that cannot be read. -/
theorem findMergeBaseIn_nearest (host : Host) (repo : Repository β)
    {x y : GoString} {xs ys : List GoString} {turns : ℕ}
    (hx : repo.store.Ancestry host x xs) (hy : repo.store.Ancestry host y ys)
    (hxs : xs.length < turns) (hys : ys.length < turns) :
    ((∃ base, NearestCommon xs ys base ∧ (findMergeBaseIn host turns x y repo).1 = .ok base ∧
        (findCommonAncestorIn host turns x y repo).1 = .ok base) ∨
      (∀ hash ∈ xs, hash ∉ ys) ∧
        (findMergeBaseIn host turns x y repo).1 = .error (str "no common ancestor found") ∧
        (findCommonAncestorIn host turns x y repo).1 = .ok []) ∧
    (findMergeBaseIn host turns y x repo).1 = (findMergeBaseIn host turns x y repo).1 ∧
    (findCommonAncestorIn host turns y x repo).1 = (findCommonAncestorIn host turns x y repo).1 ∧
    ((canFastForwardIn host turns x y repo).1 = .ok true ↔
      (findMergeBaseIn host turns x y repo).1 = .ok x) := by
  obtain ⟨hahead, hbase, hshared⟩ := mergeBases_run hx hy hxs hys
  obtain ⟨-, hbase', hshared'⟩ := mergeBases_run hy hx hys hxs
  have hcomm := find_common_comm hx hy
  rw [hahead, hbase, hbase', hshared, hshared', hcomm]
  refine ⟨?_, rfl, rfl, ?_⟩
  · cases hfind : xs.find? (· ∈ ys) with
    | some base =>
      exact .inl ⟨base, (find_common_iff hy hx).mp hfind |>.symm, rfl, rfl⟩
    | none =>
      refine .inr ⟨fun hash hmem => ?_, rfl, rfl⟩
      simpa using List.find?_eq_none.mp hfind hash hmem
  · by_cases hempty : x = []
    · subst hempty
      rw [ancestry_nil.mp hx]
      simp [Store.Ancestry.nil_notMem hy]
    · have hstart : Walk (repo.store.parentOf host) (some x) xs := by
        simpa only [Store.Ancestry, named, if_neg hempty] using hx
      have hiff := find_common_eq_start_iff hstart hy
      rw [hcomm] at hiff
      cases hfind : xs.find? (· ∈ ys) <;> simp_all

def forked : Repository MemoryBackend :=
  let data (parent : GoString) :=
    (Object.commit (Commit.zero.setParent parent)).serialize
  { newRepository with
    store := Store.new ⟨(((∅ : GoMap GoString Bytes).insert [97]
      (data [])).insert [98] (data [97])).insert [99] (data [97])⟩ }

theorem findMergeBaseIn_forked :
    (findMergeBaseIn checksums 3 [99] [98] forked).1 =
      (findMergeBaseIn checksums 3 [98] [99] forked).1 := by
  have hroot : forked.store.parentOf checksums [97] = some none := by
    decide +kernel
  have hleft : forked.store.parentOf checksums [98] = some (some [97]) := by
    decide +kernel
  have hright : forked.store.parentOf checksums [99] = some (some [97]) := by
    decide +kernel
  have hx : forked.store.Ancestry checksums [98] [[98], [97]] := .step hleft (.step hroot .finished)
  have hy : forked.store.Ancestry checksums [99] [[99], [97]] :=
    .step hright (.step hroot .finished)
  exact (findMergeBaseIn_nearest checksums forked hx hy (by decide) (by decide)).2.1

end Repository

end Govc
