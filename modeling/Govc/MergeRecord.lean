import Govc.CheckoutFrames
import Govc.CommitContract
import Govc.IntegrityRules
import Govc.MergeBase

/-!
# What a merge leaves behind

A fast forward moves the target branch to the tip of the source.  A three-way
merge makes a commit with one parent, the old tip of the target, so nothing
leads from it to the source.  Merging the source again finds the old merge
base and does the same work once more.
-/

namespace Govc

open Go Walks

open GoM Host RefStore

variable {β : Type} [Backend β] {host : Host}

namespace Store

variable {before after : Store β} {commit : Commit} {tree : Tree}
  {tip ours : GoString} {items : List GoString}

/-- The commits that can be read behind a stored merge commit are those from
before and the merge commit itself. -/
theorem Grown.commitAt_cases (hgrown : Grown host [.tree tree, .commit commit] before after)
    (hhonest : before.Honest host) (hfaithful : host.Faithful after.hashed)
    (hsafe : commit.HeaderSafe) {hash : GoString} {found : Commit}
    (hat : after.commitAt host hash = some found) :
    before.commitAt host hash = some found ∨
      hash = (Object.commit commit).hash host ∧ found = commit.reread host := by
  have hgains := hgrown.gains hhonest hfaithful
  obtain ⟨data, hfind, hparse⟩ := parse_of_commitAt hat
  rcases hgains.fresh hash data hfind with hbefore | ⟨object, hmem, rfl⟩
  · simp [Store.commitAt, Store.readAs, hbefore, hparse, Except.toOption, asCommit]
  have htype := type_of_parseObject_serialize (hgrown.size hfaithful hmem) hparse
  simp only [List.mem_cons, List.not_mem_nil, or_false] at hmem
  obtain rfl | rfl := hmem
  · cases htype
  have hhash : hash = (Object.commit commit).hash host :=
    (hgains.honest.addressed hash _ hfind).symm
  have hread := hgrown.commitAt hhonest hfaithful (by simp) hsafe
  rw [← hhash, hat, Option.some.injEq] at hread
  exact .inr ⟨hhash, hread⟩

/-- From a commit on top of `ours` nothing leads to a tip that was not on the
parent chain of `ours` and did not lead there. -/
theorem Grown.not_reaches (hgrown : Grown host [.tree tree, .commit commit] before after)
    (hhonest : before.Honest host) (hfaithful : host.Faithful after.hashed)
    (hsafe : commit.HeaderSafe) (hours : commit.parentHash ≠ [])
    (hitems : before.Ancestry host commit.parentHash items) (htip : tip ∉ items)
    (hread : (before.commitAt host tip).isSome)
    (hbehind : ¬ Reaches (before.parentOf host) tip commit.parentHash) :
    ¬ Reaches (after.parentOf host) ((Object.commit commit).hash host) tip := by
  have hnamed : named commit.parentHash = some commit.parentHash := if_neg hours
  have hnew : after.parentOf host ((Object.commit commit).hash host) =
      some (some commit.parentHash) := by
    rw [parentOf, hgrown.commitAt hhonest hfaithful (by simp) hsafe, ← hnamed]
    rfl
  have hclosed : ∀ {hash}, Reaches (after.parentOf host)
      ((Object.commit commit).hash host) hash →
      hash = (Object.commit commit).hash host ∨ hash ∈ items := by
    intro hash hreach
    induction hreach with
    | refl => exact .inl rfl
    | @tail link next _ hnext ih =>
      right
      by_cases hlink : link = (Object.commit commit).hash host
      · rw [hlink, hnew, Option.some.injEq, Option.some.injEq] at hnext
        rw [Ancestry, hnamed] at hitems
        exact hnext ▸ hitems.head_mem
      have hmem := ih.resolve_left hlink
      obtain ⟨found, hat, hparent⟩ := Option.map_eq_some_iff.mp hnext
      have hold := (hgrown.commitAt_cases hhonest hfaithful hsafe
        hat).resolve_right fun hboth => hlink hboth.1
      exact hitems.mem_of_link hmem (by simp [parentOf, hold, hparent])
  intro hreach
  have hsame := (hclosed hreach).resolve_right htip
  obtain ⟨found, hfound⟩ := Option.isSome_iff_exists.mp hread
  have hkept := (hgrown.gains hhonest hfaithful).kept.readAs hfound
  have hat : after.commitAt host tip = some found := hkept
  rw [← hsame, parentOf, hat] at hnew
  exact hbehind (.single (by rw [parentOf, hfound]; exact hnew))

end Store

namespace Repository

variable {repo after : Repository β} {call : Call}
  {source target name tip ours : GoString}

theorem loadTree_ok {hash : GoString} {tree : Tree}
    (hrun : loadTree host hash repo = (.ok tree, after)) :
    ∃ store, Store.SameContent repo.store store ∧ after = { repo with store := store } ∧
      (repo.store.commitAt host hash).isSome := by
  obtain ⟨commit, _, hcommit, htree⟩ := bind_eq_ok hrun
  obtain ⟨mid, hmid, rfl, hread⟩ := getAs_ok hcommit
  obtain ⟨last, hlast, rfl, -⟩ := getAs_ok htree
  exact ⟨last, hmid.trans hlast, rfl, Option.isSome_of_eq_some hread⟩

theorem threeWayMerge_ok {theirs base : GoString}
    (hrun : threeWayMerge host call ours theirs base source repo = (.ok (), after))
    (hname : repo.refs.getCurrentBranch = .ok name) :
    ∃ tree commit store, commit.parentHash = ours ∧ commit.treeHash = (Object.tree tree).hash host ∧
      commit.author = repo.configuredAuthor call ∧
      commit.committer = repo.configuredAuthor call ∧
      Store.Grown host [.tree tree, .commit commit] repo.store store ∧
      (repo.store.commitAt host ours).isSome ∧
      after = { repo with
        store := store
        refs := repo.refs.setRef (branchRef name) ((Object.commit commit).hash host) } := by
  obtain ⟨baseTree, _, hbase, hrun⟩ := bind_eq_ok hrun
  obtain ⟨store₁, hsame₁, rfl, -⟩ := loadTree_ok hbase
  obtain ⟨ourTree, _, hours, hrun⟩ := bind_eq_ok hrun
  obtain ⟨store₂, hsame₂, rfl, hread⟩ := loadTree_ok hours
  obtain ⟨theirTree, _, htheirs, hrun⟩ := bind_eq_ok hrun
  obtain ⟨store₃, hsame₃, rfl, -⟩ := loadTree_ok htheirs
  dsimp only at hrun
  split at hrun
  · cases hrun
  obtain ⟨_, _, htree, hrun⟩ := bind_eq_ok hrun
  obtain ⟨rfl, store₄, hgrown, rfl⟩ := storeObject_ok htree
  rw [bind_of_ok (view_apply ..)] at hrun
  obtain ⟨_, _, hcommit, hrun⟩ := bind_eq_ok hrun
  obtain ⟨rfl, store₅, hgrown', rfl⟩ := storeObject_ok hcommit
  have hread₃ : Store.Grown host [] repo.store store₃ :=
    .of_sameContent ((hsame₁.trans hsame₂).trans hsame₃)
  refine ⟨_, _, store₅, rfl, rfl, rfl, rfl, hread₃.trans (hgrown.trans hgrown'), ?_, ?_⟩
  · rw [← hread]
    exact congrArg _ (hsame₁.readAs Store.asCommit host ours).symm
  · rw [updateRef_ok hrun]
    simp [hname]

theorem mergeInto_eq (hname : repo.refs.getCurrentBranch = .ok name)
    (htip : repo.refs.getBranch source = .ok tip)
    (hours : repo.refs.getBranch name = .ok ours) :
    mergeInto host call source repo = (do
      if ← canFastForward host ours tip then
        updateRef (branchRef name) tip ours
      else do
        let mergeBase ← findMergeBase host ours tip
        if mergeBase = tip then fail (str "already up to date")
        else if mergeBase = ours then
          updateRef (branchRef name) tip ours
        else threeWayMerge host call ours tip mergeBase source :
      GoM (Repository β) Unit) repo := by
  simp [mergeInto, bind_apply, mapError, query_apply, htip, hours, getCurrentBranchName, hname]

theorem findMergeBase_ok (hrun : findMergeBase host ours tip repo = (.ok base, after)) :
    ∃ store items, Store.SameContent repo.store store ∧
      after = { repo with store := store } ∧ tip ≠ [] ∧
      repo.store.Ancestry host ours items ∧ base ∈ items ∧
      Reaches (repo.store.parentOf host) tip base ∧
      ∀ others, repo.store.Ancestry host tip others → others.find? (· ∈ items) = some base := by
  rw [findMergeBase_eq, findMergeBaseIn] at hrun
  obtain ⟨items, _, hchain, hrun⟩ := bind_eq_ok hrun
  obtain ⟨mid, _, hmid, hwalk, ⟨_, rfl, hitems⟩ | ⟨rfl, -⟩⟩ :=
    chain_walked ours repo
  · rw [hwalk] at hchain
    cases hchain
    obtain ⟨last, outcome, hlast, hsearch, hsearched⟩ := findOnChain_searched tip { repo with store := mid }
    rw [bind_apply, hsearch] at hrun
    cases hsearched with
    | found hne hreach hp hfirst =>
      cases hrun
      simp only [Store.Ancestry, hmid.parentOf host] at hreach hfirst
      exact ⟨last, items, hmid.trans hlast, rfl, hne, hitems, of_decide_eq_true hp, hreach, hfirst⟩
    | _ => cases hrun
  · rw [hwalk] at hchain
    cases hchain

/-- A merge that returns nil is a fast forward, or it leaves no way from the
new tip of its branch to the source. -/
theorem mergeInto_moves (hhonest : repo.store.Honest host)
    (hfaithful : host.Faithful after.store.hashed)
    (hsafe : (repo.configuredAuthor call).HeaderSafe)
    (hname : repo.refs.getCurrentBranch = .ok name)
    (htip : repo.refs.getBranch source = .ok tip)
    (hours : repo.refs.getBranch name = .ok ours)
    (hrun : mergeInto host call source repo = (.ok (), after)) :
    ∃ new, after.refs = repo.refs.setRef (branchRef name) new ∧ tip ≠ [] ∧
      (new = tip ∧ Reaches (repo.store.parentOf host) tip ours ∨
        ¬ Reaches (repo.store.parentOf host) tip ours ∧
          ¬ Reaches (after.store.parentOf host) new tip) := by
  obtain ⟨_, mid, hahead, hrun⟩ := bind_eq_ok ((mergeInto_eq hname htip hours).symm.trans hrun)
  obtain ⟨store, outcome, hsame, hsearch, hsearched⟩ :=
    findOnChain_searched tip repo
  rw [canFastForward_eq, canFastForwardIn, bind_apply, hsearch] at hahead
  cases hsearched with
  | found hne hreach hp _ =>
    cases hahead
    rw [of_decide_eq_true hp] at hreach
    exact ⟨tip, by rw [updateRef_ok hrun], hne, .inl ⟨rfl, hreach⟩⟩
  | lost _ => cases hahead
  | @missed others hothers hnone =>
    cases hahead
    obtain ⟨base, _, hbase, hrun⟩ := bind_eq_ok hrun
    obtain ⟨last, items, hlast, rfl, hne, hitems, hmem, hreach, hfirst⟩ := findMergeBase_ok hbase
    simp only [Store.Ancestry, hsame.parentOf host] at hitems hreach hfirst
    split_ifs at hrun with huptodate hbehind
    · cases hrun
    · exact ⟨tip, by rw [updateRef_ok hrun], hne, .inl ⟨rfl, hbehind ▸ hreach⟩⟩
    have hstart : Walk (repo.store.parentOf host) (some tip) others := by
      simpa only [Store.Ancestry, named, if_neg hne] using hothers
    have hnot : ¬ Reaches (repo.store.parentOf host) tip ours := by
      intro hbad
      simpa using List.find?_eq_none.mp hnone ours (hstart.mem_of_reaches hbad)
    have htip' : tip ∉ items := by
      intro hbad
      have hfind := hfirst others hothers
      cases hstart <;> simp_all
    have hread : (repo.store.commitAt host tip).isSome := by
      obtain rfl | ⟨next, hlink, -⟩ := hreach.cases_head
      · exact absurd rfl huptodate
      · obtain ⟨commit, hcommit, -⟩ := Option.map_eq_some_iff.mp hlink
        exact Option.isSome_of_eq_some hcommit
    obtain ⟨tree, commit, final, rfl, htree, hauthor, hcommitter, hgrown,
      hold, rfl⟩ := threeWayMerge_ok hrun hname
    have hread' : Store.Grown host [] repo.store last := .of_sameContent (hsame.trans hlast)
    have hgrown' := hread'.trans hgrown
    have hheader : commit.HeaderSafe :=
      { treeHash_noNewline := by
          rw [htree]
          exact newline_not_mem_of_isHexDigest (host.hashObject_isHexDigest _)
        parentHash_noNewline := by
          obtain ⟨data, hfind, -⟩ := Store.parse_of_commitAt (Option.some_get hold).symm
          rw [← (hhonest.of_sameContent (hsame.trans hlast)).addressed _ _ hfind]
          exact newline_not_mem_of_isHexDigest (host.hashObject_isHexDigest _)
        author := hauthor ▸ hsafe
        committer := hcommitter ▸ hsafe }
    have hempty : commit.parentHash ≠ [] := by
      intro hroot
      rw [hroot] at hitems
      rw [Store.ancestry_nil.mp hitems] at hmem
      cases hmem
    exact ⟨_, rfl, hne, .inr ⟨hnot, hgrown'.not_reaches hhonest hfaithful
      hheader hempty hitems htip' hread hnot⟩⟩

/-! ## Merging again -/

/-- After a merge of `source`, whose tip is `tip`, into `branch`: the tip can
be reached, and a further merge into that branch reports so. -/
structure MergeRecorded (host : Host) (source branch tip : GoString)
    (after : Repository β) : Prop where
  reachable : ∃ new, after.refs.getBranch branch = .ok new ∧
    Reaches (after.store.parentOf host) new tip
  upToDate : ∀ call, (merge host call source [] { after with
    refs := after.refs.setHEADToBranch branch }).1 = .error (str "already up to date")

/-- The branch that `Merge` moves. -/
def mergeTarget (currentBranch target : GoString) : GoString :=
  if target ≠ [] ∧ target ≠ currentBranch then
    trimPrefix target (str "refs/heads/")
  else currentBranch

theorem checkoutBranch_ok (hrun : checkoutBranch host call name repo = (.ok (), after)) :
    after.refs.getCurrentBranch = .ok name := by
  obtain ⟨hash, mid, -, hrun⟩ := bind_eq_ok hrun
  split_ifs at hrun
  · obtain ⟨_, _, -, hrun⟩ := bind_eq_ok hrun
    obtain ⟨_, _, -, hrun⟩ := bind_eq_ok hrun
    cases hrun
    exact getCurrentBranch_of_attached rfl
  · obtain ⟨_, _, -, hrun⟩ := bind_eq_ok hrun
    cases hrun
    exact getCurrentBranch_of_attached rfl

theorem checkout_eq (hbranch : hasPrefix target (str "refs/heads/") = false →
      ∃ hash, repo.refs.getBranch target = .ok hash) :
    checkout host call target repo =
      checkoutBranch host call (trimPrefix target (str "refs/heads/")) repo := by
  cases hfull : hasPrefix target (str "refs/heads/") with
  | true => rw [checkout, if_pos hfull]
  | false =>
    obtain ⟨hash, hhash⟩ := hbranch hfull
    simp [checkout, trimPrefix, hfull, bind_apply, hhash]

theorem checkout_ok {hash : GoString}
    (hbranch : repo.refs.getBranch (trimPrefix target (str "refs/heads/")) = .ok hash)
    (hrun : checkout host call target repo = (.ok (), after)) :
    after.refs.getCurrentBranch = .ok (trimPrefix target (str "refs/heads/")) := by
  rw [checkout_eq fun hfull => ⟨hash, by
    simpa [trimPrefix, hfull] using hbranch⟩] at hrun
  exact checkoutBranch_ok hrun

/-- What a checkout cannot change of a merge. -/
def merging (repo : Repository β) :=
  (repo.refs.refs, repo.store.find, repo.store.hashed, repo.config)

theorem merging_lasting : Lasting (merging : Repository β → _) where
  read := fun _ _ hsame => by simp [merging, funext hsame.find, hsame.hashed]
  worktree := fun _ _ => rfl
  head := fun _ _ => rfl

theorem sameContent_of_merging (hsame : merging after = merging before) :
    Store.SameContent before.store after.store ∧
      after.refs.refs = before.refs.refs ∧ after.config = before.config := by
  simp only [merging, Prod.mk.injEq] at hsame
  exact ⟨⟨congrFun hsame.2.1, hsame.2.2.1⟩, hsame.1, hsame.2.2.2⟩

/-- Merging a branch into itself or into one that is at the same commit does
nothing and says so with nil. -/
theorem merge_same_tip (hne : tip ≠ []) (hname : repo.refs.getCurrentBranch = .ok name)
    (htip : repo.refs.getBranch source = .ok tip)
    (hours : repo.refs.getBranch name = .ok tip) :
    (merge host call source [] repo).1 = .ok () := by
  have hahead : canFastForward host tip tip repo = (.ok true, repo) := by
    simp [canFastForward_eq, canFastForwardIn, Store.fuel, findOnChain, hne, bind_apply]
  have hset : (repo.refs.updateRef (branchRef name) tip tip) =
      .ok (repo.refs.setRef (branchRef name) tip) := by
    have hget : repo.refs.getRef (branchRef name) = .ok tip := hours
    simp [RefStore.updateRef, hne, hget]
  have hcurrent : mapError (fun _ => str "not on a branch")
      (query fun repo : Repository β => repo.refs.getCurrentBranch) repo = (.ok name, repo) := by
    simp [mapError, query_apply, hname]
  rw [merge, bind_of_ok hcurrent, if_neg (by simp),
    mergeInto_eq hname htip hours, bind_of_ok hahead]
  simp [updateRef, bind_apply, query_apply, hset, mapRefs]

theorem merge_moves (hhonest : repo.store.Honest host)
    (hfaithful : host.Faithful after.store.hashed)
    (hsafe : ∀ call, (repo.configuredAuthor call).HeaderSafe)
    (hcurrent : repo.refs.getCurrentBranch = .ok name)
    (htip : repo.refs.getBranch source = .ok tip)
    (hours : repo.refs.getBranch (mergeTarget name target) = .ok ours)
    (hrun : merge host call source target repo = (.ok (), after)) :
    ∃ new, tip ≠ [] ∧ after.refs.refs =
        (repo.refs.setRef (branchRef (mergeTarget name target)) new).refs ∧
      (new = tip ∧ Reaches (repo.store.parentOf host) tip ours ∨
        ¬ Reaches (repo.store.parentOf host) tip ours ∧
          ¬ Reaches (after.store.parentOf host) new tip) := by
  obtain ⟨_, _, hquery, hrun⟩ := bind_eq_ok hrun
  obtain ⟨hbranch, rfl⟩ := query_eq_ok (mapError_eq_ok hquery)
  cases hcurrent.symm.trans hbranch
  split_ifs at hrun with hother
  · rw [mergeTarget, if_pos hother] at hours ⊢
    obtain ⟨_, mid, hcheckout, hrun⟩ := bind_eq_ok hrun
    have hcheckout := mapError_eq_ok hcheckout
    obtain ⟨last, hinto, rfl⟩ := deferring_eq_ok hrun
    obtain ⟨hsame, hrefs, hconfig⟩ := sameContent_of_merging
      ((merging_lasting.checkout host call target).of_run hcheckout)
    obtain ⟨hsame', hrefs', -⟩ := sameContent_of_merging
      (merging_lasting.checkout host (call.drop 2) name last)
    rw [hsame'.hashed] at hfaithful
    have hbranch : ∀ {name hash}, repo.refs.getBranch name = .ok hash →
        mid.refs.getBranch name = .ok hash := by
      intro name hash hget
      rw [getBranch_eq_ok_iff] at hget ⊢
      rwa [hrefs]
    have hauthor : (mid.configuredAuthor (call.drop 1)).HeaderSafe := by
      rw [configuredAuthor, getConfigValue, getConfigValue, hconfig]
      exact hsafe (call.drop 1)
    obtain ⟨new, hset, hne, hmoved⟩ := mergeInto_moves
      (hhonest.of_sameContent hsame) hfaithful hauthor
      (checkout_ok hours hcheckout) (hbranch htip) (hbranch hours) hinto
    rw [hsame.parentOf host] at hmoved
    rw [hrefs', hset, hsame'.parentOf host]
    refine ⟨new, hne, ?_, hmoved⟩
    simp [setRef, hrefs]
  · rw [mergeTarget, if_neg hother] at hours ⊢
    obtain ⟨new, hset, hne, hmoved⟩ := mergeInto_moves hhonest hfaithful
      (hsafe call) hcurrent htip hours hrun
    exact ⟨new, hne, by rw [hset], hmoved⟩

/-- `Merge` never leaves a record of what it merged: the tip of the source
can be reached only after a fast forward, and then a further merge returns
nil. -/
theorem merge_never_recorded (host : Host) (call : Call)
    (source target : GoString) {repo after : Repository β}
    {currentBranch tip ours : GoString} (hhonest : repo.store.Honest host)
    (hfaithful : host.Faithful after.store.hashed)
    (hsafe : ∀ call, (repo.configuredAuthor call).HeaderSafe)
    (hcurrent : repo.refs.getCurrentBranch = .ok currentBranch)
    (htip : repo.refs.getBranch source = .ok tip)
    (hours : repo.refs.getBranch (mergeTarget currentBranch target) = .ok ours)
    (hrun : merge host call source target repo = (.ok (), after)) :
    ((∃ new, after.refs.getBranch (mergeTarget currentBranch target) = .ok new ∧
        Reaches (after.store.parentOf host) new tip) ↔
      Reaches (repo.store.parentOf host) tip ours) ∧
    ¬ MergeRecorded host source (mergeTarget currentBranch target) tip after := by
  obtain ⟨new, hne, hrefs, hcases⟩ := merge_moves hhonest hfaithful hsafe hcurrent htip hours hrun
  have hnew : after.refs.getBranch (mergeTarget currentBranch target) = .ok new := by
    rw [getBranch_eq_ok_iff, hrefs, lookup_setRef_branchRef, if_pos rfl]
  rcases hcases with ⟨rfl, hforward⟩ | ⟨hbehind, hlost⟩
  · refine ⟨⟨fun _ => hforward, fun _ => ⟨new, hnew, .refl⟩⟩, ?_⟩
    intro hrecorded
    have hsource : after.refs.getBranch source = .ok new := by
      rw [getBranch_eq_ok_iff] at htip ⊢
      rw [hrefs, lookup_setRef_branchRef, htip, ite_self]
    have hagain := hrecorded.upToDate call
    have hnil : (merge host call source [] { after with
        refs := after.refs.setHEADToBranch (mergeTarget currentBranch target) }).1 = .ok () :=
      merge_same_tip hne (getCurrentBranch_of_attached rfl) hsource hnew
    rw [hnil] at hagain
    cases hagain
  · have hnot : ¬ ∃ new, after.refs.getBranch (mergeTarget currentBranch target) =
        .ok new ∧ Reaches (after.store.parentOf host) new tip := by
      rintro ⟨other, hother, hreach⟩
      rw [hnew] at hother
      cases hother
      exact hlost hreach
    exact ⟨⟨fun h => absurd h hnot, fun h => absurd h hbehind⟩,
      fun hrecorded => hnot hrecorded.reachable⟩

def sameTips : Repository MemoryBackend := { newRepository with
    refs := (newRepository.refs.setRef (branchRef (str "main"))
      [120]).setRef (branchRef (str "dev")) [120] }

theorem merge_never_recorded_same_tips :
    ¬ MergeRecorded checksums (str "dev") (mergeTarget (str "main") [])
      [120] (merge checksums epoch (str "dev") [] sameTips).2 := by
  have hsafe : (sameTips.configuredAuthor epoch).HeaderSafe := by
    constructor <;> decide +kernel
  have hrun : merge checksums epoch (str "dev") [] sameTips =
      (.ok (), (merge checksums epoch (str "dev") [] sameTips).2) :=
    Prod.ext (by decide +kernel) rfl
  have hfaithful : checksums.Faithful
      (merge checksums epoch (str "dev") [] sameTips).2.store.hashed := by
    decide +kernel
  exact (merge_never_recorded checksums epoch (str "dev") [] (Store.new_honest) hfaithful
    (fun _ => ⟨hsafe.1, hsafe.2, hsafe.3, hsafe.4, hsafe.5⟩)
    (by decide +kernel : sameTips.refs.getCurrentBranch = .ok (str "main"))
    (by decide +kernel : sameTips.refs.getBranch (str "dev") = .ok [120])
    (by decide +kernel : sameTips.refs.getBranch (mergeTarget (str "main") []) = .ok [120]) hrun).2

def diverged : Repository MemoryBackend :=
  let put (path : GoString) : GoM (Repository MemoryBackend) Unit := do
    mapStaging fun staging =>
      staging.addHash path (checksums.hashObject path)
    let _ ← commit checksums epoch path
  ((do
    put (str "a")
    branchCreate (str "dev")
    put (str "b")
    mapRefs fun refs => refs.setHEADToBranch (str "dev")
    put (str "c")
    mapRefs fun refs => refs.setHEADToBranch (str "main")) newRepository).2

/-- Merging `dev` into `main` twice makes two commits, and `dev` is on the
parent chain of neither. -/
theorem merge_unrecorded_diverged :
    let once := merge checksums epoch (str "dev") [] diverged
    let twice := merge checksums epoch (str "dev") [] once.2
    once.1 = .ok () ∧ twice.1 = .ok () ∧
      twice.2.branchTip (str "main") ≠ once.2.branchTip (str "main") ∧
      (chain checksums 9 (once.2.branchTip (str "main"))
        once.2).1.toOption.any (diverged.branchTip (str "dev") ∉ ·) ∧
      (chain checksums 9 (twice.2.branchTip (str "main"))
        twice.2).1.toOption.any (diverged.branchTip (str "dev") ∉ ·) := by
  decide +kernel

end Repository

end Govc
