import Govc.CommitExecution

/-!
# The contract of a commit

On a branch, a commit puts the staged changes on top of the branch's tree and
moves nothing else exactly when the tree format can carry every staged entry.
With a detached HEAD it starts a new history and overwrites `main`.
-/

namespace Govc

open Go Host RefStore Store

def Tree.toMap (tree : Tree) (path : GoString) : Option GoString :=
  (tree.entries.find? fun entry => entry.name = path).map TreeEntry.hash

def Tree.Distinct (tree : Tree) : Prop := (tree.entries.map TreeEntry.name).Nodup

def StagingArea.overlay (staging : StagingArea)
    (base : GoString → Option GoString) (path : GoString) :
    Option GoString :=
  match staging.files.lookup path with
  | some hash => some hash
  | none => if staging.isRemoved path then none else base path

def StagingArea.Encodable (staging : StagingArea) : Prop :=
  ∀ path hash, staging.files.lookup path = some hash → 0 ∉ path ∧ IsHexDigest hash

namespace Repository

variable {β : Type}

variable (staging : StagingArea)

variable (order : RangeOrder)

theorem mem_stagedEntries (entry : TreeEntry) :
    entry ∈ stagedEntries staging order ↔
      entry.mode = str "100644" ∧ staging.files.lookup entry.name = some entry.hash := by
  unfold stagedEntries
  rw [List.mem_map]
  constructor
  · intro hmem
    obtain ⟨⟨path, hash⟩, hstaged, rfl⟩ := hmem
    exact ⟨rfl, (GoMap.mem_range order _ _).mp hstaged⟩
  · intro hentry
    refine ⟨(entry.name, entry.hash), (GoMap.mem_range order _ _).mpr hentry.2, ?_⟩
    rw [← hentry.1]

theorem stagedEntries_names :
    (stagedEntries staging order).map TreeEntry.name =
      (staging.files.range order).map Prod.fst := by
  simp [stagedEntries, Function.comp_def]

theorem find_stagedEntries (path : GoString) :
    ((stagedEntries staging order).find? fun entry => entry.name = path).map TreeEntry.hash =
      staging.files.lookup path := by
  cases hfind : (stagedEntries staging order).find? fun entry => entry.name = path with
  | none =>
    cases hlookup : staging.files.lookup path with
    | none => rfl
    | some hash =>
      have hmem : (⟨str "100644", path, hash⟩ : TreeEntry) ∈ stagedEntries staging order :=
        (mem_stagedEntries staging order _).mpr ⟨rfl, hlookup⟩
      have hnot := List.find?_eq_none.mp hfind _ hmem
      simp at hnot
  | some entry =>
    have hmem := List.mem_of_find?_eq_some hfind
    have hname : entry.name = path := by
      simpa using List.find?_some hfind
    have hentry := ((mem_stagedEntries staging order entry).mp hmem).2
    rw [hname] at hentry
    simp [hentry]

theorem find_keeps {entries : List TreeEntry} :
    (entries.filter (keeps staging)).find? (fun entry => entry.name = path) =
      if staging.contains path ∨ staging.isRemoved path then none
      else entries.find? fun entry => entry.name = path := by
  induction entries with
  | nil => simp
  | cons entry entries ih =>
    by_cases hname : entry.name = path
    · by_cases hgone : staging.contains path ∨ staging.isRemoved path
      · have hkeeps : keeps staging entry = false := by
          unfold keeps
          rw [hname]
          rcases hgone with h | h
          · simp [h]
          · simp [h]
        rw [List.filter_cons_of_neg (by simp [hkeeps]), ih, if_pos hgone, if_pos hgone]
      · have hkeeps : keeps staging entry = true := by
          unfold keeps
          rw [hname]
          simpa [not_or] using hgone
        rw [List.filter_cons_of_pos hkeeps, if_neg hgone]
        simp [hname]
    · have hskip : ∀ rest : List TreeEntry,
          (entry :: rest).find? (fun entry => entry.name = path) =
            rest.find? fun entry => entry.name = path := by
        simp [hname]
      by_cases hkeeps : keeps staging entry = true
      · rw [List.filter_cons_of_pos hkeeps, hskip, hskip, ih]
      · rw [List.filter_cons_of_neg hkeeps, hskip, ih]

theorem toMap_overlay (entries : List TreeEntry) (path : GoString) :
    (Tree.mk (entries.filter (keeps staging) ++ stagedEntries staging order)).toMap path =
      staging.overlay (Tree.mk entries).toMap path := by
  unfold Tree.toMap StagingArea.overlay
  rw [List.find?_append, find_keeps]
  have hstaged := find_stagedEntries staging order path
  cases hlookup : staging.files.lookup path with
  | some hash =>
    have hcontains : staging.contains path = true := by
      simp [StagingArea.contains, GoMap.contains, hlookup]
    rw [if_pos (.inl hcontains), Option.none_or, hstaged, hlookup]
  | none =>
    rw [hlookup, Option.map_eq_none_iff] at hstaged
    have hcontains : staging.contains path = false := by
      simp [StagingArea.contains, GoMap.contains, hlookup]
    rw [hstaged, Option.or_none]
    by_cases hremoved : staging.isRemoved path = true
    · simp [hremoved]
    · simp [hcontains, hremoved]

theorem distinct_overlay {entries : List TreeEntry} (hdistinct : (Tree.mk entries).Distinct) :
    (Tree.mk (entries.filter (keeps staging) ++ stagedEntries staging order)).Distinct := by
  unfold Tree.Distinct at hdistinct ⊢
  simp only [List.map_append]
  rw [List.nodup_append]
  refine ⟨?_, ?_, ?_⟩
  · exact hdistinct.sublist (List.filter_sublist.map TreeEntry.name)
  · rw [stagedEntries_names]
    exact GoMap.range_keys_nodup order staging.files
  · intro name hinherited other hstaged heq
    subst heq
    obtain ⟨old, hold, rfl⟩ := List.mem_map.mp hinherited
    obtain ⟨new, hnew, hname⟩ := List.mem_map.mp hstaged
    have hkept := (List.mem_filter.mp hold).2
    have hlookup := ((mem_stagedEntries staging order new).mp hnew).2
    rw [hname] at hlookup
    simp [keeps, StagingArea.contains, GoMap.contains, hlookup] at hkept

def branchTip (repo : Repository β) (branch : GoString) : GoString :=
  (repo.refs.refs.lookup (branchRef branch)).getD []

variable [Backend β]

/-- The tree at a branch's tip as a map, empty for a branch without
commits. -/
def branchMap (host : Host) (repo : Repository β) (branch path : GoString) : Option GoString :=
  if repo.branchTip branch = [] then none
  else
    (repo.store.treeOfCommit host (repo.branchTip branch)).bind fun tree =>
      tree.toMap path

/-- HEAD is attached to a named branch whose tip, if it has one, is a stored
commit with a readable tree of distinct names. -/
structure OnBranch (host : Host) (repo : Repository β) (branch : GoString) :
    Prop where
  attached : repo.refs.head = str "ref: refs/heads/" ++ branch
  named : branch ≠ []
  readable : repo.branchTip branch ≠ [] →
    ∃ tree, repo.store.treeOfCommit host (repo.branchTip branch) = some tree ∧ tree.Distinct

structure CommitContract (host : Host) (branch : GoString)
    (before after : Repository β) (made : Commit) : Prop where
  parent : made.parentHash = before.branchTip branch
  stored : after.store.find ((Object.commit made).hash host) = some (Object.commit made).serialize
  tree : ∃ tree, after.store.treeAt host made.treeHash = some tree ∧ tree.Distinct ∧
    ∀ path, tree.toMap path = before.staging.overlay (before.branchMap host branch) path
  moved : after.refs.refs.lookup (branchRef branch) = some ((Object.commit made).hash host)
  otherRefs : ∀ name, name ≠ branchRef branch →
    after.refs.refs.lookup name = before.refs.refs.lookup name
  head : after.refs.head = before.refs.head
  staging : after.staging = StagingArea.new

variable {host : Host} {repo : Repository β} {branch : GoString}

variable (hon : repo.OnBranch host branch)

include hon

theorem OnBranch.tip_eq : repo.tip = repo.branchTip branch := by
  unfold tip branchTip
  simp only [getCurrentBranch_of_attached hon.attached, if_neg hon.named]
  cases hlookup : repo.refs.refs.lookup (branchRef branch) with
  | none =>
    obtain ⟨e, he⟩ := getBranch_of_lookup_none hlookup
    simp [he]
  | some hash =>
    simp [(getBranch_eq_ok_iff _ _ _).mpr hlookup]

theorem OnBranch.branchToMove_eq : repo.branchToMove = branch := by
  simp [branchToMove, getCurrentBranch_of_attached hon.attached]

theorem OnBranch.tipEntries_map :
    (Tree.mk (repo.tipEntries host)).toMap = repo.branchMap host branch := by
  funext path
  unfold tipEntries branchMap
  rw [hon.tip_eq]
  by_cases hempty : repo.branchTip branch = []
  · simp [hempty, Tree.toMap]
  · obtain ⟨tree, htree, -⟩ := hon.readable hempty
    simp [hempty, htree]

theorem OnBranch.tipEntries_distinct : (Tree.mk (repo.tipEntries host)).Distinct := by
  unfold tipEntries
  rw [hon.tip_eq]
  by_cases hempty : repo.branchTip branch = []
  · simp [hempty, Tree.Distinct]
  · obtain ⟨tree, htree, hdistinct⟩ := hon.readable hempty
    rw [if_neg hempty, htree]
    exact hdistinct

end Repository

variable {β : Type} {host : Host} {store : Store β} {tree : Tree}

theorem Store.parse_of_treeAt [Backend β] {hash : GoString}
    (hat : store.treeAt host hash = some tree) :
    ∃ data, store.find hash = some data ∧ parseObject host data = .ok (.tree tree) := by
  obtain ⟨data, hfind, hparse⟩ := Option.bind_eq_some_iff.mp hat
  refine ⟨data, hfind, ?_⟩
  cases hobject : parseObject host data with
  | error e => simp [hobject, Except.toOption] at hparse
  | ok object =>
    cases object with
    | tree t =>
      simp [hobject, Except.toOption, asTree] at hparse
      rw [hparse]
    | _ => simp [hobject, Except.toOption, asTree] at hparse

theorem Store.treeAt_encodable [Backend β] {hash : GoString}
    (hat : store.treeAt host hash = some tree) :
    ∀ e ∈ tree.entries, e.Encodable := by
  obtain ⟨data, -, hparse⟩ := parse_of_treeAt hat
  exact parseObject_tree_encodable hparse

theorem Store.treeAt_of_found [Backend β]
    (hfound : store.find ((Object.tree tree).hash host) = some (Object.tree tree).serialize)
    (hencodable : ∀ e ∈ tree.entries, e.Encodable)
    (hsize : (Object.tree tree).serialize.length < 2 ^ 63) :
    store.treeAt host ((Object.tree tree).hash host) = some tree := by
  have hcontent : tree.serializeContent.length < 2 ^ 63 := by
    have hle : tree.serializeContent.length ≤ (Object.tree tree).serialize.length := by
      simp [Object.serialize, Object.content]
      omega
    omega
  unfold treeAt readAs
  rw [hfound, Option.bind_some, parseObject_tree host hencodable hcontent]
  rfl

namespace Repository

variable {β : Type} [Backend β]

theorem tipEntries_encodable {repo : Repository β} :
    ∀ e ∈ repo.tipEntries host, e.Encodable := by
  unfold tipEntries
  by_cases hempty : repo.tip = []
  · simp [hempty]
  · rw [if_neg hempty]
    cases htree : repo.store.treeOfCommit host repo.tip with
    | none => simp
    | some tree =>
      obtain ⟨commit, -, hat⟩ := Option.bind_eq_some_iff.mp htree
      exact treeAt_encodable hat

theorem nextTree_encodable (host : Host) (call : Call) {repo : Repository β}
    (hstaging : repo.staging.Encodable) :
    ∀ e ∈ (repo.nextTree host call).entries, e.Encodable := by
  have hmode : space ∉ str "100644" ∧ 0 ∉ str "100644" := by decide
  intro entry hentry
  rcases List.mem_append.mp hentry with hinherited | hstaged
  · exact tipEntries_encodable entry (List.mem_filter.mp hinherited).1
  · obtain ⟨hm, hlookup⟩ := (mem_stagedEntries repo.staging (call.order 0) entry).mp hstaged
    obtain ⟨hname, hhash⟩ := hstaging _ _ hlookup
    constructor
    · rw [hm]
      exact hmode.1
    · rw [hm]
      exact hmode.2
    · exact hname
    · exact hhash

theorem CommitContract.staging_encodable
    {host : Host} {branch : GoString} {before after : Repository β}
    {made : Commit} (hcontract : CommitContract host branch before after made) :
    before.staging.Encodable := by
  intro path hash hlookup
  obtain ⟨tree, hat, -, hmap⟩ := hcontract.tree
  have hpath := hmap path
  rw [StagingArea.overlay, hlookup, Tree.toMap, Option.map_eq_some_iff] at hpath
  obtain ⟨entry, hfind, hhash⟩ := hpath
  have hname : entry.name = path := by
    simpa using List.find?_some hfind
  have hentry := treeAt_encodable hat entry (List.mem_of_find?_eq_some hfind)
  exact ⟨hname ▸ hentry.name_noNul, hhash ▸ hentry.hash_isHexDigest⟩

/-- A commit on a branch meets its contract exactly when every staged path is
free of NUL bytes and every staged hash is a SHA-1 in lower-case hex. -/
theorem commit_onBranch_iff (host : Host) (call : Call) (message branch : GoString)
    {before after : Repository β} {made : Commit}
    (hon : before.OnBranch host branch) (hhonest : before.store.Honest host)
    (hrun : commit host call message before = (.ok made, after))
    (hfaithful : host.Faithful after.store.hashed) :
    CommitContract host branch before after made ↔ before.staging.Encodable := by
  obtain ⟨rfl, store, hgrown, rfl⟩ := commit_ok hrun
  have hgains := hgrown.gains hhonest hfaithful
  have htreeMem : Object.tree (before.nextTree host call) ∈
      before.nextObjects host call message := by
    simp [nextObjects]
  have hcommitMem : Object.commit (before.nextCommit host call message) ∈
      before.nextObjects host call message := by
    simp [nextObjects]
  constructor
  · exact CommitContract.staging_encodable
  · intro hstaging
    have hsize : (Object.tree (before.nextTree host call)).serialize.length < 2 ^ 63 := by
      apply hfaithful.bounded
      rw [committed, hgrown.hashed]
      simp [nextObjects]
    constructor
    · exact hon.tip_eq
    · exact hgains.found _ hcommitMem
    · refine ⟨before.nextTree host call, ?_, ?_, ?_⟩
      · exact treeAt_of_found (hgains.found _ htreeMem)
          (nextTree_encodable host call hstaging) hsize
      · exact distinct_overlay _ _ hon.tipEntries_distinct
      · intro path
        rw [← hon.tipEntries_map]
        exact toMap_overlay _ _ _ path
    · simp [committed, committedRefs, hon.branchToMove_eq, hon.named, setHEADToBranch, setHEAD,
        lookup_setRef_branchRef]
    · intro name hname
      simp [committed, committedRefs, hon.branchToMove_eq, hon.named, setHEADToBranch, setHEAD,
        lookup_setRef_branchRef, hname]
    · simp [committed, committedRefs, hon.branchToMove_eq, hon.named,
        setHEADToBranch, setHEAD, hon.attached]
    · rfl

def staged (path hash : GoString) : Repository MemoryBackend :=
  { newRepository with staging := StagingArea.new.addHash path hash }

def epoch : Call where
  clock := fun _ => Time.ofUnix 0 0 inInt64_zero
  unixNano := 0
  order := fun _ => RangeOrder.inserted

theorem staged_onBranch {host : Host} {path hash : GoString} :
    (staged path hash).OnBranch host (str "main") where
  attached := rfl
  named := by decide
  readable := by
    intro htip
    exact absurd rfl htip

theorem staged_encodable {path hash : GoString} (hpath : 0 ∉ path) (hhash : IsHexDigest hash) :
    (staged path hash).staging.Encodable := by
  intro other found hlookup
  rw [staged, StagingArea.addHash, GoMap.lookup_insert_eq] at hlookup
  by_cases heq : other = path
  · rw [if_pos heq, Option.some.injEq] at hlookup
    subst heq hlookup
    exact ⟨hpath, hhash⟩
  · simp [heq, StagingArea.new] at hlookup

theorem commit_onBranch_staged_hash :
    CommitContract checksums (str "main") (staged (str "a") (checksums.hashObject []))
      (commit checksums epoch (str "m") (staged (str "a") (checksums.hashObject []))).2
      (nextCommit checksums epoch (str "m") (staged (str "a") (checksums.hashObject []))) := by
  have hrun : commit checksums epoch (str "m")
      (staged (str "a") (checksums.hashObject [])) =
        (.ok (nextCommit checksums epoch (str "m") (staged (str "a") (checksums.hashObject []))),
          (commit checksums epoch (str "m") (staged (str "a") (checksums.hashObject []))).2) := by
    obtain ⟨after, -, hcommit⟩ := commit_reliable checksums epoch
      (str "m") (staged (str "a") (checksums.hashObject []))
    rw [hcommit]
  apply (commit_onBranch_iff checksums epoch (str "m") (str "main")
    (staged_onBranch) (new_honest) hrun (by decide +kernel)).mpr
  exact staged_encodable (by decide) (checksums.hashObject_isHexDigest [])

/-- `StagingArea.Add` stages a SHA-256, and the commit's tree then holds
another hash. -/
theorem commit_staged_sha256 :
    let before : Repository MemoryBackend :=
      { newRepository with
        staging := StagingArea.new.add checksums (str "a") (str "x") }
    let after := (commit checksums epoch (str "m") before).2
    let made := nextCommit checksums epoch (str "m") before
    before.OnBranch checksums (str "main") ∧
      commit checksums epoch (str "m") before = (.ok made, after) ∧
      checksums.Faithful after.store.hashed ∧
      ¬ CommitContract checksums (str "main") before after made := by
  intro before after made
  refine ⟨staged_onBranch, ?_, ?_, ?_⟩
  · obtain ⟨store, -, hrun⟩ := commit_reliable checksums epoch (str "m") before
    simp only [after, hrun]
    rfl
  · decide +kernel
  · intro hcontract
    have hstaged := hcontract.staging_encodable (str "a")
      (hexEncode (checksums.sha256 (str "x"))) rfl
    have hlength := hstaged.2.1
    rw [hexEncode_length, checksums.sha256_length] at hlength
    omega

/-! ## Detached HEAD -/

structure DetachedAt (host : Host) (repo : Repository β) (hash : GoString) :
    Prop where
  head : repo.refs.head = hash
  detached : repo.refs.getCurrentBranch = .error (str "HEAD is detached")
  nonempty : hash ≠ []
  stored : ∃ commit, repo.store.commitAt host hash = some commit

structure DetachedContract (host : Host) (hash : GoString)
    (before after : Repository β) (made : Commit) : Prop where
  parent : made.parentHash = hash
  tree : ∃ base tree, before.store.treeOfCommit host hash = some base ∧
    after.store.treeAt host made.treeHash = some tree ∧
    ∀ path, tree.toMap path = before.staging.overlay base.toMap path
  head : after.refs.head = (Object.commit made).hash host
  branches : ∀ name, after.refs.refs.lookup (branchRef name) =
    before.refs.refs.lookup (branchRef name)

theorem DetachedAt.commit_to_main {host : Host} {call : Call} {message hash : GoString}
    {before after : Repository β} {made : Commit}
    (hdetached : before.DetachedAt host hash)
    (hrun : commit host call message before = (.ok made, after)) :
    made.parentHash = [] ∧
      after.refs.refs.lookup (branchRef (str "main")) = some ((Object.commit made).hash host) ∧
      after.refs.head = str "ref: refs/heads/" ++ str "main" := by
  obtain ⟨rfl, store, -, rfl⟩ := commit_ok hrun
  have hbranch : before.branchToMove = str "main" := by
    simp [branchToMove, hdetached.detached]
  have hmain : str "main" ≠ [] := by decide
  refine ⟨?_, ?_, ?_⟩
  · simp [nextCommit, tip, hdetached.detached]
  · simp [committed, committedRefs, hbranch, hmain, setHEADToBranch, setHEAD,
      lookup_setRef_branchRef]
  · simp [committed, committedRefs, hbranch, hmain, setHEADToBranch, setHEAD]

/-- No commit on a detached HEAD meets its contract. -/
theorem commit_detached_never (host : Host) (call : Call) (message hash : GoString)
    {before after : Repository β} {made : Commit}
    (hdetached : before.DetachedAt host hash)
    (hrun : commit host call message before = (.ok made, after)) :
    ¬ DetachedContract host hash before after made := by
  intro hcontract
  have hparent := (hdetached.commit_to_main hrun).1
  rw [hcontract.parent] at hparent
  exact hdetached.nonempty hparent

def detachedSample : Repository MemoryBackend :=
  let before := staged (str "a") (checksums.hashObject [])
  let after := (commit checksums epoch (str "m") before).2
  { after with
    refs := after.refs.setHEADToCommit (after.branchTip (str "main")) }

theorem detachedSample_detachedAt :
    detachedSample.DetachedAt checksums detachedSample.refs.head where
  head := rfl
  detached := by decide +kernel
  nonempty := by decide +kernel
  stored := by
    apply Option.isSome_iff_exists.mp
    decide +kernel

theorem commit_detached_sample :
    ¬ DetachedContract checksums detachedSample.refs.head detachedSample
      (commit checksums epoch (str "n") detachedSample).2
      (nextCommit checksums epoch (str "n") detachedSample) := by
  obtain ⟨after, -, hcommit⟩ := commit_reliable checksums epoch (str "n") detachedSample
  apply commit_detached_never checksums epoch (str "n") _ detachedSample_detachedAt
  rw [hcommit]

/-- The second commit of that repository has no parent, and `main` no longer
leads to the first one. -/
theorem commit_detached_drops_parent :
    let made := nextCommit checksums epoch (str "n") detachedSample
    let after := (commit checksums epoch (str "n") detachedSample).2
    detachedSample.DetachedAt checksums detachedSample.refs.head ∧
      commit checksums epoch (str "n") detachedSample = (.ok made, after) ∧
      detachedSample.branchTip (str "main") = detachedSample.refs.head ∧
      after.branchTip (str "main") = (Object.commit made).hash checksums ∧
      made.parentHash = [] ∧
      ¬ DetachedContract checksums detachedSample.refs.head detachedSample after made := by
  intro made after
  have hrun : commit checksums epoch (str "n") detachedSample = (.ok made, after) := by
    obtain ⟨store, -, hcommit⟩ := commit_reliable checksums epoch (str "n") detachedSample
    simp only [after, hcommit]
    rfl
  obtain ⟨hparent, hmain, -⟩ := detachedSample_detachedAt.commit_to_main hrun
  refine ⟨detachedSample_detachedAt, hrun, ?_, ?_, hparent, ?_⟩
  · decide +kernel
  · rw [branchTip, hmain]
    rfl
  · intro hcontract
    rw [hcontract.parent] at hparent
    exact detachedSample_detachedAt.nonempty hparent

end Repository

end Govc
