import Govc.CoreOperations
import Govc.ObjectIdentity

/-!
# Trees and the order of maps

`createTreeFromStaging` and the `buildTreeFromStaging` of the core append the
staged files in the order in which Go ranges over a map, and a tree is
serialised in the order of its entries.  So the hash of a tree depends on that
order unless the encodings of the staged files commute, which those of two
files with plain names never do.
-/

namespace Govc

open Go
open Repository (mem_stagedEntries newRepository stagedEntries)

/-! ## Permuted contents -/

section

variable {α : Type}

theorem flatMap_eq_of_perm {first second : List α}
    (hperm : first.Perm second)
    (hcommute : ∀ a ∈ first, ∀ b ∈ first, f a ++ f b = f b ++ f a) :
    first.flatMap f = second.flatMap f := by
  induction hperm with
  | nil => rfl
  | cons a hperm ih =>
    have htail := ih fun b hb c hc =>
      hcommute b (List.mem_cons_of_mem a hb) c (List.mem_cons_of_mem a hc)
    simp [htail]
  | swap a b rest =>
    have hswap := hcommute b (by simp) a (by simp)
    simp [← List.append_assoc, hswap]
  | trans hfirst hsecond ihfirst ihsecond =>
    refine (ihfirst hcommute).trans (ihsecond fun a ha b hb => ?_)
    exact hcommute a (hfirst.mem_iff.mpr ha) b (hfirst.mem_iff.mpr hb)

theorem flatMap_stable_iff (f : α → Bytes) (items : List α) :
    (∀ first second : List α, first.Perm items → second.Perm items →
        first.flatMap f = second.flatMap f) ↔
      ∀ a ∈ items, ∀ b ∈ items, f a ++ f b = f b ++ f a := by
  classical
  constructor
  · intro hstable a ha b hb
    by_cases hsame : b = a
    · rw [hsame]
    · have hrest : b ∈ items.erase a := (List.mem_erase_of_ne hsame).mpr hb
      have hperm : (a :: b :: (items.erase a).erase b).Perm items :=
        ((List.perm_cons_erase hrest).symm.cons a).trans (List.perm_cons_erase ha).symm
      have heq := hstable _ _ hperm ((List.Perm.swap a b _).trans hperm)
      simpa [← List.append_assoc] using heq
  · intro hcommute first second hfirst hsecond
    refine flatMap_eq_of_perm (hfirst.trans hsecond.symm) ?_
    intro a ha b hb
    exact hcommute a (hfirst.mem_iff.mp ha) b (hfirst.mem_iff.mp hb)

end

/-! ## Trees of all orders -/

def Commuting (entries : List TreeEntry) : Prop :=
  ∀ first ∈ entries, ∀ second ∈ entries,
    first.serialize ++ second.serialize = second.serialize ++ first.serialize

def OneHash (host : Host) (trees : Set Tree) : Prop :=
  ∀ first ∈ trees, ∀ second ∈ trees, (Object.tree first).hash host = (Object.tree second).hash host

def Host.Separates (host : Host) (trees : Set Tree) : Prop :=
  ∀ first ∈ trees, ∀ second ∈ trees,
    (Object.tree first).hash host = (Object.tree second).hash host →
      (Object.tree first).serialize = (Object.tree second).serialize

/-- The kept entries with the staged ones behind them, in any order. -/
def allOrders {α : Type} (kept : List TreeEntry) (encode : α → TreeEntry)
    (staged : List α) : Set Tree :=
  {tree | ∃ visited : List α,
    visited.Perm staged ∧ tree = ⟨kept ++ visited.map encode⟩}

theorem serialize_tree_eq_iff {first second : Tree} :
    (Object.tree first).serialize = (Object.tree second).serialize ↔
      first.serializeContent = second.serializeContent := by
  constructor
  · exact Object.content_eq_of_serialize_eq
  · intro hcontent
    simp [Object.serialize, Object.header, Object.content, Object.type, hcontent]

theorem serializeContent_append_map {α : Type} {kept : List TreeEntry}
    {encode : α → TreeEntry} {visited : List α} :
    Tree.serializeContent ⟨kept ++ visited.map encode⟩ =
      kept.flatMap TreeEntry.serialize ++ visited.flatMap fun a => (encode a).serialize := by
  simp [Tree.serializeContent, List.flatMap_map]

theorem oneHash_allOrders_iff {α : Type} {host : Host}
    {kept : List TreeEntry} {encode : α → TreeEntry} {staged : List α}
    (hdigest : host.Separates (allOrders kept encode staged)) :
    OneHash host (allOrders kept encode staged) ↔ Commuting (staged.map encode) := by
  have hstable := flatMap_stable_iff (fun a => (encode a).serialize) staged
  have hcommuting : Commuting (staged.map encode) ↔
      ∀ a ∈ staged, ∀ b ∈ staged,
        (encode a).serialize ++ (encode b).serialize =
          (encode b).serialize ++ (encode a).serialize := by
    simp [Commuting]
  rw [hcommuting, ← hstable]
  constructor
  · intro hone first second hfirst hsecond
    have hmade := hdigest _ ⟨first, hfirst, rfl⟩ _ ⟨second, hsecond, rfl⟩
      (hone _ ⟨first, hfirst, rfl⟩ _ ⟨second, hsecond, rfl⟩)
    rw [serialize_tree_eq_iff, serializeContent_append_map, serializeContent_append_map] at hmade
    exact List.append_cancel_left hmade
  · rintro hsame _ ⟨first, hfirst, rfl⟩ _ ⟨second, hsecond, rfl⟩
    unfold Object.hash
    rw [serialize_tree_eq_iff.mpr]
    rw [serializeContent_append_map, serializeContent_append_map, hsame first second hfirst hsecond]

theorem name_eq_of_commute (first second : TreeEntry)
    (hmodes : space ∉ first.mode ∧ space ∉ second.mode)
    (hnames : 0 ∉ first.name ∧ 0 ∉ second.name)
    (hcommute : first.serialize ++ second.serialize = second.serialize ++ first.serialize) :
    first.name = second.name := by
  have hsplit : ∀ (entry : TreeEntry) (rest : Bytes), space ∉ entry.mode → 0 ∉ entry.name →
      (splitN2 space (entry.serialize ++ rest)).bind (fun parts =>
        (splitN2 0 parts.2).map Prod.fst) = some entry.name := by
    intro entry rest hmode hname
    have houter := splitN2_append hmode
    have hinner := splitN2_append hname (hexDecode entry.hash ++ rest)
    simp only [TreeEntry.serialize, List.append_assoc, List.cons_append]
    rw [houter, Option.bind_some, hinner]
    rfl
  have hfirst := hsplit first second.serialize hmodes.1 hnames.1
  have hsecond := hsplit second first.serialize hmodes.2 hnames.2
  rw [hcommute, hsecond] at hfirst
  exact (Option.some.inj hfirst).symm

/-! ## The two implementations -/

namespace Repository

variable {β : Type} [Backend β]

/-- The parent's tree and the contents of the staging area are the same. -/
structure SameStart (host : Host) (repo repo' : Repository β) : Prop where
  parent : repo'.tipEntries host = repo.tipEntries host
  files : ∀ path, repo'.staging.files.lookup path = repo.staging.files.lookup path
  removed : ∀ path, repo'.staging.isRemoved path = repo.staging.isRemoved path

/-- What `createTreeFromStaging` can return from the same start. -/
def treesFromStaging (host : Host) (repo : Repository β) : Set Tree :=
  {tree | ∃ repo' call after, repo.SameStart host repo' ∧
    createTreeFromStaging host call repo' = (.ok tree, after)}

theorem treesFromStaging_eq (host : Host) (repo : Repository β) :
    repo.treesFromStaging host =
      allOrders ((repo.tipEntries host).filter (keeps repo.staging))
        (fun staged => ⟨str "100644", staged.1, staged.2⟩)
        (repo.staging.files.range .inserted) := by
  ext tree
  constructor
  · rintro ⟨repo', call, after, hsame, hcreate⟩
    obtain ⟨_, _, hrun⟩ := createTreeFromStaging_run host call repo'
    have htree : repo'.nextTree host call = tree := by
      have hboth := hrun.symm.trans hcreate
      exact Outcome.ok.inj (congrArg Prod.fst hboth)
    have hkeeps : keeps repo'.staging = keeps repo.staging := by
      funext entry
      simp [keeps, StagingArea.contains, GoMap.contains, hsame.files, hsame.removed]
    refine ⟨repo'.staging.files.range (call.order 0), GoMap.range_perm hsame.files, ?_⟩
    rw [← htree, nextTree, hsame.parent, hkeeps]
    rfl
  · rintro ⟨visited, hperm, rfl⟩
    obtain ⟨order, horder⟩ := GoMap.exists_order _ hperm
    obtain ⟨after, _, hrun⟩ := createTreeFromStaging_run host
      ⟨fun _ => .zero, 0, fun _ => order⟩ repo
    rw [← horder]
    exact ⟨repo, _, _, ⟨rfl, fun _ => rfl, fun _ => rfl⟩, hrun⟩

end Repository

/-- What `buildTreeFromStaging` can return from the same staged entries. -/
def Core.CleanStagingArea.treesFromStaging (staging : Core.CleanStagingArea) : Set Tree :=
  {tree | ∃ (staging' : Core.CleanStagingArea) (order : RangeOrder),
    (∀ path, staging'.entries.lookup path = staging.entries.lookup path) ∧
      Core.Operations.buildTreeFromStaging order staging' = tree}

theorem Core.treesFromStaging_eq (staging : Core.CleanStagingArea) :
    staging.treesFromStaging =
      allOrders [] (fun staged => ⟨staged.2.mode, staged.1, staged.2.hash⟩)
        (staging.entries.range .inserted) := by
  ext tree
  constructor
  · rintro ⟨staging', order, hsame, rfl⟩
    exact ⟨staging'.entries.range order, GoMap.range_perm hsame, rfl⟩
  · rintro ⟨visited, hperm, rfl⟩
    obtain ⟨order, horder⟩ := GoMap.exists_order _ hperm
    refine ⟨staging, order, fun _ => rfl, ?_⟩
    rw [← horder]
    rfl

theorem commuting_stagedEntries_iff {staging : StagingArea}
    (hplain : ∀ path, staging.contains path = true → 0 ∉ path) :
    Commuting (stagedEntries staging .inserted) ↔ staging.files.keys.length ≤ 1 := by
  have hlength : (stagedEntries staging .inserted).length = staging.files.keys.length := by
    have hkeys := congrArg List.length (GoMap.range_keys .inserted staging.files)
    simpa [stagedEntries, RangeOrder.inserted] using hkeys
  constructor
  · intro hcommuting
    by_contra hmany
    cases hkeys : staging.files.keys with
    | nil => simp [hkeys] at hmany
    | cons first rest =>
      cases rest with
      | nil => simp [hkeys] at hmany
      | cons second rest =>
        have hnodup := staging.files.keys_nodup
        have hlookup : ∀ path ∈ staging.files.keys, ∃ hash,
            staging.files.lookup path = some hash := fun path hpath =>
          Option.isSome_iff_exists.mp (AList.lookup_isSome.mpr (AList.mem_keys.mpr hpath))
        obtain ⟨hash, hfirst⟩ := hlookup first (by simp [hkeys])
        obtain ⟨hash', hsecond⟩ := hlookup second (by simp [hkeys])
        have hmode : space ∉ str "100644" := by decide
        have hname := name_eq_of_commute ⟨str "100644", first, hash⟩
          ⟨str "100644", second, hash'⟩ ⟨hmode, hmode⟩
          ⟨hplain first (by simp [StagingArea.contains, GoMap.contains,
              hfirst]),
            hplain second (by simp [StagingArea.contains, GoMap.contains,
              hsecond])⟩
          (hcommuting _ ((mem_stagedEntries _ _ _).mpr ⟨rfl, hfirst⟩) _
            ((mem_stagedEntries _ _ _).mpr ⟨rfl, hsecond⟩))
        rw [hkeys] at hnodup
        simp only [] at hname
        simp [hname] at hnodup
  · intro hfew
    rw [← hlength] at hfew
    intro first hfirst second hsecond
    have hsame : first = second := by
      cases hentries : stagedEntries staging .inserted with
      | nil => simp [hentries] at hfirst
      | cons entry rest =>
        have hrest : rest = [] := by
          simpa [hentries] using hfew
        rw [hentries, hrest, List.mem_singleton] at hfirst hsecond
        rw [hfirst, hsecond]
    rw [hsame]

/-- With a digest that separates them, the trees from one start have one hash
if and only if the encodings of the staged files commute.  For files whose
names have no zero byte: if at most one is staged. -/
theorem tree_hash_stable_iff {β : Type} [Backend β] (host : Host)
    (repo : Repository β) (staging : Core.CleanStagingArea)
    (hrepo : host.Separates (repo.treesFromStaging host))
    (hcore : host.Separates staging.treesFromStaging) :
    (OneHash host (repo.treesFromStaging host) ↔ Commuting (stagedEntries repo.staging .inserted)) ∧
      (OneHash host staging.treesFromStaging ↔
        Commuting (Core.Operations.buildTreeFromStaging .inserted staging).entries) ∧
      ((∀ path, repo.staging.contains path = true → 0 ∉ path) →
        (Commuting (stagedEntries repo.staging .inserted) ↔
          repo.staging.files.keys.length ≤ 1)) := by
  rw [Repository.treesFromStaging_eq] at hrepo ⊢
  rw [Core.treesFromStaging_eq] at hcore ⊢
  exact ⟨oneHash_allOrders_iff hrepo, oneHash_allOrders_iff hcore, commuting_stagedEntries_iff⟩

def staging (files : List String) : Repository MemoryBackend := { newRepository with
    staging := files.foldl (fun area file =>
      area.add .checksums (str file) (str file)) .new }

def coreStaging (files : List String) : Core.CleanStagingArea := { Core.CleanStagingArea.new with
    entries := files.foldl (fun entries file =>
      entries.insert (str file) ⟨str file, str "100644"⟩) ∅ }

theorem separates_of_single {α : Type} {host : Host}
    {kept : List TreeEntry} {encode : α → TreeEntry} {only : α} :
    host.Separates (allOrders kept encode [only]) := by
  rintro _ ⟨first, hfirst, rfl⟩ _ ⟨second, hsecond, rfl⟩ _
  rw [List.perm_singleton.mp hfirst, List.perm_singleton.mp hsecond]

theorem commuting_single {entry : TreeEntry} : Commuting [entry] := by
  simp [Commuting]

theorem tree_hash_stable_one_file :
    OneHash .checksums ((staging ["a"]).treesFromStaging .checksums) ∧
      OneHash .checksums (coreStaging ["a"]).treesFromStaging := by
  have hstable := tree_hash_stable_iff .checksums (staging ["a"]) (coreStaging ["a"])
    (by
      rw [Repository.treesFromStaging_eq]
      exact separates_of_single)
    (by
      rw [Core.treesFromStaging_eq]
      exact separates_of_single)
  exact ⟨hstable.1.mpr (commuting_single), hstable.2.1.mpr (commuting_single)⟩

def inOrder (order : RangeOrder) : Call where
  clock := fun _ => .zero
  unixNano := 0
  order := fun _ => order

def treeHash (order : RangeOrder) (repo : Repository MemoryBackend) : Option GoString :=
  (Repository.createTreeFromStaging .checksums (inOrder order)
    repo).1.toOption.map fun tree => (Object.tree tree).hash .checksums

/-- Two files in two orders. -/
theorem tree_hash_depends_on_order :
    treeHash .inserted (staging ["a", "b"]) ≠ treeHash .reversed (staging ["a", "b"]) ∧
      (Object.tree (Core.Operations.buildTreeFromStaging .inserted
          (coreStaging ["a", "b"]))).hash .checksums ≠
        (Object.tree (Core.Operations.buildTreeFromStaging .reversed
          (coreStaging ["a", "b"]))).hash .checksums := by
  decide +kernel

end Govc
