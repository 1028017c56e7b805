import Govc.RepositoryIntegrity

/-!
# Rules for keeping a repository intact

`Inv A` says that a repository is intact and satisfies `A`, provided that no two
of the byte strings stored so far share a digest.  There is one rule for every
primitive call.
-/

namespace Govc

open Go Store
open Go.GoM (Triple)

namespace Repository

variable {β : Type} [ReliableBackend β] {host : Host}

/-- Intact and `A`, unless two stored byte strings share a digest. -/
def Inv (host : Host) (A : Repository β → Prop) (repo : Repository β) : Prop :=
  host.Faithful repo.store.hashed → repo.Intact host ∧ A repo

def Any (_ : Repository β) : Prop := True

/-- `A` survives a growing store and every change outside store and staging
area. -/
def Stable (A : Repository β → Prop) : Prop :=
  ∀ before after : Repository β, Store.Extends before.store after.store →
    after.staging = before.staging → A before → A after

theorem stable_any : Stable (Any : Repository β → Prop) := by
  intro _ _ _ _ _
  trivial

variable {A B : Repository β → Prop}

theorem stable_and (hA : Stable A) (hB : Stable B) : Stable fun s => A s ∧ B s := by
  intro before after hext hstaging h
  exact ⟨hA before after hext hstaging h.1, hB before after hext hstaging h.2⟩

variable {α : Type}

theorem stable_readAs {select : Object → Option α} {hash : GoString} {a : α} :
    Stable fun s : Repository β =>
      readAs select host s.store hash = some a := by
  intro before after hext _ h
  exact hext.readAs h

theorem Stable.andRead {hash : GoString} (hA : Stable A) :
    Stable fun s => A s ∧ readAs select host s.store hash = some a :=
  stable_and hA (stable_readAs)

theorem stable_isSome {select : Object → Option α} {hash : GoString} :
    Stable fun s : Repository β =>
      (readAs select host s.store hash).isSome = true := by
  intro before after hext _ h
  exact hext.isSome h

theorem stable_known {hash : GoString} :
    Stable fun s : Repository β => s.store.Known host hash := by
  intro before after hext _ h
  exact h.mono hext

variable {repo : Repository β}

theorem Inv.mono (hinv : Inv host A repo)
    (h : ∀ s, s.Intact host → A s → B s) : Inv host B repo := by
  intro hfaithful
  obtain ⟨hintact, hA⟩ := hinv hfaithful
  exact ⟨hintact, h repo hintact hA⟩

theorem Inv.any (hinv : Inv host A repo) : Inv host Any repo := hinv.mono fun _ _ _ => trivial

variable {m : GoM (Repository β) α} {E : Repository β → Prop}
  {Q : α → Repository β → Prop}

theorem consequence {A' : Repository β → Prop} {Q' : α → Repository β → Prop}
    (hm : Triple (Inv host A) m (fun a => Inv host (Q a)) (Inv host E))
    (hpre : ∀ s, s.Intact host → A' s → A s)
    (hpost : ∀ a s, s.Intact host → Q a s → Q' a s) :
    Triple (Inv host A') m (fun a => Inv host (Q' a)) (Inv host E) := by
  apply Triple.consequence hm
  · intro s hs
    exact hs.mono hpre
  · intro a s hs
    exact hs.mono (hpost a)

theorem anyConsequence {A' E' : Repository β → Prop} {Q' : α → Repository β → Prop}
    (hm : Triple (Inv host A) m (fun a => Inv host (Q a)) (Inv host E))
    (hpre : ∀ s, s.Intact host → A' s → A s)
    (hpost : ∀ a s, s.Intact host → Q a s → Q' a s)
    (hexit : ∀ s, s.Intact host → E s → E' s) :
    Triple (Inv host A') m (fun a => Inv host (Q' a)) (Inv host E') := by
  apply Triple.weaken (consequence hm hpre hpost)
  intro s hs
  exact hs.mono hexit

theorem anyExit (hm : Triple P m Q (Inv host E)) : Triple P m Q (Inv host Any) :=
  hm.weaken fun _ => Inv.any

/-! ## Rules for the primitive calls -/

theorem update_rule (hlog : ∀ s, (f s).store.hashed = s.store.hashed)
    (h : ∀ s, s.Intact host → A s → (f s).Intact host ∧ B (f s)) :
    Triple (Inv host A) (GoM.update f) (fun _ => Inv host B) E := by
  apply Triple.update
  intro s hs hfaithful
  rw [hlog] at hfaithful
  obtain ⟨hintact, hA⟩ := hs hfaithful
  exact h s hintact hA

theorem mapRefs_rule
    (h : ∀ s : Repository β, s.Intact host → A s →
      ({ s with refs := f s.refs } : Repository β).Intact host ∧
        B { s with refs := f s.refs }) :
    Triple (Inv host A) (mapRefs f) (fun _ => Inv host B) E :=
  update_rule (fun _ => rfl) h

theorem mapStaging_rule
    (h : ∀ s : Repository β, s.Intact host → A s → B { s with staging := f s.staging }) :
    Triple (Inv host A) (mapStaging f) (fun _ => Inv host B) E := by
  apply update_rule
  · intro s
    rfl
  · intro s hintact hA
    exact ⟨hintact.congr rfl rfl rfl, h s hintact hA⟩

theorem mapWorktree_rule (hA : Stable A) :
    Triple (Inv host A) (mapWorktree f) (fun _ => Inv host A) E := by
  apply update_rule
  · intro s
    rfl
  · intro s hintact h
    exact ⟨hintact.congr rfl rfl rfl, hA s _ (fun _ _ h => h) rfl h⟩

theorem view_rule (h : ∀ s, s.Intact host → A s → Q (f s) s) :
    Triple (Inv host A) (GoM.view f) (fun a => Inv host (Q a)) E := by
  apply Triple.view
  intro s hs hfaithful
  obtain ⟨hintact, hA⟩ := hs hfaithful
  exact ⟨hintact, h s hintact hA⟩

theorem query_rule (h : ∀ a s, s.Intact host → A s → f s = .ok a → Q a s) :
    Triple (Inv host A) (GoM.query f) (fun a => Inv host (Q a)) (Inv host A) := by
  apply Triple.query
  · intro a s ha hs hfaithful
    obtain ⟨hintact, hA⟩ := hs hfaithful
    exact ⟨hintact, h a s hintact hA ha⟩
  · intro s hs
    exact hs

theorem fail_rule :
    Triple (Inv host A) (GoM.fail text : GoM (Repository β) α)
      (fun a => Inv host (Q a)) (Inv host Any) :=
  Triple.fail fun _ => Inv.any

theorem pure_rule (h : ∀ s, s.Intact host → A s → Q a s) :
    Triple (Inv host A) (pure a : GoM (Repository β) α) (fun a => Inv host (Q a)) E :=
  Triple.pure fun _ hs => hs.mono h

theorem read_rule (hA : Stable A)
    {host : Host} {select : Object → Option α} {kind hash : GoString} :
    Triple (Inv host A) (onStore (getAs select kind host hash))
      (fun a => Inv host fun s =>
        A s ∧ readAs select host s.store hash = some a)
      (Inv host A) := by
  intro repo hrepo
  obtain ⟨after, hsame, hread⟩ := getAs_run select kind host hash repo.store
  have hkeep : Inv host A ({ repo with store := after } : Repository β) := by
    intro hfaithful
    have hfaithful' : host.Faithful repo.store.hashed := by
      rw [← hsame.hashed]
      exact hfaithful
    obtain ⟨hintact, h⟩ := hrepo hfaithful'
    have hgrown : Store.Grown host [] repo.store after := Store.Grown.of_sameContent hsame
    exact ⟨hintact.grown hgrown hfaithful (by simp), hA repo _ hsame.extends rfl h⟩
  rcases hread with ⟨a, hat, hrun⟩ | ⟨-, e, hrun⟩
  · rw [onStore_of_run hrun]
    refine ⟨?_, fun hne => absurd rfl (hne a)⟩
    intro b hb
    cases hb
    intro hfaithful
    obtain ⟨hintact, h⟩ := hkeep hfaithful
    exact ⟨hintact, h, (hsame.readAs select host hash).trans hat⟩
  · rw [onStore_of_run hrun]
    exact ⟨fun b hb => (nomatch hb), fun _ => hkeep⟩

def Obtained {α : Type} (P : α → Prop) : Except GoString α → Prop
  | .ok a => P a
  | .error _ => True

theorem tryRead_rule (hA : Stable A)
    {host : Host} {select : Object → Option α} {kind hash : GoString} :
    Triple (Inv host A) (GoM.attempt (onStore (getAs select kind host hash)))
      (fun result => Inv host fun s => A s ∧
        Obtained (fun a => readAs select host s.store hash = some a) result)
      (Inv host A) := by
  apply Triple.attempt
  · exact read_rule hA
  · intro e s hs
    exact hs.mono fun t _ h => ⟨h, trivial⟩

theorem store_rule (hA : Stable A) (object : Object)
    (hready : ∀ (s : Repository β) (after : Store β), s.Intact host → A s →
      Store.Extends s.store after → ∀ commit, object = .commit commit → commit.Ready host after)
    (hgain : ∀ (s : Repository β) (after : Store β), s.Intact host → A s →
      Store.Grown host [object] s.store after →
      host.Faithful after.hashed → B { s with store := after }) :
    Triple (Inv host A) (onStore (storeObject host object))
      (fun hash => Inv host fun s =>
        A s ∧ B s ∧ hash = object.hash host) (Inv host A) := by
  intro repo hrepo
  obtain ⟨after, hgrown, hrun⟩ := storeObject_reliable repo.store
  rw [onStore_of_run hrun]
  refine ⟨?_, fun hne => absurd rfl (hne _)⟩
  intro hash hhash
  cases hhash
  intro hfaithful
  obtain ⟨hintact, h⟩ := hrepo (hfaithful.of_suffix hgrown.suffix)
  have hext := (hgrown.gains hintact.honest hfaithful).kept
  refine ⟨?_, hA repo _ hext rfl h, hgain repo after hintact h hgrown hfaithful, rfl⟩
  apply hintact.grown hgrown hfaithful
  intro commit hmem
  exact hready repo after hintact h hext commit (List.mem_singleton.mp hmem).symm

/-! ## Files, trees and commits -/

/-- Every entry can be carried by the tree format and names a readable
blob. -/
def TreeKnown (host : Host) (tree : Tree) (repo : Repository β) : Prop :=
  ∀ entry ∈ tree.entries, entry.Encodable ∧ (repo.store.blobAt host entry.hash).isSome

/-- Every staged file is a readable blob under a name without NUL bytes. -/
def Restorable (host : Host) (repo : Repository β) : Prop :=
  ∀ path hash, repo.staging.files.lookup path = some hash →
    0 ∉ path ∧ (repo.store.blobAt host hash).isSome

theorem stable_treeKnown : Stable (TreeKnown host tree : Repository β → Prop) := by
  intro before after hext _ h entry hentry
  exact ⟨(h entry hentry).1, hext.isSome (h entry hentry).2⟩

theorem stable_restorable : Stable (Restorable host : Repository β → Prop) := by
  intro before after hext hstaging h path hash hlookup
  rw [hstaging] at hlookup
  exact ⟨(h path hash hlookup).1, hext.isSome (h path hash hlookup).2⟩

variable {hash : GoString}

theorem isHexDigest_of_readAs {store : Store β}
    (hhonest : store.Honest host)
    (hread : (readAs select host store hash).isSome) :
    IsHexDigest hash := by
  obtain ⟨a, ha⟩ := Option.isSome_iff_exists.mp hread
  obtain ⟨data, hfind, -⟩ := Option.bind_eq_some_iff.mp ha
  rw [← hhonest.addressed hash data hfind]
  exact host.hashObject_isHexDigest data

theorem newline_not_mem_of_isHexDigest (hdigest : IsHexDigest hash) : newline ∉ hash := by
  intro hmem
  have hlower := List.all_eq_true.mp hdigest.2 newline hmem
  exact absurd hlower (by decide)

theorem Restorable.addHash (hrestorable : Restorable host repo)
    (hpath : 0 ∉ path) (hblob : (repo.store.blobAt host hash).isSome) :
    Restorable host { repo with
      staging := repo.staging.addHash path hash } := by
  exact GoMap.forall_insert hrestorable ⟨hpath, hblob⟩

theorem Restorable.remove (hrestorable : Restorable host repo) (path : GoString) :
    Restorable host { repo with staging := repo.staging.remove path } := by
  intro other found hlookup
  exact hrestorable other found (GoMap.lookup_of_erase hlookup)

theorem restorable_new :
    Restorable host { repo with staging := StagingArea.new } := by
  intro path hash hlookup
  cases hlookup

theorem Restorable.stagedEntries (hintact : repo.Intact host) (hrestorable : Restorable host repo)
    (order : RangeOrder) :
    TreeKnown host ⟨Repository.stagedEntries repo.staging order⟩ repo := by
  have hmode : space ∉ str "100644" ∧ 0 ∉ str "100644" := by decide
  intro entry hentry
  obtain ⟨hm, hlookup⟩ := (mem_stagedEntries repo.staging order entry).mp hentry
  obtain ⟨hname, hblob⟩ := hrestorable _ _ hlookup
  refine ⟨⟨?_, ?_, hname, ?_⟩, hblob⟩
  · rw [hm]
    exact hmode.1
  · rw [hm]
    exact hmode.2
  · exact isHexDigest_of_readAs hintact.honest hblob

theorem storeBlob_rule (hA : Stable A) (content : Bytes) :
    Triple (Inv host A) (onStore (storeBlob host content))
      (fun hash => Inv host fun s =>
        A s ∧ (s.store.blobAt host hash).isSome) (Inv host A) := by
  have hstore := store_rule hA (.blob content)
    (B := fun s => (s.store.blobAt host
      ((Object.blob content).hash host)).isSome)
    (fun _ _ _ _ _ _ hcommit => nomatch hcommit)
    (fun s after hintact _ hgrown hfaithful => by
      rw [hgrown.blobAt hintact.honest hfaithful (by simp)]
      rfl)
  apply consequence hstore
  · intro s _ h
    exact h
  · intro hash s _ h
    obtain ⟨h, hblob, rfl⟩ := h
    exact ⟨h, hblob⟩

theorem storeTree_rule (hA : Stable A)
    (tree : Tree) (hknown : ∀ s, s.Intact host → A s → TreeKnown host tree s) :
    Triple (Inv host A) (onStore (storeTree host tree))
      (fun hash => Inv host fun s =>
        A s ∧ s.store.treeAt host hash = some tree) (Inv host A) := by
  have hstore := store_rule hA (.tree tree)
    (B := fun s => s.store.treeAt host
      ((Object.tree tree).hash host) = some tree)
    (fun _ _ _ _ _ _ hcommit => nomatch hcommit)
    (fun s after hintact h hgrown hfaithful =>
      hgrown.treeAt hintact.honest hfaithful (by simp) (fun e he => (hknown s hintact h e he).1))
  apply consequence hstore
  · intro s _ h
    exact h
  · intro hash s _ h
    obtain ⟨h, htree, rfl⟩ := h
    exact ⟨h, htree⟩

theorem storeCommit_rule (hA : Stable A) (commit : Commit)
    (hready : ∀ s, s.Intact host → A s → commit.Ready host s.store) :
    Triple (Inv host A) (onStore (storeCommit host commit))
      (fun hash => Inv host fun s =>
        A s ∧ (s.store.commitAt host hash).isSome) (Inv host A) := by
  have hstore := store_rule hA (.commit commit)
    (B := fun s => (s.store.commitAt host
      ((Object.commit commit).hash host)).isSome)
    (fun s after hintact h hext stored hstored => by
      cases hstored
      have hbefore := hready s hintact h
      refine ⟨hbefore.safe, hbefore.files.mono hext, ?_⟩
      rcases hbefore.parent with hroot | hparent
      · exact .inl hroot
      · exact .inr (hparent.mono hext))
    (fun s after hintact h hgrown hfaithful => by
      rw [hgrown.commitAt hintact.honest hfaithful (by simp) (hready s hintact h).safe]
      rfl)
  apply consequence hstore
  · intro s _ h
    exact h
  · intro hash s _ h
    obtain ⟨h, hcommit, rfl⟩ := h
    exact ⟨h, hcommit⟩

theorem Intact.author_safe (hintact : repo.Intact host) :
    Author.HeaderSafe
      ⟨repo.getConfigValue (str "user.name") (str "Unknown"),
        repo.getConfigValue (str "user.email") (str "unknown@example.com"),
        time⟩ := by
  have hname : repo.getConfigValue (str "user.name") (str "Unknown") = str "Unknown" := by
    simp [getConfigValue, hintact.config]
  have hemail : repo.getConfigValue (str "user.email")
      (str "unknown@example.com") = str "unknown@example.com" := by
    simp [getConfigValue, hintact.config]
  have hsafe : 60 ∉ str "Unknown" ∧ 62 ∉ str "Unknown" ∧
      newline ∉ str "Unknown" ∧ 62 ∉ str "unknown@example.com" ∧
      newline ∉ str "unknown@example.com" := by decide
  rw [hname, hemail]
  exact ⟨hsafe.1, hsafe.2.1, hsafe.2.2.1, hsafe.2.2.2.1, hsafe.2.2.2.2⟩

theorem ready_of_files {store : Store β} (hhonest : store.Honest host)
    {commit : Commit} (hfiles : store.HasFiles host commit)
    (hparent : commit.parentHash = [] ∨ store.Sound host commit.parentHash)
    (hauthor : commit.author.HeaderSafe)
    (hcommitter : commit.committer.HeaderSafe) : commit.Ready host store := by
  refine ⟨⟨?_, ?_, hauthor, hcommitter⟩, hfiles, hparent⟩
  · obtain ⟨tree, htree, -⟩ := hfiles
    apply newline_not_mem_of_isHexDigest
    apply isHexDigest_of_readAs hhonest
    rw [Store.treeAt] at htree
    rw [htree]
    rfl
  · rcases hparent with hempty | hsound
    · rw [hempty]
      exact List.not_mem_nil
    · obtain ⟨parent, hstored, -⟩ := hsound.stored
      apply newline_not_mem_of_isHexDigest
      apply isHexDigest_of_readAs hhonest
      rw [Store.commitAt] at hstored
      rw [hstored]
      rfl

theorem Intact.ready (hintact : repo.Intact host) {commit : Commit}
    (htree : repo.store.treeAt host commit.treeHash = some tree)
    (hknown : TreeKnown host tree repo)
    (hparent : repo.store.Known host commit.parentHash)
    (hauthor : commit.author.HeaderSafe)
    (hcommitter : commit.committer.HeaderSafe) :
    commit.Ready host repo.store := by
  apply ready_of_files hintact.honest _ (hintact.known_sound hparent) hauthor hcommitter
  exact ⟨tree, htree, fun entry hentry => (hknown entry hentry).2⟩

end Repository

end Govc
