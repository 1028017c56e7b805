import Govc.CommitContract
import Govc.RepositoryHistory

/-!
# Repositories without dangling hashes

A commit is sound when it, its tree, all blobs of that tree and its whole parent
chain can be read.  A repository is intact when every stored commit is sound and
every reference holds nothing or a stored commit.  Operations that build a tree
from the staging area also need every staged file to be a readable blob under a
name without NUL bytes.
-/

namespace Govc

open Go

section Soundness

variable {β : Type} [Backend β]

def Store.HasFiles (host : Host) (store : Store β) (commit : Commit) : Prop :=
  ∃ tree, store.treeAt host commit.treeHash = some tree ∧
    ∀ entry ∈ tree.entries, (store.blobAt host entry.hash).isSome

inductive Store.Sound (host : Host) (store : Store β) : GoString → Prop where
  | root {hash : GoString} {commit : Commit} :
      store.commitAt host hash = some commit → store.HasFiles host commit →
      commit.parentHash = [] → Store.Sound host store hash
  | child {hash : GoString} {commit : Commit} :
      store.commitAt host hash = some commit → store.HasFiles host commit →
      Store.Sound host store commit.parentHash → Store.Sound host store hash

variable {before after : Store β} {host : Host} {hash : GoString}

theorem Store.Extends.isSome (h : Store.Extends before after)
    {α : Type} {select : Object → Option α}
    (hread : (Store.readAs select host before hash).isSome) :
    (Store.readAs select host after hash).isSome := by
  obtain ⟨a, ha⟩ := Option.isSome_iff_exists.mp hread
  rw [h.readAs ha]
  rfl

variable {commit : Commit}

theorem Store.HasFiles.mono (h : Store.Extends before after)
    (hfiles : before.HasFiles host commit) : after.HasFiles host commit := by
  obtain ⟨tree, htree, hblobs⟩ := hfiles
  refine ⟨tree, h.readAs htree, ?_⟩
  intro entry hentry
  exact h.isSome (hblobs entry hentry)

theorem Store.Sound.mono (h : Store.Extends before after)
    (hsound : before.Sound host hash) : after.Sound host hash := by
  induction hsound with
  | root hcommit hfiles hparent =>
    exact .root (h.readAs hcommit) (hfiles.mono h) hparent
  | child hcommit hfiles _ ih =>
    exact .child (h.readAs hcommit) (hfiles.mono h) ih

theorem Store.Sound.stored {store : Store β} (hsound : store.Sound host hash) :
    ∃ commit, store.commitAt host hash = some commit ∧ store.HasFiles host commit ∧
      (commit.parentHash = [] ∨ store.Sound host commit.parentHash) := by
  cases hsound with
  | root hcommit hfiles hparent => exact ⟨_, hcommit, hfiles, .inl hparent⟩
  | child hcommit hfiles hparent => exact ⟨_, hcommit, hfiles, .inr hparent⟩

def Store.Known (host : Host) (store : Store β) (hash : GoString) : Prop :=
  hash = [] ∨ (store.commitAt host hash).isSome

theorem Store.Known.mono (h : Store.Extends before after)
    (hknown : before.Known host hash) : after.Known host hash := by
  rcases hknown with hempty | hstored
  · exact .inl hempty
  · exact .inr (h.isSome hstored)

structure Repository.Intact (host : Host) (repo : Repository β) : Prop where
  honest : repo.store.Honest host
  commits : ∀ hash, (repo.store.commitAt host hash).isSome → repo.store.Sound host hash
  refs : ∀ name hash, repo.refs.refs.lookup name = some hash → repo.store.Known host hash
  head : (∃ branch, repo.refs.head = str "ref: refs/heads/" ++ branch) ∨
    (repo.store.commitAt host repo.refs.head).isSome
  config : repo.config = ∅

namespace Repository

variable {host : Host} {repo : Repository β}

variable {hash : GoString}

variable (hintact : repo.Intact host)

include hintact

theorem Intact.known_sound (hknown : repo.store.Known host hash) :
    hash = [] ∨ repo.store.Sound host hash := by
  rcases hknown with hempty | hstored
  · exact .inl hempty
  · exact .inr (hintact.commits hash hstored)

theorem Intact.getBranch {name : GoString} (hget : repo.refs.getBranch name = .ok hash) :
    repo.store.Known host hash :=
  hintact.refs _ _ ((RefStore.getBranch_eq_ok_iff _ _ _).mp hget)

theorem Intact.getHEAD (hget : repo.refs.getHEAD = .ok hash) : repo.store.Known host hash := by
  unfold RefStore.getHEAD at hget
  split_ifs at hget with hempty hsymbolic hdirect
  · cases hlookup : repo.refs.refs.lookup (trimPrefix repo.refs.head (str "ref: ")) with
    | none =>
      rw [hlookup] at hget
      cases hget
      exact .inl rfl
    | some found =>
      rw [hlookup] at hget
      cases hget
      exact hintact.refs _ _ hlookup
  · cases hlookup : repo.refs.refs.lookup repo.refs.head with
    | none =>
      rw [hlookup] at hget
      exact nomatch hget
    | some found =>
      rw [hlookup] at hget
      cases hget
      exact hintact.refs _ _ hlookup
  · cases hget
    rcases hintact.head with ⟨branch, hattached⟩ | hdetached
    · exfalso
      apply hsymbolic
      have hfull : repo.refs.head = str "ref: " ++ (str "refs/heads/" ++ branch) := by
        rw [hattached, ← List.append_assoc]
        rfl
      rw [hfull, hasPrefix_append]
    · exact .inr hdetached

theorem Intact.tip_known : repo.store.Known host repo.tip := by
  unfold tip
  split
  · exact .inl rfl
  · split_ifs
    · exact .inl rfl
    · split
      · exact .inl rfl
      · exact hintact.getBranch ‹_›

theorem Intact.entries_of_commit {commit : Commit} {tree : Tree}
    (hcommit : repo.store.commitAt host hash = some commit)
    (htree : repo.store.treeAt host commit.treeHash = some tree) :
    ∀ entry ∈ tree.entries, entry.Encodable ∧ (repo.store.blobAt host entry.hash).isSome := by
  have hsound := hintact.commits hash (by rw [hcommit]; rfl)
  obtain ⟨found, hfound, ⟨files, hfiles, hblobs⟩, -⟩ := hsound.stored
  rw [hcommit] at hfound
  cases hfound
  rw [htree] at hfiles
  cases hfiles
  intro entry hentry
  exact ⟨Store.treeAt_encodable htree entry hentry, hblobs entry hentry⟩

theorem Intact.congr {other : Repository β}
    (hstore : other.store = repo.store) (hrefs : other.refs = repo.refs)
    (hconfig : other.config = repo.config) :
    other.Intact host where
  honest := hstore ▸ hintact.honest
  commits := by
    intro hash
    rw [hstore]
    exact hintact.commits hash
  refs := by
    intro name hash
    rw [hstore, hrefs]
    exact hintact.refs name hash
  head := by
    rw [hstore, hrefs]
    exact hintact.head
  config := hconfig ▸ hintact.config

theorem Intact.withRefs {refs : RefStore}
    (hrefs : ∀ name hash, refs.refs.lookup name = some hash → repo.store.Known host hash)
    (hhead : (∃ branch, refs.head = str "ref: refs/heads/" ++ branch) ∨
      (repo.store.commitAt host refs.head).isSome) :
    ({ repo with refs := refs } : Repository β).Intact host where
  honest := hintact.honest
  commits := hintact.commits
  refs := hrefs
  head := hhead
  config := hintact.config

variable (branch : GoString)

theorem Intact.setBranch (hknown : repo.store.Known host hash) : ({ repo with
        refs := repo.refs.setRef (RefStore.branchRef branch) hash } :
      Repository β).Intact host := by
  apply hintact.withRefs
  · intro name found hlookup
    rw [RefStore.lookup_setRef_branchRef] at hlookup
    split at hlookup
    · cases hlookup
      exact hknown
    · exact hintact.refs name found hlookup
  · exact hintact.head

theorem Intact.setTag (tag : GoString) (hknown : repo.store.Known host hash) :
    ({ repo with refs := repo.refs.createTag tag hash } :
      Repository β).Intact host := by
  apply hintact.withRefs
  · exact GoMap.forall_insert hintact.refs hknown
  · exact hintact.head

theorem Intact.deleteBranch :
    ({ repo with refs := repo.refs.deleteBranch branch } :
      Repository β).Intact host := by
  apply hintact.withRefs
  · intro name found hlookup
    exact hintact.refs name found (GoMap.lookup_of_erase hlookup)
  · exact hintact.head

theorem Intact.attach :
    ({ repo with refs := repo.refs.setHEADToBranch branch } :
      Repository β).Intact host :=
  hintact.withRefs hintact.refs (.inl ⟨branch, rfl⟩)

theorem Intact.detach (hstored : (repo.store.commitAt host hash).isSome) :
    ({ repo with refs := repo.refs.setHEAD hash } :
      Repository β).Intact host :=
  hintact.withRefs hintact.refs (.inr hstored)

end Repository

/-! ## Storing objects -/

theorem type_of_parseObject_serialize {object parsed : Object}
    (hsize : object.serialize.length < 2 ^ 63)
    (hparse : parseObject host object.serialize = .ok parsed) :
    parsed.type = object.type := by
  have hcontent : object.content.length < 2 ^ 63 := by
    have hle : object.content.length ≤ object.serialize.length := by
      simp [Object.serialize]
      omega
    omega
  rw [parseObject_serialize host object hcontent] at hparse
  cases htype : object.type with
  | blob =>
    rw [htype] at hparse
    cases hparse
    rfl
  | commit =>
    rw [htype] at hparse
    obtain ⟨c, -, rfl⟩ := exists_of_map_eq_ok hparse
    rfl
  | _ =>
    rw [htype] at hparse
    obtain ⟨t, -, rfl⟩ := exists_of_map_eq_ok hparse
    rfl

theorem Store.parse_of_commitAt {store : Store β}
    (hat : store.commitAt host hash = some commit) :
    ∃ data, store.find hash = some data ∧ parseObject host data = .ok (.commit commit) := by
  obtain ⟨data, hfind, hparse⟩ := Option.bind_eq_some_iff.mp hat
  refine ⟨data, hfind, ?_⟩
  cases hobject : parseObject host data with
  | error e => simp [hobject, Except.toOption] at hparse
  | ok object =>
    cases object with
    | commit c =>
      simp [hobject, Except.toOption, Store.asCommit] at hparse
      rw [hparse]
    | blob bytes =>
      simp [hobject, Except.toOption, Store.asCommit] at hparse
    | _ => simp [hobject, Except.toOption, Store.asCommit] at hparse

variable {objects : List Object}

section

variable (hgrown : Store.Grown host objects before after)

include hgrown

theorem Store.Grown.size (hfaithful : host.Faithful after.hashed)
    {object : Object} (hmem : object ∈ objects) :
    object.serialize.length < 2 ^ 63 := by
  apply hfaithful.bounded
  rw [hgrown.hashed]
  apply List.mem_append_left
  rw [List.mem_reverse]
  exact List.mem_map_of_mem hmem

theorem Store.Grown.commitAt (hhonest : before.Honest host)
    (hfaithful : host.Faithful after.hashed) (hmem : .commit commit ∈ objects)
    (hsafe : commit.HeaderSafe) :
    after.commitAt host ((Object.commit commit).hash host) = some (commit.reread host) := by
  have hsize := hgrown.size hfaithful hmem
  have hcontent : commit.serializeContent.length < 2 ^ 63 := by
    have hle : commit.serializeContent.length ≤ (Object.commit commit).serialize.length := by
      simp [Object.serialize, Object.content]
      omega
    omega
  unfold Store.commitAt Store.readAs
  rw [(hgrown.gains hhonest hfaithful).found _ hmem, Option.bind_some,
    parseObject_commit host hsafe hcontent]
  rfl

theorem Store.Grown.treeAt (hhonest : before.Honest host) (hfaithful : host.Faithful after.hashed)
    {tree : Tree} (hmem : .tree tree ∈ objects)
    (hencodable : ∀ e ∈ tree.entries, e.Encodable) :
    after.treeAt host ((Object.tree tree).hash host) = some tree :=
  Store.treeAt_of_found ((hgrown.gains hhonest hfaithful).found _ hmem)
    hencodable (hgrown.size hfaithful hmem)

theorem Store.Grown.blobAt (hhonest : before.Honest host) (hfaithful : host.Faithful after.hashed)
    {content : Bytes} (hmem : .blob content ∈ objects) :
    after.blobAt host ((Object.blob content).hash host) = some content := by
  have hsize := hgrown.size hfaithful hmem
  have hcontent : content.length < 2 ^ 63 := by
    have hle : content.length ≤ (Object.blob content).serialize.length := by
      simp [Object.serialize, Object.content]
      omega
    omega
  unfold Store.blobAt Store.readAs
  rw [(hgrown.gains hhonest hfaithful).found _ hmem, Option.bind_some,
    parseObject_blob host hcontent]
  rfl

end

structure Commit.Ready (host : Host) (store : Store β) (commit : Commit) :
    Prop where
  safe : commit.HeaderSafe
  files : store.HasFiles host commit
  parent : commit.parentHash = [] ∨ store.Sound host commit.parentHash

theorem Repository.Intact.grown {repo : Repository β}
    (hintact : repo.Intact host)
    (hgrown : Store.Grown host objects repo.store after)
    (hfaithful : host.Faithful after.hashed)
    (hready : ∀ commit, .commit commit ∈ objects → commit.Ready host after) :
    ({ repo with store := after } : Repository β).Intact host := by
  have hgains := hgrown.gains hintact.honest hfaithful
  constructor
  · exact hgains.honest
  · intro hash hstored
    obtain ⟨commit, hcommit⟩ := Option.isSome_iff_exists.mp hstored
    obtain ⟨data, hfind, hparse⟩ := Store.parse_of_commitAt hcommit
    rcases hgains.fresh hash data hfind with hbefore | ⟨object, hmem, rfl⟩
    · apply (hintact.commits hash ?_).mono hgains.kept
      have hread : repo.store.commitAt host hash = some commit := by
        unfold Store.commitAt Store.readAs
        rw [hbefore, Option.bind_some, hparse]
        rfl
      rw [hread]
      rfl
    · have htype := type_of_parseObject_serialize (hgrown.size hfaithful hmem) hparse
      cases object with
      | commit stored =>
        have hhash : hash = (Object.commit stored).hash host :=
          (hgains.honest.addressed hash _ hfind).symm
        have hread := hgrown.commitAt hintact.honest hfaithful hmem (hready stored hmem).safe
        rw [← hhash] at hread
        rcases (hready stored hmem).parent with hroot | hparent
        · exact .root hread (hready stored hmem).files hroot
        · exact .child hread (hready stored hmem).files hparent
      | _ => exact nomatch htype
  · intro name hash hlookup
    exact (hintact.refs name hash hlookup).mono hgains.kept
  · rcases hintact.head with hattached | hdetached
    · exact .inl hattached
    · exact .inr (hgains.kept.isSome hdetached)
  · exact hintact.config

end Soundness

end Govc
