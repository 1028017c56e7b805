import Govc.IntegrityRules
import Mathlib.Tactic

/-!
# Branches and checkouts keep a repository intact

Resolving a name and following parents only read.  A checkout moves HEAD to a
branch, or to a commit it has just read; a branch is created where HEAD or
another branch is.  Only `CreateBranch` takes a hash from its caller, and its
rule asks for a stored commit there.
-/

namespace Govc

open Go
open Go.GoM (Triple)

namespace Repository

variable {β : Type} [ReliableBackend β] {host : Host}

def Keeps {α : Type} (host : Host) (m : GoM (Repository β) α) : Prop :=
  Triple (Inv host Any) m (fun _ => Inv host Any) (Inv host Any)

/-- The same for a call that may be tried, with a fact that survives it. -/
def Reads {α : Type} (host : Host) (m : GoM (Repository β) α) : Prop :=
  ∀ A : Repository β → Prop, Stable A → Triple (Inv host A) m (fun _ => Inv host A) (Inv host A)

variable {α : Type} {m : GoM (Repository β) α}

theorem Reads.keeps (hm : Reads host m) : Keeps host m := hm Any stable_any

theorem Reads.bind {γ : Type} {f : α → GoM (Repository β) γ}
    (hm : Reads host m) (hf : ∀ a, Reads host (f a)) :
    Reads host (m >>= f) := by
  intro A hA
  exact Triple.bind (hm A hA) fun a => hf a A hA

theorem Reads.pure (a : α) : Reads host (Pure.pure a : GoM (Repository β) α) := by
  intro A _
  exact Triple.pure fun _ hs => hs

theorem Reads.fail (text : GoString) : Reads host (GoM.fail text : GoM (Repository β) α) := by
  intro A _
  exact Triple.fail fun _ hs => hs

theorem Reads.diverge : Reads host (GoM.diverge : GoM (Repository β) α) := by
  intro A _
  exact Triple.diverge fun _ hs => hs

theorem Reads.view (f : Repository β → α) : Reads host (GoM.view f) := by
  intro A _
  exact Triple.view fun _ hs => hs

theorem Reads.query (f : Repository β → Except GoString α) : Reads host (GoM.query f) := by
  intro A _
  exact Triple.query (fun _ _ _ hs => hs) fun _ hs => hs

theorem Reads.attempt (hm : Reads host m) : Reads host (GoM.attempt m) := by
  intro A hA
  exact Triple.attempt (hm A hA) fun _ _ hs => hs

theorem Reads.mapError {f : GoString → GoString} (hm : Reads host m) :
    Reads host (GoM.mapError f m) := by
  intro A hA
  exact Triple.mapError (hm A hA)

theorem Reads.getAs (select : Object → Option α) (kind hash : GoString) :
    Reads host (onStore (Store.getAs select kind host hash) : GoM (Repository β) α) := by
  intro A hA
  apply Triple.consequence (read_rule hA)
  · intro s hs
    exact hs
  · intro a s hs
    exact hs.mono fun _ _ h => h.1

theorem Reads.forEach {items : List α}
    {body : α → GoM (Repository β) Unit} (hbody : ∀ a, Reads host (body a)) :
    Reads host (GoM.forEach items body) := by
  intro A hA
  exact Triple.forEach fun a _ => hbody a A hA

theorem Reads.mapWorktree (f : Worktree → Worktree) :
    Reads host (Repository.mapWorktree f : GoM (Repository β) Unit) := by
  intro A hA
  exact mapWorktree_rule hA

theorem Reads.ite {c : Prop} [Decidable c] {n : GoM (Repository β) α}
    (hm : Reads host m) (hn : Reads host n) : Reads host (if c then m else n) := by
  intro A hA
  exact Triple.ite (fun _ => hm A hA) (fun _ => hn A hA)

/-! ## Resolving and walking -/

theorem walkBack_reads {ref : GoString} {total : ℤ} {n : ℕ} (hash : GoString) :
    Reads host (walkBack host ref total n hash : GoM (Repository β) GoString) := by
  induction n generalizing hash with
  | zero => exact Reads.pure hash
  | succ n ih =>
    apply Reads.bind (Reads.getAs _ _ _).mapError
    intro commit
    apply Reads.ite
    · exact Reads.fail _
    · exact ih _

theorem resolveName_reads {ref : GoString} :
    Reads host (resolveName ref : GoM (Repository β) GoString) := by
  apply Reads.ite
  · exact Reads.pure ref
  · apply Reads.bind (Reads.view _)
    intro branch
    cases branch with
    | ok hash => exact Reads.pure hash
    | error e =>
      apply Reads.bind (Reads.view _)
      intro tag
      cases tag with
      | ok hash => exact Reads.pure hash
      | error e =>
        apply Reads.ite
        · exact Reads.fail _
        · exact Reads.fail _

theorem resolveRef_reads {ref : GoString} :
    Reads host (resolveRef host ref : GoM (Repository β) GoString) := by
  apply Reads.ite
  · exact Reads.query _
  · apply Reads.ite
    · apply Reads.bind (Reads.query _)
      intro headHash
      apply Reads.ite
      · exact walkBack_reads _
      · apply Reads.ite
        · apply Reads.bind (Reads.getAs _ _ _)
          intro commit
          apply Reads.ite
          · exact Reads.fail _
          · exact Reads.pure _
        · exact resolveName_reads
    · exact resolveName_reads

variable {A : Repository β → Prop}

theorem findOnChain_rule (hA : Stable A) {p : GoString → Bool} {fuel : ℕ} (hash : GoString) :
    Triple (Inv host A) (findOnChain host p fuel hash)
      (fun found => Inv host fun s => A s ∧
        (found.isSome → p hash = true ∨ (s.store.commitAt host hash).isSome)) (Inv host A) := by
  induction fuel generalizing hash A with
  | zero => exact Triple.diverge fun _ hs => hs
  | succ fuel ih =>
    unfold findOnChain
    split_ifs with hempty hfound
    · exact pure_rule fun _ _ h => ⟨h, by simp⟩
    · exact pure_rule fun _ _ h => ⟨h, fun _ => .inl hfound⟩
    · apply Triple.bind (tryRead_rule hA)
      intro result
      cases result with
      | error e => exact pure_rule fun _ _ h => ⟨h.1, by simp⟩
      | ok commit =>
        apply anyConsequence (ih hA.andRead commit.parentHash)
        · intro s _ h
          exact h
        · intro found s _ h
          exact ⟨h.1.1, fun _ => .inr (Option.isSome_of_mem h.1.2)⟩
        · intro s _ h
          exact h.1

theorem findOnChain_reads {p : GoString → Bool} {fuel : ℕ} {hash : GoString} :
    Reads host (findOnChain host p fuel hash : GoM (Repository β) (Option GoString)) := by
  intro A hA
  apply consequence (findOnChain_rule hA hash)
  · intro s _ h
    exact h
  · intro found s _ h
    exact h.1

theorem Intact.parent_known {s : Repository β} (hintact : s.Intact host)
    {hash : GoString} {commit : Commit}
    (hcommit : s.store.commitAt host hash = some commit) :
    s.store.Known host commit.parentHash := by
  obtain ⟨found, hfound, -, hparent⟩ := (hintact.commits hash (by rw [hcommit]; rfl)).stored
  rw [hcommit] at hfound
  cases hfound
  rcases hparent with hroot | hsound
  · exact .inl hroot
  · obtain ⟨parent, hstored, -⟩ := hsound.stored
    exact .inr (by rw [hstored]; rfl)

theorem chain_rule (hA : Stable A) {fuel : ℕ} (hash : GoString)
    (hknown : ∀ s, s.Intact host → A s → s.store.Known host hash) :
    Triple (Inv host A) (chain host fuel hash)
      (fun hashes => Inv host fun s => A s ∧
        ∀ h ∈ hashes, (s.store.commitAt host h).isSome) (Inv host A) := by
  induction fuel generalizing hash A with
  | zero => exact Triple.diverge fun _ hs => hs
  | succ fuel ih =>
    unfold chain
    split_ifs with hempty
    · exact pure_rule fun _ _ h => ⟨h, by simp⟩
    · apply Triple.bind (tryRead_rule hA)
      intro result
      cases result with
      | error e =>
        apply pure_rule
        intro s hintact h
        refine ⟨h.1, ?_⟩
        intro other hother
        rw [List.mem_singleton] at hother
        subst hother
        exact (hknown s hintact h.1).resolve_left hempty
      | ok commit =>
        have hparent : ∀ s : Repository β, s.Intact host →
            A s ∧ s.store.commitAt host hash = some commit →
            s.store.Known host commit.parentHash := by
          intro s hintact h
          exact hintact.parent_known h.2
        have hrest : Triple
            (Inv host fun s => A s ∧
              s.store.commitAt host hash = some commit)
            (chain host fuel commit.parentHash)
            (fun rest => Inv host fun s =>
              (A s ∧ s.store.commitAt host hash = some commit) ∧
                ∀ h ∈ rest, (s.store.commitAt host h).isSome)
            (Inv host A) :=
          anyConsequence (ih hA.andRead commit.parentHash hparent)
            (fun _ _ h => h) (fun _ _ _ h => h) (fun _ _ h => h.1)
        apply Triple.bind hrest
        intro rest
        apply pure_rule
        intro s _ h
        refine ⟨h.1.1, ?_⟩
        intro other hother
        rcases List.mem_cons.mp hother with rfl | hmem
        · rw [h.1.2]
          rfl
        · exact h.2 other hmem

theorem canFastForward_reads {currentHash targetHash : GoString} :
    Reads host (canFastForward host currentHash targetHash : GoM (Repository β) Bool) := by
  apply Reads.bind (Reads.view _)
  intro fuel
  apply Reads.bind (findOnChain_reads)
  intro found
  exact Reads.pure _

theorem commonCommit_rule (hA : Stable A)
    (hknown : ∀ s, s.Intact host → A s → s.store.Known host hash1) :
    Triple (Inv host A) (commonCommit host hash1 hash2)
      (fun found => Inv host fun s => A s ∧
        (found.isSome → (s.store.commitAt host hash2).isSome))
      (Inv host A) := by
  apply Triple.bind (Reads.view _ A hA)
  intro fuel
  apply Triple.bind (chain_rule hA hash1 hknown)
  intro ancestors
  have hstable : Stable fun s : Repository β => A s ∧
      ∀ h ∈ ancestors, (s.store.commitAt host h).isSome := by
    intro before after hext hstaging h
    exact ⟨hA before after hext hstaging h.1, fun other hother => hext.isSome (h.2 other hother)⟩
  apply anyConsequence (findOnChain_rule hstable hash2)
  · intro s _ h
    exact h
  · intro found s _ h
    refine ⟨h.1.1, fun hsome => ?_⟩
    rcases h.2 hsome with hmem | hstored
    · exact h.1.2 hash2 (by simpa using hmem)
    · exact hstored
  · intro s _ h
    exact h.1

theorem collectBetween_reads {start : GoString} {fuel : ℕ}
    (current : GoString) (commits : List GoString) :
    Reads host (collectBetween host start fuel current commits :
      GoM (Repository β) (List GoString)) := by
  induction fuel generalizing current commits with
  | zero => exact Reads.diverge
  | succ fuel ih =>
    apply Reads.ite
    · exact Reads.pure _
    · apply Reads.bind (Reads.getAs _ _ _)
      intro commit
      exact ih _ _

/-! ## Checkout -/

theorem removeFiles_reads {files : List GoString} :
    Reads host (removeFiles files : GoM (Repository β) Unit) :=
  Reads.forEach fun _ => Reads.mapWorktree _

theorem updateWorktree_reads {call : Call} {tree : Tree} :
    Reads host (updateWorktree host call tree : GoM (Repository β) Unit) := by
  apply Reads.bind (Reads.view _)
  intro files
  apply Reads.bind (removeFiles_reads)
  intro _
  apply Reads.forEach
  intro entry
  apply Reads.bind (Reads.getAs _ _ _)
  intro content
  exact Reads.mapWorktree _

theorem restore_rule {call : Call} {hash : GoString} :
    Triple (Inv host Any) (restore host call hash)
      (fun _ => Inv host fun s : Repository β =>
        (s.store.commitAt host hash).isSome) (Inv host Any) := by
  apply Triple.bind (read_rule stable_any)
  intro commit
  have hload : Reads host (do
        let tree ← onStore (Store.getTree host commit.treeHash)
        updateWorktree host call tree : GoM (Repository β) Unit) :=
    (Reads.getAs _ _ _).bind (fun tree => updateWorktree_reads)
  apply anyConsequence (hload _ stable_any.andRead)
  · intro s _ h
    exact h
  · intro _ s _ h
    exact Option.isSome_of_mem h.2
  · intro s _ _
    trivial

theorem Keeps.bind {γ : Type} {f : α → GoM (Repository β) γ}
    (hm : Keeps host m) (hf : ∀ a, Keeps host (f a)) :
    Keeps host (m >>= f) :=
  Triple.bind hm hf

theorem Keeps.ite {c : Prop} [Decidable c]
    {n : GoM (Repository β) α} (hm : Keeps host m) (hn : Keeps host n) :
    Keeps host (if c then m else n) :=
  Triple.ite (fun _ => hm) (fun _ => hn)

theorem Keeps.mapStaging (f : StagingArea → StagingArea) :
    Keeps host (Repository.mapStaging f : GoM (Repository β) Unit) :=
  mapStaging_rule fun _ _ _ => trivial

theorem attach_keeps {branch : GoString} :
    Keeps host (mapRefs (fun refs => refs.setHEADToBranch branch) : GoM (Repository β) Unit) :=
  mapRefs_rule fun _ hintact _ => ⟨hintact.attach branch, trivial⟩

theorem detach_rule {hash : GoString} :
    Triple (Inv host fun s : Repository β => (s.store.commitAt host hash).isSome)
      (mapRefs fun refs => refs.setHEAD hash)
      (fun _ => Inv host fun s : Repository β => Any s) (Inv host Any) :=
  mapRefs_rule fun _ hintact h => ⟨hintact.detach h, trivial⟩

theorem checkoutBranch_keeps {call : Call} {name : GoString} :
    Keeps host (checkoutBranch host call name : GoM (Repository β) Unit) := by
  apply Keeps.bind (Reads.query _).mapError.keeps
  intro hash
  apply Keeps.ite
  · apply Keeps.bind (Reads.view _).keeps
    intro files
    apply Keeps.bind removeFiles_reads.keeps
    intro _
    exact attach_keeps
  · have hrestore : Keeps host (restore host call hash : GoM (Repository β) Unit) :=
      consequence (restore_rule) (fun _ _ h => h) (fun _ _ _ _ => trivial)
    apply Keeps.bind hrestore
    intro _
    exact attach_keeps

theorem checkoutCommit_keeps {call : Call} {ref : GoString} :
    Keeps host (checkoutCommit host call ref : GoM (Repository β) Unit) := by
  apply Keeps.bind resolveRef_reads.keeps
  intro hash
  apply Triple.bind (restore_rule)
  intro _
  exact detach_rule

theorem checkout_keeps {call : Call} {ref : GoString} :
    Keeps host (checkout host call ref : GoM (Repository β) Unit) := by
  apply Keeps.ite
  · exact checkoutBranch_keeps
  · apply Keeps.bind (Reads.view _).keeps
    intro branch
    cases branch with
    | ok hash => exact checkoutBranch_keeps
    | error e =>
      apply Keeps.ite
      · exact checkoutCommit_keeps
      · exact checkoutBranch_keeps

/-! ## Branches -/

theorem updateRef_rule {branch new old : GoString}
    (hknown : ∀ s, s.Intact host → A s → s.store.Known host new) :
    Triple (Inv host A) (updateRef (RefStore.branchRef branch) new old)
      (fun _ => Inv host Any) (Inv host Any) := by
  have hupdated : ∀ (store : RefStore) (after : RefStore),
      store.updateRef (RefStore.branchRef branch) new old = .ok after →
      after = store.setRef (RefStore.branchRef branch) new := by
    intro store after hupdate
    unfold RefStore.updateRef at hupdate
    split_ifs at hupdate with hold
    · split at hupdate
      · exact nomatch hupdate
      · split_ifs at hupdate
        cases hupdate
        rfl
    · cases hupdate
      rfl
  have hquery := query_rule
    (Q := fun after s => A s ∧
      after = s.refs.setRef (RefStore.branchRef branch) new)
    (fun after s (_ : s.Intact host) h hok => ⟨h, hupdated _ _ hok⟩)
  apply Triple.bind (anyExit hquery)
  intro after
  apply mapRefs_rule
  intro s hintact h
  rw [h.2]
  exact ⟨hintact.setBranch branch (hknown s hintact h.1), trivial⟩

theorem setBranch_rule {branch hash : GoString}
    (hknown : ∀ s, s.Intact host → A s → s.store.Known host hash) :
    Triple (Inv host A) (mapRefs fun refs => refs.createBranch branch hash)
      (fun _ => Inv host Any) (Inv host Any) :=
  mapRefs_rule fun s hintact h =>
    ⟨hintact.setBranch branch (hknown s hintact h), trivial⟩

theorem getHEAD_rule :
    Triple (Inv host Any) getHEAD
      (fun hash => Inv host fun s : Repository β => s.store.Known host hash)
      (Inv host Any) :=
  query_rule fun _ _ hintact _ hget => hintact.getHEAD hget

theorem branchCreate_keeps {name : GoString} :
    Keeps host (branchCreate name : GoM (Repository β) Unit) := by
  apply Keeps.bind (Reads.view _).keeps
  intro current
  cases current with
  | error e =>
    apply Triple.bind getHEAD_rule
    intro hash
    exact setBranch_rule fun _ _ h => h
  | ok branch =>
    apply Triple.bind (view_rule (Q := fun found s => Obtained (s.store.Known host) found) ?_)
    · intro found
      cases found with
      | error e => exact setBranch_rule fun _ _ _ => .inl rfl
      | ok hash => exact setBranch_rule fun _ _ h => h
    · intro s hintact _
      cases hget : s.refs.getBranch branch with
      | error e => trivial
      | ok hash => exact hintact.getBranch hget

theorem branchCheckout_keeps {call : Call} {name : GoString} :
    Keeps host (branchCheckout host call name : GoM (Repository β) Unit) := by
  apply Triple.bind (Triple.attempt (Q := fun _ => Inv host Any)
    (branchCreate_keeps) (fun _ _ hs => hs))
  intro created
  cases created with
  | ok _ => exact checkout_keeps
  | error e =>
    apply Keeps.ite
    · exact checkout_keeps
    · exact (Reads.fail e).keeps

theorem branchDelete_keeps {name : GoString} :
    Keeps host (branchDelete name : GoM (Repository β) Unit) := by
  intro current
  apply Keeps.ite
  · exact (Reads.fail _).keeps
  · exact mapRefs_rule fun _ hintact _ => ⟨hintact.deleteBranch name, trivial⟩

theorem startPoint_rule {fromCommit : GoString} :
    Triple (Inv host fun s : Repository β => s.store.Known host fromCommit) (startPoint fromCommit)
      (fun target => Inv host fun s => s.store.Known host target)
      (Inv host Any) := by
  by_cases hempty : fromCommit = []
  · rw [startPoint, if_pos hempty]
    apply Triple.mapError
    exact consequence getHEAD_rule (fun _ _ _ => trivial) (fun _ _ _ h => h)
  · rw [startPoint, if_neg hempty]
    exact pure_rule fun _ _ h => h

theorem createBranch_rule {name fromCommit : GoString} :
    Triple (Inv host fun s : Repository β => s.store.Known host fromCommit)
      (createBranch name fromCommit)
      (fun _ => Inv host Any) (Inv host Any) := by
  apply Triple.bind (startPoint_rule)
  intro target
  exact Triple.mapError (updateRef_rule fun _ _ h => h)

theorem switchBranch_keeps {name : GoString} :
    Keeps host (switchBranch name : GoM (Repository β) Unit) := by
  apply Keeps.bind (Reads.query _).mapError.keeps
  intro _
  exact attach_keeps

theorem getBranch_rule {name : GoString} {f : GoString → GoString} :
    Triple (Inv host A) (GoM.mapError f (GoM.query fun repo => repo.refs.getBranch name))
      (fun hash => Inv host fun s => A s ∧ s.store.Known host hash)
      (Inv host Any) :=
  Triple.mapError (anyExit (query_rule fun _ _ hintact h hget => ⟨h, hintact.getBranch hget⟩))

theorem mergeBranch_keeps {name : GoString} :
    Keeps host (mergeBranch name : GoM (Repository β) Unit) := by
  apply Triple.bind (getBranch_rule)
  intro sourceHash
  apply Triple.bind (anyExit ((Reads.query _).mapError _
    (stable_and stable_any (stable_known))))
  intro currentBranch
  exact Triple.mapError (updateRef_rule fun _ _ h => h.2)

theorem createTag_keeps {name : GoString} :
    Keeps host (createTag name : GoM (Repository β) Unit) := by
  apply Triple.bind (Triple.mapError getHEAD_rule)
  intro hash
  exact mapRefs_rule fun _ hintact h => ⟨hintact.setTag name h, trivial⟩

end Repository

end Govc
