import Govc.CommitExecution
import Govc.GoFrames
import Govc.RepositoryHistory

/-!
# What a checkout leaves alone

A checkout reads objects, writes files to the worktree and moves HEAD.
-/

namespace Govc

open Go GoM.Leaves

namespace Repository

variable {β ω : Type}

theorem resolveName_leaves : (resolveName ref).Leaves part := by
  refine .ite (.pure _) ?_
  refine (view _).bind fun branch => ?_
  cases branch with
  | ok hash => exact .pure _
  | error e =>
    refine (view _).bind fun tag => ?_
    cases tag with
    | ok hash => exact .pure _
    | error e => exact .ite (.fail _) (.fail _)

variable [Backend β]

/-- A part of the repository that reading objects leaves as it is. -/
structure Steady (part : Repository β → ω) : Prop where
  read : ∀ repo store, Store.SameContent repo.store store →
    part { repo with store := store } = part repo

namespace Steady

variable {part : Repository β → ω} (hpart : Steady part) (host : Host)

include hpart

theorem getAs {α : Type} (select : Object → Option α) (kind hash : GoString) :
    (onStore (Store.getAs select kind host hash)).Leaves part := by
  intro repo
  obtain ⟨after, hsame, ⟨_, _, hrun⟩ | ⟨_, _, hrun⟩⟩ :=
    Store.getAs_run select kind host hash repo.store
  · rw [onStore_of_run hrun]
    exact hpart.read repo after hsame
  · rw [onStore_of_run hrun]
    exact hpart.read repo after hsame

theorem walkBack (ref : GoString) (total : ℤ) (n : ℕ) (hash : GoString) :
    (walkBack host ref total n hash).Leaves part := by
  induction n generalizing hash with
  | zero => exact .pure _
  | succ n ih =>
    refine ((hpart.getAs _ _ _ _).mapError _).bind fun commit => ?_
    exact .ite (.fail _) (ih _)

theorem resolveRef (ref : GoString) : (resolveRef host ref).Leaves part := by
  refine .ite (.query _) (.ite ?_ (resolveName_leaves))
  refine (query _).bind fun headHash => ?_
  refine .ite (hpart.walkBack host _ _ _ _) (.ite ?_ (resolveName_leaves))
  refine (hpart.getAs _ _ _ _).bind fun commit => ?_
  exact .ite (.fail _) (.pure _)

end Steady

theorem resolveRef_run (host : Host) (ref : GoString) (repo : Repository β) :
    (resolveRef host ref repo).2.refs = repo.refs ∧
      Store.SameContent repo.store (resolveRef host ref repo).2.store := by
  have hsteady : Steady fun repo : Repository β =>
      (repo.refs, repo.store.find, repo.store.hashed) :=
    ⟨fun _ _ hsame => by simp [funext hsame.find, hsame.hashed]⟩
  obtain ⟨hrefs, hstore⟩ := Prod.mk.inj (hsteady.resolveRef host ref repo)
  obtain ⟨hfind, hhashed⟩ := Prod.mk.inj hstore
  exact ⟨hrefs, congrFun hfind, hhashed⟩

/-- Writing files and moving HEAD leave it alone as well. -/
structure Lasting (part : Repository β → ω) : Prop extends Steady part where
  worktree : ∀ repo worktree, part { repo with worktree := worktree } = part repo
  head : ∀ repo head, part { repo with refs := repo.refs.setHEAD head } = part repo

namespace Lasting

variable {part : Repository β → ω} (hpart : Lasting part)

include hpart

theorem mapWorktree (f : Worktree → Worktree) : (mapWorktree f).Leaves part :=
  .update fun _ => hpart.worktree _ _

theorem setHEAD (head : GoString) : (mapRefs fun refs => refs.setHEAD head).Leaves part :=
  .update fun _ => hpart.head _ _

theorem removeFiles (files : List GoString) : (removeFiles files).Leaves part :=
  .forEach fun _ => hpart.mapWorktree _

variable (host : Host)

theorem restore (call : Call) (commitHash : GoString) :
    (restore host call commitHash).Leaves part := by
  refine (hpart.toSteady.getAs _ _ _ _).bind fun commit => ?_
  refine (hpart.toSteady.getAs _ _ _ _).bind fun tree => ?_
  refine (view _).bind fun files => ?_
  refine (hpart.removeFiles _).bind fun _ => ?_
  exact .forEach fun entry =>
    (hpart.toSteady.getAs _ _ _ _).bind fun content => hpart.mapWorktree _

theorem checkoutBranch (call : Call) (branchName : GoString) :
    (checkoutBranch host call branchName).Leaves part := by
  refine ((query _).mapError _).bind fun branchHash => ?_
  refine .ite ?_ ?_
  · refine (view _).bind fun files => ?_
    exact (hpart.removeFiles _).bind fun _ => hpart.setHEAD _
  · exact (hpart.restore host call _).bind fun _ => hpart.setHEAD _

theorem checkout (call : Call) (ref : GoString) : (checkout host call ref).Leaves part := by
  refine .ite (hpart.checkoutBranch host call _) ?_
  refine (view _).bind fun branch => ?_
  cases branch with
  | ok hash => exact hpart.checkoutBranch host call ref
  | error e =>
    refine .ite ?_ (hpart.checkoutBranch host call ref)
    refine (hpart.toSteady.resolveRef host ref).bind fun commitHash => ?_
    exact (hpart.restore host call _).bind fun _ => hpart.setHEAD _

end Lasting

end Repository

end Govc
