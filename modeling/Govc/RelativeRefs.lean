import Govc.MergeBase
import Mathlib.Data.List.TakeWhile

/-!
# Relative references and the log

`resolveRef` walks back from HEAD for `HEAD~n`, and `Log` walks back from HEAD
to list commits.  The loops are written twice, with different ends.  On a
history that can be read to its root both see the same commits.
-/

namespace Govc

open Go GoM

namespace Repository

variable {β : Type} [Backend β]

/-- The loop of `Log` from its turn `i` on. -/
def logFrom (host : Host) (limit : ℤ) : ℕ → ℕ → GoString → GoM (Repository β) (List Commit)
  | 0, _, _ => diverge
  | turns + 1, i, currentHash =>
    if (limit ≤ 0 ∨ (i : ℤ) < limit) ∧ currentHash ≠ [] then do
      match ← attempt (onStore (Store.getCommit host currentHash)) with
      | .error _ => pure []
      | .ok commit => do
        let rest ← logFrom host limit turns (i + 1) commit.parentHash
        pure (commit :: rest)
    else pure []

def log (host : Host) (turns : ℕ) (limit : ℤ) : GoM (Repository β) (List Commit) := do
  match ← view fun repo => repo.refs.getHEAD with
  | .error _ => pure []
  | .ok headHash =>
    if headHash = [] then pure [] else logFrom host limit turns 0 headHash

/-- A decimal number is read as it is written. -/
theorem scanInt_digits (hdigits : parseDigits digits = some n) (hn : n < 2 ^ 63) (default : ℤ) :
    scanInt digits default = n := by
  have hall : digits ≠ [] ∧ ∀ b ∈ digits, isDigit b = true := by
    by_contra hbad
    rw [parseDigits, if_neg (by simpa using hbad)] at hdigits
    cases hdigits
  have htake : digits.takeWhile isDigit = digits := List.takeWhile_eq_self_iff.mpr hall.2
  cases digits with
  | nil => exact absurd rfl hall.1
  | cons b rest =>
    have hb := hall.2 b List.mem_cons_self
    have hwidth : widthOf (spaceEncodings.filter (· ≠ [newline])) (b :: rest) = 0 :=
      widthOf_of_graph (isGraph_of_isDigit hb) (List.filter_subset_self _)
    have htrim : trimLeftWith (spaceEncodings.filter (· ≠ [newline]))
        (b :: rest).length (b :: rest) = b :: rest := by
      rw [List.length_cons, trimLeftWith, if_pos hwidth]
    have hsign : splitSign (b :: rest) = (false, b :: rest) := by
      simp [splitSign, isDigit_not_sign hb]
    have hrange : InInt64 (signed false n) := by
      simp only [signed, InInt64]
      omega
    simp only [scanInt, htrim, hsign, htake, hdigits, if_pos hrange]
    rfl

end Repository

namespace Store

variable {β : Type} [Backend β] {host : Host} {store : Store β}
  {hash : GoString} {items : List GoString}

/-- The commits from a hash back to the root, all of which can be read. -/
structure History (host : Host) (store : Store β) (hash : GoString)
    (items : List GoString) : Prop where
  ancestry : store.Ancestry host hash items
  readable : ∀ item ∈ items, (store.commitAt host item).isSome

theorem History.of_sameContent (hhistory : store.History host hash items)
    (hsame : SameContent store after) : after.History host hash items where
  ancestry := by
    rw [Ancestry, hsame.parentOf host]
    exact hhistory.ancestry
  readable := by
    intro item hitem
    rw [commitAt, hsame.readAs]
    exact hhistory.readable item hitem

theorem History.cases (hhistory : store.History host hash items) (hne : hash ≠ []) :
    ∃ commit rest, store.commitAt host hash = some commit ∧
      items = hash :: rest ∧ store.History host commit.parentHash rest := by
  obtain ⟨hitems, hread⟩ := hhistory
  rw [ancestry_iff hne] at hitems
  cases hcommit : store.commitAt host hash with
  | none =>
    rw [hcommit] at hitems
    simp [hitems, hcommit] at hread
  | some commit =>
    rw [hcommit] at hitems
    obtain ⟨rest, rfl, hrest⟩ := hitems
    exact ⟨commit, rest, rfl, rfl, hrest,
      fun item hitem => hread item (List.mem_cons_of_mem _ hitem)⟩

end Store

namespace Repository

variable {β : Type} [Backend β] {host : Host} {hash : GoString}
  {items : List GoString} {repo : Repository β}

theorem walkBack_run (ref : GoString) (total : ℤ) (n : ℕ) (hne : hash ≠ [])
    (hhistory : repo.store.History host hash items) :
    (∃ found, items[n]? = some found ∧ (walkBack host ref total n hash repo).1 = .ok found) ∨
      items[n]? = none ∧ ∃ e, (walkBack host ref total n hash repo).1 = .error e := by
  induction n generalizing hash items repo with
  | zero =>
    obtain ⟨_, rest, -, rfl, -⟩ := hhistory.cases hne
    exact .inl ⟨hash, rfl, rfl⟩
  | succ n ih =>
    obtain ⟨commit, rest, hcommit, rfl, hrest⟩ := hhistory.cases hne
    obtain ⟨after, hsame, ⟨_, hread, hrun⟩ | ⟨hnone, -⟩⟩ := Store.getCommit_run repo.store
    · cases hcommit.symm.trans hread
      have hstep : walkBack host ref total (n + 1) hash repo =
          (if commit.parentHash = [] then fail (str "cannot go back " ++
              formatInt total ++ str " commits from HEAD")
            else walkBack host ref total n commit.parentHash)
            { repo with store := after } := by
        simp [walkBack, bind_apply, mapError, onStore_of_run hrun]
      rw [hstep, List.getElem?_cons_succ]
      split_ifs with hroot
      · have hend := hrest.ancestry
        rw [hroot, Store.ancestry_nil] at hend
        exact .inr ⟨by simp [hend], _, rfl⟩
      · exact ih hroot (hrest.of_sameContent hsame)
    · cases hcommit.symm.trans hnone

/-- The first `limit - i` commits, or all of them without a limit. -/
def limited (limit : ℤ) (i : ℕ) (commits : List Commit) : List Commit :=
  if limit ≤ 0 then commits else commits.take (limit - i).toNat

theorem limited_cons {limit : ℤ} {i : ℕ} (hmore : limit ≤ 0 ∨ (i : ℤ) < limit)
    {commit : Commit} {commits : List Commit} :
    commit :: limited limit (i + 1) commits = limited limit i (commit :: commits) := by
  unfold limited
  split_ifs with hlimit
  · rfl
  · have hsucc : (limit - i).toNat = (limit - (i + 1 : ℕ)).toNat + 1 := by omega
    rw [hsucc, List.take_succ_cons]

theorem logFrom_run (limit : ℤ) (i : ℕ) (hhistory : repo.store.History host hash items)
    (hturns : items.length < turns) :
    ∃ after, logFrom host limit turns i hash repo =
      (.ok (limited limit i (items.filterMap (repo.store.commitAt host))), after) := by
  induction turns generalizing i hash items repo with
  | zero => omega
  | succ turns ih =>
    rw [logFrom]
    by_cases hroot : hash = []
    · have hend := hhistory.ancestry
      rw [hroot, Store.ancestry_nil] at hend
      exact ⟨repo, by simp [hroot, hend, limited]⟩
    obtain ⟨commit, rest, hcommit, rfl, hrest⟩ := hhistory.cases hroot
    by_cases hmore : limit ≤ 0 ∨ (i : ℤ) < limit
    · obtain ⟨store, result, hsame, hrun, hread⟩ := read_commit hash repo
      rw [if_pos ⟨hmore, hroot⟩, bind_of_ok hrun]
      cases result with
      | error e => cases hcommit.symm.trans hread.symm
      | ok found =>
        cases hcommit.symm.trans hread.symm
        have hrest' : ({ repo with store := store } : Repository β).store.History
            host commit.parentHash rest := hrest.of_sameContent hsame
        obtain ⟨after, hlog⟩ := ih (i + 1) hrest' (by simpa using hturns)
        have hsame' : store.commitAt host = repo.store.commitAt host :=
          funext (hsame.readAs Store.asCommit host)
        refine ⟨after, ?_⟩
        dsimp only
        rw [bind_of_ok hlog, pure_apply, hsame',
          List.filterMap_cons_some hcommit, limited_cons hmore]
    · obtain ⟨hlimit, hi⟩ := not_or.mp hmore
      have hzero : (limit - i).toNat = 0 := by omega
      exact ⟨repo, by simp [hi, limited, hlimit, hzero]⟩

/-- On a history that can be read, `HEAD~n` is the hash of the commit that
`Log` lists at place `n`, and `Log(k)` lists the first `k` of them. -/
theorem relativeRef_follows_log (host : Host) (repo : Repository β)
    {head digits : GoString} {items : List GoString} {turns n : ℕ}
    (hhead : repo.refs.getHEAD = .ok head) (hne : head ≠ [])
    (hhistory : repo.store.History host head items)
    (hturns : items.length < turns) (hdigits : parseDigits digits = some n)
    (hn : n < 2 ^ 63) :
    ∃ commits, (log host turns 0 repo).1 = .ok commits ∧
      commits.map some = items.map (repo.store.commitAt host) ∧
      ((∃ hash, items[n]? = some hash ∧
          (resolveRef host (str "HEAD~" ++ digits) repo).1 = .ok hash) ∨
        commits.length ≤ n ∧ ∃ e, (resolveRef host (str "HEAD~" ++ digits) repo).1 = .error e) ∧
      ∀ k : ℤ, 1 ≤ k → (log host turns k repo).1 = .ok (commits.take k.toNat) := by
  have hlog : ∀ limit, (log host turns limit repo).1 =
      .ok (limited limit 0 (items.filterMap (repo.store.commitAt host))) := by
    intro limit
    obtain ⟨after, hrun⟩ := logFrom_run limit 0 hhistory hturns
    simp [log, bind_apply, hhead, hne, hrun]
  have hread : (items.filterMap (repo.store.commitAt host)).map some =
      items.map (repo.store.commitAt host) := by
    rw [List.map_filterMap_some_eq_filter_map_isSome, List.filter_eq_self]
    simpa using hhistory.readable
  have hlength := congrArg List.length hread
  rw [List.length_map, List.length_map] at hlength
  have hresolve : resolveRef host (str "HEAD~" ++ digits) repo =
      walkBack host (str "HEAD~" ++ digits) n n head repo := by
    have hdigits' : digits ≠ [] := by
      rintro rfl
      cases hdigits
    have hlong : 5 < (str "HEAD~" ++ digits).length := by
      have hpos := List.length_pos_iff.mpr hdigits'
      rw [List.length_append, show (str "HEAD~").length = 5 from rfl]
      omega
    have hnot : str "HEAD~" ++ digits ≠ str "HEAD" := by
      intro heq
      rw [heq] at hlong
      exact absurd hlong (by decide)
    have hstarts : hasPrefix (str "HEAD~" ++ digits) (str "HEAD") = true :=
      hasPrefix_iff.mpr ⟨str "~" ++ digits, rfl⟩
    have hnumber : (if 5 < (str "HEAD~" ++ digits).length then
        scanInt ((str "HEAD~" ++ digits).drop 5) 1 else 1) = n := by
      rw [if_pos hlong]
      exact scanInt_digits hdigits hn 1
    have hget : getHEAD repo = (.ok head, repo) := by
      simp [getHEAD, query_apply, hhead]
    rw [resolveRef, if_neg hnot, if_pos hstarts, bind_of_ok hget,
      if_pos (hasPrefix_append), hnumber, Int.toNat_natCast]
  refine ⟨_, hlog 0, hread, ?_, fun k hk => ?_⟩
  · rw [hresolve]
    rcases walkBack_run (str "HEAD~" ++ digits) n n hne hhistory with
      hfound | ⟨hnone, herror⟩
    · exact .inl hfound
    · refine .inr ⟨?_, herror⟩
      simpa [limited, hlength] using hnone
  · rw [hlog, limited, limited, if_neg (by omega), if_pos le_rfl]
    simp

def detachedFork : Repository MemoryBackend := { forked with refs := forked.refs.setHEAD [98] }

theorem relativeRef_follows_log_forked :
    ∃ commits, (log Host.checksums 3 0 detachedFork).1 = .ok commits ∧
      commits.map some = [[98], [97]].map (detachedFork.store.commitAt Host.checksums) := by
  have hparent : detachedFork.store.parentOf Host.checksums [98] =
      some (some [97]) := by decide +kernel
  have hroot : detachedFork.store.parentOf Host.checksums [97] = some none := by
    decide +kernel
  have hhistory : detachedFork.store.History Host.checksums [98] [[98], [97]] :=
    ⟨.step hparent (.step hroot .finished), by decide +kernel⟩
  obtain ⟨commits, hlog, hread, -⟩ := relativeRef_follows_log Host.checksums
    detachedFork (by decide +kernel) (by decide) hhistory (by decide : _ < 3)
    (by decide +kernel : parseDigits (str "1") = some 1) (by decide)
  exact ⟨commits, hlog, hread⟩

end Repository

end Govc
