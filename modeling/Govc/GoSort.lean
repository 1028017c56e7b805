import Govc.GoStrings
import Mathlib.Data.List.Sort
import Mathlib.Order.Lex

/-!
# Ordered slices

Byte strings in Go's order, slices sorted by a key, and the binary searches that
read them.  A search halves the half-open interval `[left, right)` in every
round, so `right - left` rounds are enough.
-/

namespace Go

instance linearOrderUInt8 : LinearOrder UInt8 where
  le_refl := UInt8.le_refl
  le_trans _ _ _ := UInt8.le_trans
  le_antisymm _ _ := UInt8.le_antisymm
  le_total := UInt8.le_total
  lt_iff_le_not_ge a b := by
    rw [UInt8.not_le, UInt8.le_iff_lt_or_eq]
    exact ⟨fun hlt => ⟨.inl hlt, hlt⟩, fun hboth => hboth.2⟩
  toDecidableLE := inferInstance

instance linearOrderUInt32 : LinearOrder UInt32 where
  le_refl := UInt32.le_refl
  le_trans _ _ _ := UInt32.le_trans
  le_antisymm _ _ := UInt32.le_antisymm
  le_total := UInt32.le_total
  lt_iff_le_not_ge a b := by
    rw [UInt32.not_le, UInt32.le_iff_lt_or_eq]
    exact ⟨fun hlt => ⟨.inl hlt, hlt⟩, fun hboth => hboth.2⟩
  toDecidableLE := inferInstance

/-- `sort.Search` in rounds: the first position of `[left, right)` at which
the predicate holds. -/
def sortSearch (holds : ℕ → Bool) : ℕ → ℕ → ℕ → ℕ
  | 0, left, _ => left
  | fuel + 1, left, right =>
    if left < right then
      let mid := (left + right) / 2
      if holds mid then sortSearch holds fuel left mid
      else sortSearch holds fuel (mid + 1) right
    else left

/-- For a predicate that stays true once it is, everything in front of the
result fails and everything from it on holds. -/
theorem sortSearch_spec {holds : ℕ → Bool} {size fuel left right : ℕ}
    (hmono : ∀ i j, i ≤ j → j < size → holds i = true → holds j = true)
    (hleft : left ≤ right) (hright : right ≤ size) (hfuel : right - left ≤ fuel)
    (hbefore : ∀ i < left, holds i = false)
    (hafter : ∀ i, right ≤ i → i < size → holds i = true) :
    sortSearch holds fuel left right ≤ size ∧
      (∀ i < sortSearch holds fuel left right, holds i = false) ∧
      ∀ i, sortSearch holds fuel left right ≤ i → i < size → holds i = true := by
  induction fuel generalizing left right with
  | zero =>
    rw [sortSearch]
    refine ⟨hleft.trans hright, hbefore, ?_⟩
    intro i hi
    exact hafter i (by omega)
  | succ fuel ih =>
    rw [sortSearch]
    split
    · dsimp only
      cases hmid : holds ((left + right) / 2) with
      | true =>
        refine ih (by omega) (by omega) (by omega) hbefore ?_
        intro i hi hsize
        exact hmono _ i hi hsize hmid
      | false =>
        refine ih (by omega) hright (by omega) ?_ hafter
        intro i hi
        by_contra hholds
        rw [Bool.not_eq_false] at hholds
        have hlater := hmono i _ (by omega : i ≤ (left + right) / 2) (by omega) hholds
        rw [hmid] at hlater
        cases hlater
    · refine ⟨hleft.trans hright, hbefore, ?_⟩
      intro i hi
      exact hafter i (by omega)

section Search

variable {α κ : Type} [LinearOrder κ] (keyOf : α → κ)

/-- `sort.Slice` by a key, for elements whose keys are distinct. -/
def sortByKey (items : List α) : List α := items.insertionSort fun a b => keyOf a ≤ keyOf b

def Ascending (items : List α) : Prop := items.Pairwise fun a b => keyOf a < keyOf b

theorem mem_sortByKey (items : List α) (item : α) : item ∈ sortByKey keyOf items ↔ item ∈ items :=
  (List.perm_insertionSort _ items).mem_iff

theorem sortByKey_ascending {items : List α}
    (hdistinct : (items.map keyOf).Nodup) :
    Ascending keyOf (sortByKey keyOf items) := by
  have hperm : (sortByKey keyOf items).Perm items := List.perm_insertionSort _ items
  have hsorted : (sortByKey keyOf items).Pairwise fun a b => keyOf a ≤ keyOf b := by
    exact List.pairwise_insertionSort _ items
  have hne : (sortByKey keyOf items).Pairwise fun a b => keyOf a ≠ keyOf b :=
    List.pairwise_map.mp ((hperm.map keyOf).nodup_iff.mpr hdistinct)
  apply (hsorted.and hne).imp
  intro a b hab
  exact lt_of_le_of_ne hab.1 hab.2

/-- The position of the first element above a key, by binary search. -/
def searchAbove (items : List α) (key : κ) : ℕ → ℕ → ℕ → ℕ
  | 0, left, _ => left
  | fuel + 1, left, right =>
    if left < right then
      let mid := (left + right) / 2
      match items[mid]? with
      | none => left
      | some item =>
        if key < keyOf item then searchAbove items key fuel left mid
        else searchAbove items key fuel (mid + 1) right
    else left

variable {left right : ℕ}

theorem searchAbove_le (items : List α) (key : κ) (fuel : ℕ) (hle : left ≤ right) :
    searchAbove keyOf items key fuel left right ≤ right := by
  induction fuel generalizing left right with
  | zero => exact hle
  | succ fuel ih =>
    rw [searchAbove]
    split
    · dsimp only
      cases hmid : items[(left + right) / 2]? with
      | none => exact hle
      | some middle =>
        dsimp only
        split
        · have hhalf := @ih left ((left + right) / 2) (by omega)
          omega
        · exact ih (by omega)
    · exact hle

variable {keyOf} {items : List α} {key : κ}

variable {i : ℕ}

theorem Ascending.getElem?_lt (hsorted : Ascending keyOf items)
    {j : ℕ} {a b : α} (ha : items[i]? = some a) (hb : items[j]? = some b)
    (hij : i < j) : keyOf a < keyOf b := by
  obtain ⟨hi, rfl⟩ := List.getElem?_eq_some_iff.mp ha
  obtain ⟨hj, rfl⟩ := List.getElem?_eq_some_iff.mp hb
  exact List.pairwise_iff_getElem.mp hsorted i j hi hj hij

theorem Ascending.lt_iff (hsorted : Ascending keyOf items)
    {j : ℕ} {a b : α} (ha : items[i]? = some a) (hb : items[j]? = some b) :
    keyOf a < keyOf b ↔ i < j := by
  rcases lt_trichotomy i j with hij | rfl | hij
  · exact iff_of_true (hsorted.getElem?_lt ha hb hij) hij
  · rw [ha, Option.some.injEq] at hb
    rw [hb, lt_self_iff_false, lt_self_iff_false]
  · exact iff_of_false (lt_asymm (hsorted.getElem?_lt hb ha hij)) (by omega)

variable {item : α} {fuel : ℕ}

theorem searchAbove_eq (hsorted : Ascending keyOf items)
    (hitem : items[i]? = some item) (hkey : keyOf item ≤ key)
    (hnext : ∀ next, items[i + 1]? = some next → key < keyOf next)
    (hleft : left ≤ i + 1) (hright : i < right)
    (hlength : right ≤ items.length) (hfuel : right - left ≤ fuel) :
    searchAbove keyOf items key fuel left right = i + 1 := by
  induction fuel generalizing left right with
  | zero =>
    have hend : left = i + 1 := by omega
    rw [searchAbove, hend]
  | succ fuel ih =>
    rw [searchAbove]
    split
    · have hbound : (left + right) / 2 < items.length := by omega
      obtain ⟨middle, hmid⟩ : ∃ middle, items[(left + right) / 2]? = some middle :=
        ⟨_, List.getElem?_eq_getElem hbound⟩
      simp only [hmid]
      split_ifs with habove
      · exact ih hleft ((hsorted.lt_iff hitem hmid).mp (hkey.trans_lt habove)) (by omega) (by omega)
      · have hafter : (left + right) / 2 + 1 ≤ i + 1 := by
          by_contra hcon
          have hin := List.getElem?_eq_getElem (by omega : i + 1 < items.length)
          have hle := not_lt.mp ((hsorted.lt_iff hmid hin).not.mpr (by omega))
          exact habove ((hnext _ hin).trans_le hle)
        exact ih hafter hright hlength (by omega)
    · omega

variable [DecidableEq κ]

def searchKey (keyOf : α → κ) (items : List α) (key : κ) : ℕ → ℕ → ℕ → Option α
  | 0, _, _ => none
  | fuel + 1, left, right =>
    if left < right then
      let mid := (left + right) / 2
      match items[mid]? with
      | none => none
      | some item =>
        if keyOf item = key then some item
        else if keyOf item < key then
          searchKey keyOf items key fuel (mid + 1) right
        else searchKey keyOf items key fuel left mid
    else none

theorem searchKey_sound (hfound : searchKey keyOf items key fuel left right = some item) :
    item ∈ items ∧ keyOf item = key := by
  induction fuel generalizing left right with
  | zero => cases hfound
  | succ fuel ih =>
    rw [searchKey] at hfound
    split at hfound
    · cases hmid : items[(left + right) / 2]? with
      | none => simp [hmid] at hfound
      | some middle =>
        simp only [hmid] at hfound
        by_cases heq : keyOf middle = key
        · rw [if_pos heq, Option.some.injEq] at hfound
          rw [← hfound]
          exact ⟨List.mem_of_getElem? hmid, heq⟩
        · rw [if_neg heq] at hfound
          split at hfound
          · exact ih hfound
          · exact ih hfound
    · cases hfound

theorem searchKey_complete (hsorted : Ascending keyOf items)
    (hitem : items[i]? = some item) (hkey : keyOf item = key)
    (hleft : left ≤ i) (hright : i < right) (hlength : right ≤ items.length)
    (hfuel : right - left ≤ fuel) :
    searchKey keyOf items key fuel left right = some item := by
  induction fuel generalizing left right with
  | zero => omega
  | succ fuel ih =>
    have hlt : left < right := by omega
    have hbound : (left + right) / 2 < items.length := by omega
    obtain ⟨middle, hmid⟩ : ∃ middle, items[(left + right) / 2]? = some middle :=
      ⟨_, List.getElem?_eq_getElem hbound⟩
    rw [searchKey, if_pos hlt]
    simp only [hmid]
    by_cases heq : keyOf middle = key
    · rw [if_pos heq]
      -- Two elements with one key are one element.
      have hnotBefore := (hsorted.lt_iff hmid hitem).not.mp (by rw [heq, hkey]; exact lt_irrefl key)
      have hnotAfter := (hsorted.lt_iff hitem hmid).not.mp (by rw [heq, hkey]; exact lt_irrefl key)
      rw [← hmid, ← hitem, show (left + right) / 2 = i by omega]
    · have hne : (left + right) / 2 ≠ i := by
        intro hi
        rw [hi, hitem, Option.some.injEq] at hmid
        rw [← hmid] at heq
        exact heq hkey
      have hside := hsorted.lt_iff hmid hitem
      rw [hkey] at hside
      split_ifs with hbelow
      · exact ih (hside.mp hbelow) hright hlength (by omega)
      · have hbefore : i < (left + right) / 2 := by
          have hnot := hside.not.mp hbelow
          omega
        exact ih hleft hbefore (by omega) (by omega)

theorem searchKey_eq_find? (hsorted : Ascending keyOf items) :
    searchKey keyOf items key items.length 0 items.length =
      items.find? fun item => keyOf item = key := by
  cases hfind : items.find? fun item => decide (keyOf item = key) with
  | none =>
    cases hsearch : searchKey keyOf items key items.length 0 items.length with
    | none => rfl
    | some item =>
      obtain ⟨hmem, hkey⟩ := searchKey_sound hsearch
      have hne := List.find?_eq_none.mp hfind item hmem
      simp [hkey] at hne
  | some item =>
    have hkey : keyOf item = key := by
      simpa using List.find?_some hfind
    obtain ⟨i, hi, hitem⟩ := List.mem_iff_getElem.mp (List.mem_of_find?_eq_some hfind)
    apply searchKey_complete hsorted _ hkey (Nat.zero_le i) hi (le_refl _)
    · omega
    · rw [List.getElem?_eq_getElem hi, hitem]

end Search

/-- `sort.Slice`, of which it is known only that it rearranges the elements
and that its result depends on nothing but them and the comparison. -/
structure Sorter where
  sort : {α : Type} → (α → α → Bool) → List α → List α
  perm : ∀ {α : Type} (less : α → α → Bool) (items : List α), (sort less items).Perm items

def Sorter.insertion : Sorter where
  sort less items := items.insertionSort fun a b => less b a = false
  perm _ items := List.perm_insertionSort _ items

end Go
