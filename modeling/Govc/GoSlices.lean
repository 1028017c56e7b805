import Mathlib.Data.List.Basic
import Mathlib.Tactic

/-!
# Slices

A slice is a view of a part of a backing array.  Several slices may view one
array, so what is written through one is seen through the others.  `append`
writes into the array as long as the slice has room there and moves to a new
array otherwise; how much room the new one has is up to the runtime.
-/

namespace Go

abbrev Arrays (α : Type) := List (List α)

structure Slice where
  array : ℕ
  offset : ℕ
  length : ℕ
  capacity : ℕ
  deriving DecidableEq, Repr

namespace Slice

variable {α : Type}

def empty : Slice := ⟨0, 0, 0, 0⟩

def read (arrays : Arrays α) (s : Slice) : List α :=
  (((arrays[s.array]?).getD []).drop s.offset).take s.length

def alloc [Inhabited α] (values : List α) (room : ℕ) (arrays : Arrays α) : Slice × Arrays α :=
  (⟨arrays.length, 0, values.length, values.length + room⟩,
    arrays ++ [values ++ List.replicate room default])

def append [Inhabited α] (s : Slice) (value : α) (room : ℕ)
    (arrays : Arrays α) : Slice × Arrays α :=
  if s.length < s.capacity then
    ({ s with length := s.length + 1 },
      arrays.modify s.array fun cells => cells.set (s.offset + s.length) value)
  else alloc (s.read arrays ++ [value]) room arrays

/-- `append(s[:i], s[i+1:]...)`: the elements behind the `i`-th move down, and
the place of the last one keeps its value. -/
def removeAt (s : Slice) (i : ℕ) (arrays : Arrays α) : Slice × Arrays α :=
  ({ s with length := s.length - 1 },
    arrays.modify s.array fun cells =>
      cells.take (s.offset + i) ++ (cells.drop (s.offset + i + 1)).take (s.length - 1 - i) ++
        cells.drop (s.offset + s.length - 1))

/-! ## Cells

What is read through a slice is what its cells hold, so a write is seen through
another slice only in a cell that the other slice shows. -/

def cell (arrays : Arrays α) (array index : ℕ) : Option α :=
  (arrays[array]?).bind fun cells => cells[index]?

def Shows (s : Slice) (array index : ℕ) : Prop :=
  s.array = array ∧ s.offset ≤ index ∧ index < s.offset + s.length

instance decidableShows (s : Slice) (array index : ℕ) :
    Decidable (s.Shows array index) :=
  inferInstanceAs (Decidable (_ ∧ _ ∧ _))

structure Valid (arrays : Arrays α) (s : Slice) : Prop where
  length_le : s.length ≤ s.capacity
  fits : s.capacity = 0 ∨ s.offset + s.capacity ≤ ((arrays[s.array]?).getD []).length

instance decidableValid (arrays : Arrays α) (s : Slice) :
    Decidable (s.Valid arrays) :=
  decidable_of_iff
    (s.length ≤ s.capacity ∧ (s.capacity = 0 ∨
      s.offset + s.capacity ≤ ((arrays[s.array]?).getD []).length))
    ⟨fun h => ⟨h.1, h.2⟩, fun h => ⟨h.length_le, h.fits⟩⟩

theorem valid_empty : empty.Valid arrays := ⟨le_rfl, .inl rfl⟩

theorem getElem?_read {s : Slice} :
    (s.read arrays)[i]? = if i < s.length then cell arrays s.array (s.offset + i) else none := by
  unfold read cell
  rw [List.getElem?_take]
  split
  · rw [List.getElem?_drop]
    cases arrays[s.array]? <;> rfl
  · rfl

variable {arrays : Arrays α} {s : Slice}

theorem read_congr (hcells : ∀ index, s.Shows s.array index →
      cell other s.array index = cell arrays s.array index) :
    s.read other = s.read arrays := by
  apply List.ext_getElem?
  intro i
  rw [getElem?_read, getElem?_read]
  split
  · exact hcells _ ⟨rfl, by omega, by omega⟩
  · rfl

theorem cell_modify {arrays : Arrays α} {changed : ℕ} {change : List α → List α} {array index : ℕ} :
    cell (arrays.modify changed change) array index =
      if changed = array then
        (arrays[array]?).bind fun cells => (change cells)[index]?
      else cell arrays array index := by
  unfold cell
  rw [List.getElem?_modify]
  split_ifs with hsame
  · cases arrays[array]? <;> rfl
  · cases arrays[array]? <;> rfl

theorem Valid.cells (h : s.Valid arrays) (hroom : 0 < s.capacity) :
    ∃ cells, arrays[s.array]? = some cells ∧ s.offset + s.capacity ≤ cells.length := by
  have hfits := h.fits.resolve_left (by omega)
  cases hcells : arrays[s.array]? with
  | none =>
    rw [hcells, Option.getD_none, List.length_nil] at hfits
    omega
  | some cells =>
    rw [hcells, Option.getD_some] at hfits
    exact ⟨cells, rfl, hfits⟩

theorem Valid.length_read (h : s.Valid arrays) : (s.read arrays).length = s.length := by
  unfold read
  by_cases hroom : 0 < s.capacity
  · obtain ⟨cells, hcells, hfits⟩ := h.cells hroom
    have hlength := h.length_le
    rw [hcells, Option.getD_some, List.length_take, List.length_drop]
    omega
  · have hlength := h.length_le
    rw [List.length_take]
    omega

def Keeps (arrays other : Arrays α) : Prop :=
  ∀ (array : ℕ) (cells : List α), arrays[array]? = some cells →
    ∃ after : List α, other[array]? = some after ∧ after.length = cells.length

theorem keeps_refl (arrays : Arrays α) : Keeps arrays arrays :=
  fun _ cells hcells => ⟨cells, hcells, rfl⟩

theorem Valid.keeps (h : s.Valid arrays) (hkeeps : Keeps arrays other) : s.Valid other := by
  refine ⟨h.length_le, ?_⟩
  rcases Nat.eq_zero_or_pos s.capacity with hnone | hroom
  · exact .inl hnone
  · obtain ⟨cells, hcells, hfits⟩ := h.cells hroom
    obtain ⟨after, hafter, hlength⟩ := hkeeps s.array cells hcells
    rw [hafter, Option.getD_some, hlength]
    exact .inr hfits

theorem keeps_modify
    (hlength : ∀ cells, arrays[changed]? = some cells → (change cells).length = cells.length) :
    Keeps arrays (arrays.modify changed change) := by
  intro array cells hcells
  rw [List.getElem?_modify, hcells]
  by_cases hsame : changed = array
  · rw [hsame] at hlength
    exact ⟨change cells, by simp [hsame], hlength cells hcells⟩
  · exact ⟨cells, by simp [hsame], rfl⟩

theorem Valid.array_lt (h : s.Valid arrays) (hroom : 0 < s.capacity) : s.array < arrays.length := by
  obtain ⟨cells, hcells, -⟩ := h.cells hroom
  by_contra hnew
  rw [List.getElem?_eq_none (by omega)] at hcells
  cases hcells

theorem Valid.array_lt_of_shows
    (h : s.Valid arrays) {array index : ℕ} (hshows : s.Shows array index) :
    s.array < arrays.length := by
  apply h.array_lt
  have hlength := h.length_le
  obtain ⟨-, hlow, hhigh⟩ := hshows
  omega

/-! ## New arrays -/

section

variable [Inhabited α]

variable {arrays : Arrays α}

theorem cell_alloc {values : List α} {room : ℕ}
    {array : ℕ} (hold : array < arrays.length) {index : ℕ} :
    cell (alloc values room arrays).2 array index = cell arrays array index := by
  unfold cell alloc
  rw [List.getElem?_append_left hold]

theorem keeps_alloc :
    Keeps arrays (alloc values room arrays).2 := by
  intro array cells hcells
  refine ⟨cells, ?_, rfl⟩
  have hold : array < arrays.length := by
    by_contra hnew
    rw [List.getElem?_eq_none (by omega)] at hcells
    cases hcells
  unfold alloc
  rw [List.getElem?_append_left hold]
  exact hcells

theorem valid_alloc : (alloc values room arrays).1.Valid (alloc values room arrays).2 := by
  refine ⟨Nat.le_add_right _ _, .inr ?_⟩
  unfold alloc
  simp

theorem read_alloc : (alloc values room arrays).1.read (alloc values room arrays).2 = values := by
  unfold alloc read
  simp

variable {s : Slice}

theorem read_alloc_of_valid (h : s.Valid arrays) :
    s.read (alloc values room arrays).2 = s.read arrays :=
  read_congr fun _ hshows =>
    cell_alloc (h.array_lt_of_shows hshows)

/-! ## Appending -/

theorem keeps_append (s : Slice) (value : α) (room : ℕ)
    : Keeps arrays (s.append value room arrays).2 := by
  unfold append
  split_ifs with hspare
  · exact keeps_modify fun _ _ => List.length_set
  · exact keeps_alloc

theorem Valid.append (h : s.Valid arrays) (value : α) (room : ℕ) :
    (s.append value room arrays).1.Valid (s.append value room arrays).2 := by
  by_cases hspare : s.length < s.capacity
  · have hmoved : (s.append value room arrays).1 = { s with length := s.length + 1 } := by
      unfold Slice.append
      rw [if_pos hspare]
    rw [hmoved]
    have hkept := h.keeps (keeps_append s value room)
    exact ⟨hspare, hkept.fits⟩
  · unfold Slice.append
    rw [if_neg hspare]
    exact valid_alloc

theorem read_append_of_unseen {t : Slice}
    (ht : t.Valid arrays) (hunseen : s.length < s.capacity →
      ¬ t.Shows s.array (s.offset + s.length)) :
    t.read (s.append value room arrays).2 = t.read arrays := by
  unfold append
  split_ifs with hspare
  · apply read_congr
    intro index hshows
    rw [cell_modify]
    split_ifs with hsame
    · have hother : s.offset + s.length ≠ index := by
        rintro rfl
        exact hunseen hspare ⟨hsame.symm, hshows.2⟩
      simp only [List.getElem?_set_ne hother]
      rfl
    · rfl
  · exact read_alloc_of_valid ht

theorem read_append_self (h : s.Valid arrays) :
    (s.append value room arrays).1.read (s.append value room arrays).2 =
      s.read arrays ++ [value] := by
  unfold append
  split_ifs with hspare
  · obtain ⟨cells, hcells, hfits⟩ := h.cells (by omega)
    apply List.ext_getElem?
    intro i
    rw [getElem?_read, List.getElem?_append, h.length_read, getElem?_read]
    dsimp only
    rw [cell_modify, if_pos rfl]
    unfold cell
    rw [hcells, Option.bind_some, Option.bind_some]
    by_cases hi : i < s.length
    · have hnext : i < s.length + 1 := by omega
      rw [if_pos hnext, if_pos hi, if_pos hi, List.getElem?_set_ne (by omega)]
    · rw [if_neg hi]
      by_cases hlast : i = s.length
      · rw [hlast, if_pos (Nat.lt_succ_self _), List.getElem?_set_self (by omega)]
        simp
      · have hbehind : ¬ i < s.length + 1 := by omega
        rw [if_neg hbehind, List.getElem?_eq_none]
        simp
        omega
  · exact read_alloc

end

/-! ## Removing -/

def closeGap (s : Slice) (i : ℕ) (cells : List α) : List α :=
  cells.take (s.offset + i) ++ (cells.drop (s.offset + i + 1)).take (s.length - 1 - i) ++
    cells.drop (s.offset + s.length - 1)

theorem snd_removeAt {s : Slice} {arrays : Arrays α} :
    (s.removeAt i arrays).2 = arrays.modify s.array (s.closeGap i) :=
  rfl

variable {i : ℕ}

theorem getElem?_closeGap (hi : i < s.length) (hfits : s.offset + s.length ≤ cells.length) :
    (s.closeGap i cells)[index]? =
      if s.offset + i ≤ index ∧ index + 1 < s.offset + s.length then
        cells[index + 1]?
      else cells[index]? := by
  unfold closeGap
  rw [List.append_assoc, List.getElem?_append, List.length_take, Nat.min_eq_left (by omega)]
  by_cases hbefore : index < s.offset + i
  · rw [if_pos hbefore, if_neg (by omega), List.getElem?_take, if_pos hbefore]
  · rw [if_neg hbefore, List.getElem?_append, List.length_take,
      List.length_drop, Nat.min_eq_left (by omega)]
    by_cases hgap : index - (s.offset + i) < s.length - 1 - i
    · rw [if_pos hgap, if_pos (by omega), List.getElem?_take, if_pos hgap, List.getElem?_drop]
      congr 1
      omega
    · rw [if_neg hgap, if_neg (by omega), List.getElem?_drop]
      congr 1
      omega

theorem length_closeGap (hi : i < s.length) (hfits : s.offset + s.length ≤ cells.length) :
    (s.closeGap i cells).length = cells.length := by
  unfold closeGap
  simp only [List.length_append, List.length_take, List.length_drop]
  omega

theorem Valid.cells_of_lt (h : s.Valid arrays) (hi : i < s.length) :
    ∃ cells, arrays[s.array]? = some cells ∧ s.offset + s.length ≤ cells.length := by
  have hlength := h.length_le
  obtain ⟨cells, hcells, hfits⟩ := h.cells (by omega)
  exact ⟨cells, hcells, by omega⟩

theorem Valid.lt_of_idxOf [BEq α] [LawfulBEq α] (h : s.Valid arrays)
    (hidx : (s.read arrays).idxOf? value = some i) : i < s.length := by
  rw [← h.length_read]
  exact (List.idxOf?_eq_some_iff.mp hidx).1

theorem Valid.keeps_removeAt (h : s.Valid arrays) (hi : i < s.length) :
    Keeps arrays (s.removeAt i arrays).2 := by
  obtain ⟨cells, hcells, hfits⟩ := h.cells_of_lt hi
  apply keeps_modify
  intro found hfound
  rw [hcells] at hfound
  cases hfound
  exact length_closeGap hi hfits

theorem Valid.removeAt (h : s.Valid arrays) (hi : i < s.length) :
    (s.removeAt i arrays).1.Valid (s.removeAt i arrays).2 := by
  have hkept := h.keeps (h.keeps_removeAt hi)
  have hlength : s.length - 1 ≤ s.capacity := by
    have := h.length_le
    omega
  exact ⟨hlength, hkept.fits⟩

theorem read_removeAt_of_unseen {t : Slice}
    (hs : s.Valid arrays) (hi : i < s.length)
    (hunseen : ∀ index, s.offset + i ≤ index →
      index + 1 < s.offset + s.length → ¬ t.Shows s.array index) :
    t.read (s.removeAt i arrays).2 = t.read arrays := by
  obtain ⟨cells, hcells, hfits⟩ := hs.cells_of_lt hi
  apply read_congr
  intro index hshows
  rw [snd_removeAt, cell_modify]
  split_ifs with hsame
  · unfold cell
    rw [← hsame, hcells, Option.bind_some, Option.bind_some, getElem?_closeGap hi hfits, if_neg]
    rintro ⟨hlow, hhigh⟩
    exact hunseen index hlow hhigh ⟨hsame.symm, hshows.2⟩
  · rfl

theorem read_removeAt_self (h : s.Valid arrays) (hi : i < s.length) :
    (s.removeAt i arrays).1.read (s.removeAt i arrays).2 = (s.read arrays).eraseIdx i := by
  obtain ⟨cells, hcells, hfits⟩ := h.cells_of_lt hi
  apply List.ext_getElem?
  intro index
  have hshifted : cell (s.removeAt i arrays).2 s.array (s.offset + index) =
      if i ≤ index ∧ index + 1 < s.length then
        cell arrays s.array (s.offset + (index + 1))
      else cell arrays s.array (s.offset + index) := by
    rw [snd_removeAt, cell_modify, if_pos rfl]
    unfold cell
    rw [hcells, Option.bind_some, Option.bind_some, Option.bind_some, getElem?_closeGap hi hfits]
    by_cases hmoved : i ≤ index ∧ index + 1 < s.length
    · rw [if_pos hmoved, if_pos (by omega), Nat.add_assoc]
    · rw [if_neg hmoved, if_neg (by omega)]
  rw [getElem?_read, List.getElem?_eraseIdx, getElem?_read, getElem?_read]
  change (if index < s.length - 1 then
    cell (s.removeAt i arrays).2 s.array (s.offset + index) else none) = _
  rw [hshifted]
  by_cases hbefore : index < i
  · have hkept : index < s.length - 1 := by omega
    have hlength : index < s.length := by omega
    have hstill : ¬ (i ≤ index ∧ index + 1 < s.length) := by omega
    rw [if_pos hbefore, if_pos hkept, if_pos hlength, if_neg hstill]
  · rw [if_neg hbefore]
    by_cases hinside : index + 1 < s.length
    · have hkept : index < s.length - 1 := by omega
      have hmoved : i ≤ index ∧ index + 1 < s.length := by omega
      rw [if_pos hkept, if_pos hmoved, if_pos hinside]
    · have hgone : ¬ index < s.length - 1 := by omega
      rw [if_neg hgone, if_neg hinside]

/-! ## Slices with arrays of their own

A table of slices, each with an array that no other slice of the table views.
Nothing is ever seen through another entry. -/

section

variable {κ : Type}

structure Owned (arrays : Arrays α) (slices : κ → Option Slice) : Prop where
  valid : ∀ key s, slices key = some s → s.Valid arrays
  room : ∀ key s, slices key = some s → 0 < s.capacity
  apart : ∀ key other s t, slices key = some s → slices other = some t →
    key ≠ other → s.array ≠ t.array

variable {arrays : Arrays α} {slices : κ → Option Slice}

theorem Owned.valid_getD (h : Owned arrays slices) :
    ((slices key).getD empty).Valid arrays := by
  cases hslice : slices key with
  | none => exact valid_empty
  | some s => exact h.valid key s hslice

theorem Owned.eq_some (hroom : 0 < ((slices key).getD empty).capacity) :
    slices key = some ((slices key).getD empty) := by
  cases hslice : slices key with
  | none =>
    rw [hslice] at hroom
    cases hroom
  | some s => rfl

variable {key other : κ} {s t : Slice}

theorem Owned.not_shows (h : Owned arrays slices) (hs : slices key = some s)
    (ht : slices other = some t)
    (hother : other ≠ key) : ¬ t.Shows s.array index := by
  rintro ⟨hsame, -⟩
  exact h.apart other key t s ht hs hother hsame

theorem Owned.read_append [Inhabited α] (h : Owned arrays slices)
    (hother : other ≠ key) {value : α} {room : ℕ}
    (ht : slices other = some t) :
    t.read (((slices key).getD empty).append value room arrays).2 = t.read arrays := by
  apply read_append_of_unseen (h.valid other t ht)
  intro hspare
  have hs := Owned.eq_some (Nat.zero_lt_of_lt hspare)
  exact h.not_shows hs ht hother

theorem Owned.read_removeAt (h : Owned arrays slices)
    (hother : other ≠ key) (hs : slices key = some s)
    (ht : slices other = some t) (hi : i < s.length) :
    t.read (s.removeAt i arrays).2 = t.read arrays :=
  read_removeAt_of_unseen (h.valid key s hs) hi fun index _ _ => h.not_shows hs ht hother

variable [DecidableEq κ]

theorem Owned.update (h : Owned arrays slices) (key : κ)
    (hkeeps : Keeps arrays after) (hvalid : s.Valid after)
    (hroom : 0 < s.capacity)
    (hown : ∀ other t, slices other = some t → other ≠ key → t.array ≠ s.array) :
    Owned after (Function.update slices key (some s)) := by
  constructor
  case valid =>
    intro other t ht
    by_cases hother : other = key
    · rw [hother, Function.update_self] at ht
      cases ht
      exact hvalid
    · rw [Function.update_of_ne hother] at ht
      exact (h.valid other t ht).keeps hkeeps
  case room =>
    intro other t ht
    by_cases hother : other = key
    · rw [hother, Function.update_self] at ht
      cases ht
      exact hroom
    · rw [Function.update_of_ne hother] at ht
      exact h.room other t ht
  case apart =>
    intro first second t u ht hu hne
    by_cases hfirst : first = key
    · rw [hfirst, Function.update_self] at ht
      cases ht
      rw [Function.update_of_ne (by rwa [hfirst, ne_comm] at hne)] at hu
      exact (hown second u hu (by rwa [hfirst, ne_comm] at hne)).symm
    · rw [Function.update_of_ne hfirst] at ht
      by_cases hsecond : second = key
      · rw [hsecond, Function.update_self] at hu
        cases hu
        exact hown first t ht hfirst
      · rw [Function.update_of_ne hsecond] at hu
        exact h.apart first second t u ht hu hne

theorem Owned.erase (h : Owned arrays slices) (key : κ) :
    Owned arrays (Function.update slices key none) := by
  have hold : ∀ other t, Function.update slices key none other = some t →
      slices other = some t := by
    intro other t ht
    by_cases hother : other = key
    · rw [hother, Function.update_self] at ht
      cases ht
    · rwa [Function.update_of_ne hother] at ht
  constructor
  case valid =>
    intro other t ht
    exact h.valid other t (hold other t ht)
  case room =>
    intro other t ht
    exact h.room other t (hold other t ht)
  case apart =>
    intro first second t u ht hu hne
    exact h.apart first second t u (hold first t ht) (hold second u hu) hne

theorem Owned.filter (h : Owned arrays slices) (key : κ) (keep : Slice → Bool) :
    Owned arrays (Function.update slices key ((slices key).filter keep)) := by
  cases hslice : slices key with
  | none => exact h.erase key
  | some s =>
    cases hkeep : keep s with
    | false =>
      rw [Option.filter_some_neg hkeep]
      exact h.erase key
    | true =>
      rw [Option.filter_some_pos hkeep, ← hslice, Function.update_eq_self]
      exact h

theorem capacity_append_pos [Inhabited α] {s : Slice} :
    0 < (s.append value room arrays).1.capacity := by
  unfold Slice.append
  split_ifs with hspare
  · exact Nat.zero_lt_of_lt hspare
  · simp [alloc]

theorem Owned.append [Inhabited α] (h : Owned arrays slices) (key : κ) (value : α) (room : ℕ) :
    Owned (((slices key).getD empty).append value room arrays).2
      (Function.update slices key
        (some (((slices key).getD empty).append value room arrays).1)) := by
  apply h.update key (keeps_append _ value room)
    (h.valid_getD.append value room) (capacity_append_pos)
  intro other t ht hother
  unfold Slice.append
  split_ifs with hspare
  · have hs := Owned.eq_some (Nat.zero_lt_of_lt hspare)
    exact h.apart other key t ((slices key).getD empty) ht hs hother
  · exact ((h.valid other t ht).array_lt (h.room other t ht)).ne

theorem Owned.removeAt (h : Owned arrays slices) (hs : slices key = some s) (hi : i < s.length) :
    Owned (s.removeAt i arrays).2 (Function.update slices key (some (s.removeAt i arrays).1)) := by
  apply h.update key ((h.valid key s hs).keeps_removeAt hi)
    ((h.valid key s hs).removeAt hi) (h.room key s hs)
  intro other t ht hother
  exact h.apart other key t s ht hs hother

end

end Slice

end Go
