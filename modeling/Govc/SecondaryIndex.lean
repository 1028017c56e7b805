import Govc.GoMaps

/-!
# Indexes of a table

An index has the values of a table under one of their fields.  It is exact if it
finds each value under the field that it has now, and nothing else.  The rules
say what keeps it exact: a value that is put, removed, or changed in place.
-/

namespace Go.GoMap

variable {κ ν φ : Type} [DecidableEq κ] [DecidableEq φ]

def Single (table : GoMap κ ν) : Prop :=
  ∀ id other value, table.lookup id = some value → table.lookup other = some value → id = other

def Indexes (table : GoMap κ ν) (field : ν → φ) (index : GoMap φ ν) : Prop :=
  ∀ key value, index.lookup key = some value ↔
    (∃ id, table.lookup id = some value) ∧ field value = key

/-- Without the entry of the value that the identifier has in the table. -/
def forgetting (index : GoMap φ ν) (table : GoMap κ ν) (field : ν → φ) (id : κ) : GoMap φ ν :=
  match table.lookup id with
  | some old => index.erase (field old)
  | none => index

theorem lookup_forgetting {index : GoMap φ ν} {table : GoMap κ ν}
    {id : κ} :
    (index.forgetting table field id).lookup key =
      if (table.lookup id).map field = some key then none
      else index.lookup key := by
  unfold forgetting
  cases table.lookup id with
  | none => simp
  | some old =>
    rw [lookup_erase_eq, Option.map_some]
    simp only [Option.some.injEq, eq_comm]

variable {table : GoMap κ ν} {field : ν → φ} {index : GoMap φ ν}

theorem indexes_empty (field : ν → φ) : Indexes (∅ : GoMap κ ν) field (∅ : GoMap φ ν) := by
  intro key value
  constructor
  · intro hfound
    cases hfound
  · rintro ⟨⟨id, hid⟩, -⟩
    cases hid

section

variable (h : Indexes table field index)

include h

theorem Indexes.eq_of_field {id other : κ}
    (hvalue : table.lookup id = some value)
    (hfound : table.lookup other = some found)
    (hsame : field value = field found) : value = found := by
  have hleft := (h (field found) value).mpr ⟨⟨id, hvalue⟩, hsame⟩
  have hright := (h (field found) found).mpr ⟨⟨other, hfound⟩, rfl⟩
  exact Option.some.inj (hleft.symm.trans hright)

theorem Indexes.congr
    (hsame : ∀ id value, table.lookup id = some value → other value = field value) :
    Indexes table other index := by
  intro key value
  rw [h key value]
  constructor
  · rintro ⟨⟨id, hid⟩, hkey⟩
    exact ⟨⟨id, hid⟩, (hsame id value hid).trans hkey⟩
  · rintro ⟨⟨id, hid⟩, hkey⟩
    exact ⟨⟨id, hid⟩, (hsame id value hid).symm.trans hkey⟩

theorem Indexes.insert (hsingle : Single table) {id : κ}
    (hfree : ∀ other found, table.lookup other = some found →
      field found = field value → other = id) :
    Indexes (table.insert id value) field
      ((index.forgetting table field id).insert (field value) value) := by
  intro key found
  rw [lookup_insert_eq, lookup_forgetting]
  constructor
  · intro hfound
    split_ifs at hfound with hkey hforgotten
    · cases hfound
      exact ⟨⟨id, AList.lookup_insert _⟩, hkey.symm⟩
    · obtain ⟨⟨other, hother⟩, hfield⟩ := (h key found).mp hfound
      have hne : other ≠ id := by
        rintro rfl
        rw [hother, Option.map_some, hfield] at hforgotten
        exact hforgotten rfl
      exact ⟨⟨other, (AList.lookup_insert_ne hne).trans hother⟩, hfield⟩
  · rintro ⟨⟨other, hother⟩, rfl⟩
    rw [lookup_insert_eq] at hother
    split_ifs at hother with hid
    · cases hother
      exact if_pos rfl
    · have hkey : field found ≠ field value := fun hsame => hid (hfree other found hother hsame)
      have hkept : (table.lookup id).map field ≠ some (field found) := by
        intro hold
        obtain ⟨old, hlookup, hsame⟩ := Option.map_eq_some_iff.mp hold
        have heq := h.eq_of_field hlookup hother hsame
        rw [heq] at hlookup
        exact hid (hsingle other id found hother hlookup)
      rw [if_neg hkey, if_neg hkept]
      exact (h _ found).mpr ⟨⟨other, hother⟩, rfl⟩

theorem Indexes.erase (hsingle : Single table) {id : κ} (hvalue : table.lookup id = some value) :
    Indexes (table.erase id) field (index.erase (field value)) := by
  intro key found
  rw [lookup_erase_eq]
  constructor
  · intro hfound
    split_ifs at hfound with hkey
    obtain ⟨⟨other, hother⟩, hfield⟩ := (h key found).mp hfound
    have hne : other ≠ id := by
      rintro rfl
      rw [hvalue] at hother
      cases hother
      exact hkey hfield.symm
    exact ⟨⟨other, (AList.lookup_erase_ne hne).trans hother⟩, hfield⟩
  · rintro ⟨⟨other, hother⟩, rfl⟩
    rw [lookup_erase_eq] at hother
    split_ifs at hother with hid
    have hkey : field found ≠ field value := by
      intro hsame
      have heq := h.eq_of_field hother hvalue hsame
      rw [← heq] at hvalue
      exact hid (hsingle other id found hother hvalue)
    rw [if_neg hkey]
    exact (h _ found).mpr ⟨⟨other, hother⟩, rfl⟩

end

/-! ## Values with contents

Where the values are addresses, a field is one of what is stored there. -/

section

variable [DecidableEq ν] {β : Type} {contents : ν → β} {f : β → φ}

theorem Indexes.update (h : Indexes table (fun value => f (contents value)) index)
    (hkept : ∀ id, table.lookup id = some value → f content = f (contents value)) :
    Indexes table (fun found => f (Function.update contents value content found)) index := by
  apply h.congr
  intro id found hfound
  by_cases hsame : found = value
  · rw [hsame, Function.update_self]
    exact hkept id (hsame ▸ hfound)
  · rw [Function.update_of_ne hsame]

theorem Indexes.move (h : Indexes table (fun value => f (contents value))
    index) {id : κ} (hvalue : table.lookup id = some value)
    (hfree : ∀ other found, table.lookup other = some found →
      f (contents found) = f content → other = id) :
    Indexes table (fun found => f (Function.update contents value content found))
      ((index.erase (f (contents value))).insert (f content) value) := by
  intro key found
  dsimp only
  rw [lookup_insert_eq, lookup_erase_eq]
  by_cases hsame : found = value
  · rw [hsame, Function.update_self]
    constructor
    · intro hfound
      split_ifs at hfound with hkey hforgotten
      · exact ⟨⟨id, hvalue⟩, hkey.symm⟩
      · exact absurd ((h key value).mp hfound).2.symm hforgotten
    · rintro ⟨-, hkey⟩
      rw [if_pos hkey.symm]
  · rw [Function.update_of_ne hsame]
    constructor
    · intro hfound
      split_ifs at hfound with hkey hforgotten
      · exact absurd (Option.some.inj hfound).symm hsame
      · exact (h key found).mp hfound
    · rintro ⟨⟨other, hother⟩, rfl⟩
      have hkey : f (contents found) ≠ f content := by
        intro hclash
        rw [hfree other found hother hclash, hvalue] at hother
        exact hsame (Option.some.inj hother).symm
      have hkept : f (contents found) ≠ f (contents value) :=
        fun hclash => hsame (h.eq_of_field hother hvalue hclash)
      rw [if_neg hkey, if_neg hkept]
      exact (h _ found).mpr ⟨⟨other, hother⟩, rfl⟩

end

end Go.GoMap
