import Govc.GoPaths

/-!
# The validation of file paths

`ValidateFilePath` cleans a path and tests the text of the result.  Cleaning
leaves parent references only in front, so one test of the first bytes is
enough to exclude them, and the first element of an accepted path is the first
element under any directory that the path is joined to.
-/

namespace Govc

open Go Filepath

structure ValidationError where
  field : GoString
  message : GoString
  deriving DecidableEq

def refusePath (bad : Bool) (message : String) : Except ValidationError Unit :=
  if bad then .error ⟨str "path", str message⟩ else .ok ()

def validateFilePath (path : GoString) : Except ValidationError Unit := do
  refusePath (path.length = 0) "file path cannot be empty"
  refusePath (path.length > 4096) "file path too long"
  let cleaned := clean path
  refusePath (hasPrefix cleaned (str "..") || contains cleaned (str "../"))
    "path traversal detected"
  refusePath (isAbs cleaned || path[1]? = some 58) "absolute paths are not allowed"
  refusePath (contains path [0]) "null bytes in path are not allowed"
  match cleaned.splitOn slash with
  | [] => pure ()
  | first :: _ =>
    refusePath (hasPrefix first (str ".") && first ≠ dot)
      "access to hidden files at root level is not allowed"

theorem refusePath_bind_eq_ok :
    (refusePath bad message >>= next) = .ok () ↔ bad = false ∧ next () = .ok () := by
  cases bad with
  | true =>
    constructor
    · intro hok
      cases hok
    · rintro ⟨hbad, -⟩
      cases hbad
  | false => exact ⟨fun hok => ⟨rfl, hok⟩, fun hok => hok.2⟩

theorem field_of_refusePath {e : ValidationError} (herror : refusePath bad message = .error e) :
    e.field = str "path" := by
  cases bad with
  | true =>
    cases herror
    rfl
  | false => cases herror

theorem field_of_refusePath_bind {bad : Bool} {message : String}
    {next : Unit → Except ValidationError Unit}
    (hnext : ∀ e, next () = .error e → e.field = str "path")
    {e : ValidationError} (herror : (refusePath bad message >>= next) = .error e) :
    e.field = str "path" := by
  cases bad with
  | true =>
    cases herror
    rfl
  | false => exact hnext e herror

theorem field_of_validateFilePath {path : GoString} (e : ValidationError)
    (herror : validateFilePath path = .error e) : e.field = str "path" := by
  revert e
  repeat apply field_of_refusePath_bind
  intro e herror
  cases hparts : (clean path).splitOn slash with
  | nil =>
    rw [hparts] at herror
    cases herror
  | cons first rest =>
    rw [hparts] at herror
    exact field_of_refusePath herror

/-! ## What is accepted -/

theorem elements_of_validateFilePath (haccepted : validateFilePath path = .ok ()) :
    isAbs path = false ∧ climbs (elements path) = 0 ∧
      ∀ first ∈ (elements path).head?, hasPrefix first (str ".") = false := by
  unfold validateFilePath at haccepted
  rw [refusePath_bind_eq_ok, refusePath_bind_eq_ok, refusePath_bind_eq_ok,
    refusePath_bind_eq_ok, refusePath_bind_eq_ok] at haccepted
  obtain ⟨-, -, htraversal, habsolute, -, hhidden⟩ := haccepted
  have hrel : isAbs path = false := by
    rw [← isAbs_clean]
    exact (Bool.or_eq_false_iff.mp habsolute).1
  obtain ⟨hnames, -⟩ := elementsAs_form (isAbs path) path
  have hform := climbs_append_names (elements path)
  have hclimbs : climbs (elements path) = 0 := by
    cases hcount : climbs (elements path) with
    | zero => rfl
    | succ count =>
      rw [hcount, List.replicate_succ, List.cons_append] at hform
      have hfront := hasPrefix_clean hrel hform.symm
      rw [show dotdot = str ".." from rfl, (Bool.or_eq_false_iff.mp htraversal).1] at hfront
      cases hfront
  refine ⟨hrel, hclimbs, ?_⟩
  intro first hfirst
  rw [Option.mem_def, List.head?_eq_some_iff] at hfirst
  obtain ⟨rest, helements⟩ := hfirst
  have hne : elements path ≠ [] := by
    rw [helements]
    exact List.cons_ne_nil first rest
  rw [splitOn_clean hrel hne, helements] at hhidden
  have hname : IsName first := by
    apply hnames
    rw [hclimbs, List.replicate_zero, List.nil_append] at hform
    change first ∈ names (elements path)
    rw [hform, helements]
    exact List.mem_cons_self
  by_contra hdot
  simp [refusePath, hdot, hname.ne_dot] at hhidden

/-- The first element under the directory, if there is one, is not hidden. -/
def ShownUnder (dir path : GoString) : Prop :=
  ∀ first below, elements path = elements dir ++ first :: below → hasPrefix first (str ".") = false

/-- An accepted path joined to a directory is the directory or lies below it,
and not under a hidden name. -/
theorem accepted_path_confined {path : GoString}
    (haccepted : validateFilePath path = .ok ()) (root : GoString) :
    Within root (join root path) ∧ ShownUnder root (join root path) := by
  obtain ⟨hrel, hclimbs, hshown⟩ := elements_of_validateFilePath haccepted
  obtain ⟨habs, helements⟩ := elements_join_of_climbs_eq_zero hrel hclimbs
  constructor
  · refine ⟨habs, elements path, ?_, helements⟩
    rw [← climbs_append_names (elements path), hclimbs]
    exact IsName.dotdot_not_mem (elementsAs_form (isAbs path) path).1
  · intro first below hunder
    rw [helements, List.append_cancel_left_eq] at hunder
    exact hshown first (by rw [hunder]; rfl)

theorem accepted_path_confined_source :
    Within (str "/srv") (join (str "/srv") (str "a/../src/main.go")) ∧
      ShownUnder (str "/srv") (join (str "/srv") (str "a/../src/main.go")) :=
  accepted_path_confined (by decide) (str "/srv")

end Govc
