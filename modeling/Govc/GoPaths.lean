import Govc.GoStrings
import Mathlib.Data.List.TakeWhile

/-!
# Slash-separated paths

`Clean`, `Join` and `Dir` of `path/filepath` on a Unix system.  A clean path is a
number of `..` followed by names; joining a relative path to a directory removes
as many names from the directory as the path has `..` and puts the names of the
path in their place.
-/

namespace Go.Filepath

def slash : UInt8 := 47

def dot : GoString := str "."

def dotdot : GoString := str ".."

def isAbs (path : GoString) : Bool := hasPrefix path (str "/")

/-- One turn of the loop of `Clean`.  The elements so far are in `kept`, the
last one first. -/
def pushElement (rooted : Bool) (kept : List GoString) (element : GoString) : List GoString :=
  if element = [] ∨ element = dot then kept
  else if element = dotdot then
    match kept with
    | [] => if rooted then [] else [dotdot]
    | last :: rest => if last = dotdot then dotdot :: last :: rest else rest
  else element :: kept

/-- The loop of `Clean` on the text of a path. -/
def pushPath (rooted : Bool) (kept : List GoString) (path : GoString) : List GoString :=
  (path.splitOn slash).foldl (pushElement rooted) kept

/-- The elements of a path that is read as an absolute or as a relative one. -/
def elementsAs (rooted : Bool) (path : GoString) : List GoString :=
  (pushPath rooted [] path).reverse

def elements (path : GoString) : List GoString := elementsAs (isAbs path) path

def clean (path : GoString) : GoString :=
  if isAbs path then slash :: [slash].intercalate (elements path)
  else if elements path = [] then dot
  else [slash].intercalate (elements path)

/-- `Join` of two elements; an empty one in front is skipped. -/
def join (dir name : GoString) : GoString := if dir = [] then (if name = [] then [] else clean name)
  else clean (dir ++ slash :: name)

/-- `Base`: the last element, without the slashes behind it. -/
def base (path : GoString) : GoString :=
  let stripped := path.reverse.dropWhile (· = slash)
  if path = [] then dot
  else if stripped = [] then [slash]
  else (stripped.takeWhile (· ≠ slash)).reverse

/-- `Dir`: the path up to its last slash, cleaned. -/
def dirOf (path : GoString) : GoString := clean (path.reverse.dropWhile (· ≠ slash)).reverse

/-! ## Elements -/

structure IsName (element : GoString) : Prop where
  ne_nil : element ≠ []
  ne_dot : element ≠ dot
  ne_dotdot : element ≠ dotdot
  noSlash : slash ∉ element

/-- What cleaning has kept so far, the last element first: names, and before
them the `..` of a relative path. -/
structure Kept (rooted : Bool) (kept : List GoString) : Prop where
  form : ∃ names count, kept = names ++ List.replicate count dotdot ∧
    (∀ name ∈ names, IsName name) ∧ (rooted = true → count = 0)

theorem kept_nil (rooted : Bool) : Kept rooted [] := ⟨[], 0, rfl, by simp, fun _ => rfl⟩

variable {element : GoString}

theorem pushElement_name (kept : List GoString) (hname : IsName element) :
    pushElement rooted kept element = element :: kept := by
  unfold pushElement
  rw [if_neg (not_or.mpr ⟨hname.ne_nil, hname.ne_dot⟩), if_neg hname.ne_dotdot]

theorem pushElement_skip
    (hskip : element = [] ∨ element = dot) :
    pushElement rooted kept element = kept := by
  unfold pushElement
  rw [if_pos hskip]

theorem pushElement_dotdot :
    pushElement rooted kept dotdot =
      match kept with
      | [] => if rooted then [] else [dotdot]
      | last :: rest =>
        if last = dotdot then dotdot :: last :: rest else rest := by
  have hkeep : ¬ (dotdot = [] ∨ dotdot = dot) := by decide
  unfold pushElement
  rw [if_neg hkeep, if_pos rfl]

variable {last : GoString}

theorem pushElement_dotdot_name (hlast : IsName last) :
    pushElement rooted (last :: kept) dotdot = kept := by
  exact if_neg hlast.ne_dotdot

theorem pushElement_dotdot_climb :
    pushElement false (List.replicate count dotdot) dotdot = List.replicate (count + 1) dotdot := by
  rw [pushElement_dotdot]
  cases count with
  | zero => rfl
  | succ count => exact if_pos rfl

theorem element_cases (hslash : slash ∉ element) :
    (element = [] ∨ element = dot) ∨ element = dotdot ∨ IsName element := by
  by_cases hskip : element = [] ∨ element = dot
  · exact .inl hskip
  · rw [not_or] at hskip
    by_cases hclimb : element = dotdot
    · exact .inr (.inl hclimb)
    · exact .inr (.inr ⟨hskip.1, hskip.2, hclimb, hslash⟩)

variable {rooted : Bool} {kept : List GoString}

theorem Kept.push (h : Kept rooted kept) (hslash : slash ∉ element) :
    Kept rooted (pushElement rooted kept element) := by
  obtain ⟨names, count, hkept, hnames, hcount⟩ := h.form
  rcases element_cases hslash with hskip | rfl | hname
  · rw [pushElement_skip hskip]
    exact h
  · cases names with
    | nil =>
      rw [List.nil_append] at hkept
      subst hkept
      cases rooted with
      | true =>
        rw [hcount rfl]
        exact kept_nil true
      | false =>
        rw [pushElement_dotdot_climb]
        exact ⟨[], count + 1, rfl, by simp, by simp⟩
    | cons last names =>
      rw [List.cons_append] at hkept
      subst hkept
      rw [pushElement_dotdot_name (hnames last (by simp))]
      refine ⟨names, count, rfl, ?_, hcount⟩
      intro name hmem
      exact hnames name (List.mem_cons_of_mem last hmem)
  · rw [pushElement_name kept hname]
    refine ⟨element :: names, count, by rw [hkept]; rfl, ?_, hcount⟩
    intro name hmem
    rcases List.mem_cons.mp hmem with rfl | hmem
    · exact hname
    · exact hnames name hmem

variable {elems : List GoString}

theorem Kept.foldl (h : Kept rooted kept) (hslash : ∀ element ∈ elems, slash ∉ element) :
    Kept rooted (elems.foldl (pushElement rooted) kept) := by
  induction elems generalizing kept with
  | nil => exact h
  | cons element elems ih =>
    apply ih (h.push (hslash element (by simp)))
    intro other hmem
    exact hslash other (List.mem_cons_of_mem element hmem)

theorem foldl_pushElement_names (kept : List GoString)
    {names : List GoString} (hnames : ∀ name ∈ names, IsName name) :
    names.foldl (pushElement rooted) kept = names.reverse ++ kept := by
  induction names generalizing kept with
  | nil => rfl
  | cons name names ih =>
    have hrest : ∀ other ∈ names, IsName other :=
      fun other hmem => hnames other (List.mem_cons_of_mem name hmem)
    rw [List.foldl_cons, pushElement_name kept (hnames name (by simp)), ih _ hrest]
    simp

theorem foldl_pushElement_clean {rooted : Bool} {base : List GoString}
    (hslash : ∀ element ∈ elems, slash ∉ element) :
    (elems.foldl (pushElement false) []).reverse.foldl (pushElement rooted) base =
      elems.foldl (pushElement rooted) base := by
  -- the last element undoes the one before it on both sides, so the
  -- induction is from the end
  induction elems using List.reverseRecOn with
  | nil => rfl
  | append_singleton elems element ih =>
    have hfront : ∀ other ∈ elems, slash ∉ other := fun other hmem => hslash other (by simp [hmem])
    have hlast : slash ∉ element := hslash element (by simp)
    have hkept := (kept_nil false).foldl hfront
    rw [List.foldl_append, List.foldl_append, ← ih hfront]
    simp only [List.foldl_cons, List.foldl_nil]
    generalize elems.foldl (pushElement false) [] = kept at hkept
    rcases element_cases hlast with hskip | rfl | hname
    · rw [pushElement_skip hskip, pushElement_skip hskip]
    · obtain ⟨names, count, rfl, hnames, -⟩ := hkept.form
      cases names with
      | nil =>
        rw [List.nil_append, pushElement_dotdot_climb,
          List.reverse_replicate, List.reverse_replicate,
          List.replicate_succ', List.foldl_append]
        rfl
      | cons last names =>
        have hname : IsName last := hnames last (by simp)
        rw [List.cons_append, pushElement_dotdot_name hname, List.reverse_cons, List.foldl_append]
        simp only [List.foldl_cons, List.foldl_nil]
        rw [pushElement_name _ hname, pushElement_dotdot_name hname]
    · rw [pushElement_name _ hname, List.reverse_cons, List.foldl_append]
      rfl

/-! ## Splitting -/

variable {path : GoString}

theorem pushPath_append_cons :
    pushPath rooted kept (front ++ slash :: back) =
      pushPath rooted (pushPath rooted kept front) back := by
  unfold pushPath
  rw [List.splitOn_append_cons_self, List.foldl_append]

theorem kept_pushPath : Kept rooted (pushPath rooted [] path) :=
  (kept_nil rooted).foldl fun _ hmem => not_mem_of_mem_splitOn hmem

/-! ## Clean paths -/

def climbs (elems : List GoString) : ℕ := (elems.takeWhile (· = dotdot)).length

def names (elems : List GoString) : List GoString := elems.dropWhile (· = dotdot)

theorem climbs_append_names (elems : List GoString) :
    List.replicate (climbs elems) dotdot ++ names elems = elems := by
  have hall : elems.takeWhile (· = dotdot) = List.replicate (climbs elems) dotdot := by
    rw [List.eq_replicate_iff]
    refine ⟨rfl, ?_⟩
    intro element hmem
    simpa using List.mem_takeWhile_imp hmem
  rw [← hall]
  exact List.takeWhile_append_dropWhile

variable {rest : List GoString}

theorem climbs_replicate_append (hrest : dotdot ∉ rest) :
    climbs (List.replicate count dotdot ++ rest) = count ∧
      names (List.replicate count dotdot ++ rest) = rest := by
  unfold climbs names
  have hfirst : rest.takeWhile (· = dotdot) = [] ∧ rest.dropWhile (· = dotdot) = rest := by
    cases rest with
    | nil => exact ⟨rfl, rfl⟩
    | cons first rest =>
      have hne : first ≠ dotdot := by
        intro heq
        exact hrest (by simp [heq])
      simp [hne]
  induction count with
  | zero => simp [hfirst]
  | succ count ih => simpa [List.replicate_succ] using ih

theorem IsName.dotdot_not_mem (hnames : ∀ name ∈ elems, IsName name) : dotdot ∉ elems :=
  fun hmem => (hnames dotdot hmem).ne_dotdot rfl

theorem elementsAs_form (rooted : Bool) (path : GoString) :
    (∀ name ∈ names (elementsAs rooted path), IsName name) ∧
      (rooted = true → climbs (elementsAs rooted path) = 0) := by
  obtain ⟨kept, count, hkept, hnames, hcount⟩ := kept_pushPath.form
  have hreversed : ∀ name ∈ kept.reverse, IsName name :=
    fun name hmem => hnames name (List.mem_reverse.mp hmem)
  have helements : elementsAs rooted path = List.replicate count dotdot ++ kept.reverse := by
    unfold elementsAs
    rw [hkept, List.reverse_append, List.reverse_replicate]
  obtain ⟨hclimbs, hrest⟩ := climbs_replicate_append (IsName.dotdot_not_mem hreversed)
  rw [helements, hclimbs, hrest]
  exact ⟨hreversed, hcount⟩

theorem foldl_pushElement_form (hnames : ∀ name ∈ names elems, IsName name)
    (hclimbs : rooted = true → climbs elems = 0) :
    elems.foldl (pushElement rooted) [] = elems.reverse := by
  have hfront : (List.replicate (climbs elems) dotdot).foldl
      (pushElement rooted) [] = List.replicate (climbs elems) dotdot := by
    cases rooted with
    | true => rw [hclimbs rfl]; rfl
    | false =>
      generalize climbs elems = count
      induction count with
      | zero => rfl
      | succ count ih =>
        rw [List.replicate_succ', List.foldl_append, ih]
        simp only [List.foldl_cons, List.foldl_nil]
        rw [pushElement_dotdot_climb, List.replicate_succ']
  nth_rewrite 1 [← climbs_append_names elems]
  rw [List.foldl_append, hfront, foldl_pushElement_names _ hnames]
  nth_rewrite 3 [← climbs_append_names elems]
  rw [List.reverse_append, List.reverse_replicate]

theorem of_mem_elementsAs (hmem : element ∈ elementsAs rooted path) :
    element ≠ [] ∧ slash ∉ element := by
  rw [← climbs_append_names (elementsAs rooted path), List.mem_append] at hmem
  rcases hmem with hclimb | hname
  · rw [List.eq_of_mem_replicate hclimb]
    decide
  · have hplain := (elementsAs_form rooted path).1 element hname
    exact ⟨hplain.ne_nil, hplain.noSlash⟩

theorem splitOn_intercalate_elements (hne : elementsAs rooted path ≠ []) :
    ([slash].intercalate (elementsAs rooted path)).splitOn slash = elementsAs rooted path :=
  List.splitOn_intercalate slash (fun _ hmem => (of_mem_elementsAs hmem).2) hne

theorem foldl_pushElement_elementsAs (rooted : Bool) (path : GoString) :
    (elementsAs rooted path).foldl (pushElement rooted) [] = (elementsAs rooted path).reverse :=
  foldl_pushElement_form (elementsAs_form rooted path).1 (elementsAs_form rooted path).2

theorem isAbs_cons_iff : isAbs (b :: path) = true ↔ b = slash := by
  unfold isAbs
  rw [hasPrefix_iff]
  change [slash] <+: b :: path ↔ b = slash
  rw [List.cons_prefix_cons]
  constructor
  · rintro ⟨heq, -⟩
    exact heq.symm
  · intro heq
    exact ⟨heq.symm, List.nil_prefix⟩

theorem isAbs_append (hfront : front ≠ []) : isAbs (front ++ back) = isAbs front := by
  cases front with
  | nil => exact absurd rfl hfront
  | cons b front =>
    rw [Bool.eq_iff_iff, List.cons_append, isAbs_cons_iff, isAbs_cons_iff]

theorem isAbs_of_noSlash (hslash : slash ∉ path) : isAbs path = false := by
  rw [← Bool.not_eq_true]
  cases path with
  | nil => decide
  | cons b path =>
    rw [isAbs_cons_iff]
    intro heq
    exact hslash (by simp [heq])

theorem isAbs_intercalate (helems : ∀ element ∈ elems, element ≠ [] ∧ slash ∉ element) :
    isAbs ([slash].intercalate elems) = false := by
  cases elems with
  | nil => decide
  | cons first rest =>
    obtain ⟨hne, hslash⟩ := helems first (by simp)
    have hfirst := isAbs_of_noSlash hslash
    cases rest with
    | nil => simpa [List.intercalate] using hfirst
    | cons second rest =>
      rw [List.intercalate_cons_cons, List.append_assoc, isAbs_append hne]
      exact hfirst

theorem isAbs_clean (path : GoString) : isAbs (clean path) = isAbs path := by
  unfold clean
  by_cases habs : isAbs path = true
  · rw [if_pos habs, habs, isAbs_cons_iff]
  · rw [if_neg habs]
    rw [Bool.not_eq_true] at habs
    split
    · rw [habs]
      decide
    · rw [habs]
      exact isAbs_intercalate fun _ hmem => of_mem_elementsAs hmem

theorem splitOn_clean (habs : isAbs path = false) (hne : elements path ≠ []) :
    (clean path).splitOn slash = elements path := by
  unfold clean
  rw [habs, if_neg Bool.false_ne_true, if_neg hne]
  exact splitOn_intercalate_elements hne

theorem hasPrefix_clean (habs : isAbs path = false) (helements : elements path = first :: rest) :
    hasPrefix (clean path) first = true := by
  unfold clean
  rw [habs, if_neg Bool.false_ne_true, helements, if_neg (List.cons_ne_nil first rest)]
  cases rest with
  | nil => simp [List.intercalate, hasPrefix_iff]
  | cons second rest =>
    exact hasPrefix_append

theorem elements_clean (path : GoString) : elements (clean path) = elements path := by
  have hfold := foldl_pushElement_elementsAs (isAbs path) path
  unfold elements
  rw [isAbs_clean]
  unfold elementsAs pushPath
  by_cases hempty : elements path = []
  · have hnil : (pushPath (isAbs path) [] path).reverse = [] := hempty
    unfold pushPath at hnil
    rw [hnil]
    unfold clean
    rw [hempty]
    cases isAbs path with
    | true => decide
    | false => decide
  · cases habs : isAbs path with
    | false =>
      rw [splitOn_clean habs hempty]
      unfold elements
      rw [habs] at hfold ⊢
      rw [hfold, List.reverse_reverse]
      rfl
    | true =>
      have htext : clean path = [] ++ slash :: [slash].intercalate (elements path) := by
        unfold clean
        rw [habs, if_pos rfl]
        rfl
      rw [htext, List.splitOn_append_cons_self]
      unfold elements at hempty ⊢
      rw [splitOn_intercalate_elements hempty, List.splitOn_nil]
      rw [habs] at hfold ⊢
      rw [List.singleton_append, List.foldl_cons,
        pushElement_skip (.inl rfl), hfold, List.reverse_reverse]
      rfl

theorem clean_clean : clean (clean path) = clean path := by
  rw [clean, isAbs_clean, elements_clean]
  rfl

/-! ## Joining -/

variable {dir : GoString}

theorem isAbs_join (hdir : dir ≠ []) : isAbs (join dir name) = isAbs dir := by
  unfold join
  rw [if_neg hdir, isAbs_clean, isAbs_append hdir]

theorem elements_join (hdir : dir ≠ []) :
    elements (join dir name) =
      ((elementsAs false name).foldl (pushElement (isAbs dir)) (elements dir).reverse).reverse := by
  unfold join
  rw [if_neg hdir, elements_clean]
  unfold elements
  rw [isAbs_append hdir]
  unfold elementsAs
  rw [pushPath_append_cons, List.reverse_reverse]
  congr 1
  exact (foldl_pushElement_clean fun _ hmem => not_mem_of_mem_splitOn hmem).symm

theorem foldl_climb (hkept : ∀ name ∈ kept, IsName name) (hcount : count ≤ kept.length) :
    (List.replicate count dotdot).foldl (pushElement rooted) (kept ++ rest) =
      kept.drop count ++ rest := by
  induction count generalizing kept with
  | zero => rfl
  | succ count ih =>
    cases kept with
    | nil => exact absurd hcount (by simp)
    | cons last kept =>
      rw [List.replicate_succ, List.foldl_cons, List.cons_append,
        pushElement_dotdot_name (hkept last (by simp)),
        List.drop_succ_cons]
      apply ih
      · intro name hmem
        exact hkept name (List.mem_cons_of_mem last hmem)
      · simpa using hcount

theorem foldl_climb_root : (List.replicate count dotdot).foldl (pushElement true) [] = [] := by
  induction count with
  | zero => rfl
  | succ count ih => exact ih

theorem foldl_climb_replicate :
    (List.replicate more dotdot).foldl (pushElement false) (List.replicate count dotdot) =
      List.replicate (count + more) dotdot := by
  induction more generalizing count with
  | zero => rfl
  | succ more ih =>
    rw [List.replicate_succ, List.foldl_cons, pushElement_dotdot_climb, ih]
    congr 1
    omega

/-- A path can climb out of as many names as the directory has, and out of an
absolute directory as often as it likes. -/
def CanClimb (dir : GoString) (count : ℕ) : Prop :=
  count ≤ (names (elements dir)).length ∨ isAbs dir = true

def above (dir : GoString) (count : ℕ) : List GoString :=
  (names (elements dir)).take ((names (elements dir)).length - count)

def climbed (dir : GoString) (count : ℕ) : List GoString :=
  (names (elements dir)).drop ((names (elements dir)).length - count)

variable {name : GoString}

theorem elements_join_of_canClimb (hdir : dir ≠ [])
    (hclimb : CanClimb dir (climbs (elementsAs false name))) :
    elements (join dir name) =
      List.replicate (climbs (elements dir)) dotdot ++ above dir (climbs (elementsAs false name)) ++
        names (elementsAs false name) := by
  obtain ⟨hown, hrooted⟩ := elementsAs_form (isAbs dir) dir
  have hreversed : ∀ own ∈ (names (elements dir)).reverse, IsName own :=
    fun own hmem => hown own (List.mem_reverse.mp hmem)
  have hclimbed : (List.replicate (climbs (elementsAs false name))
      dotdot).foldl (pushElement (isAbs dir))
        ((names (elements dir)).reverse ++ List.replicate (climbs (elements dir)) dotdot) =
      (above dir (climbs (elementsAs false name))).reverse ++
        List.replicate (climbs (elements dir)) dotdot := by
    unfold above
    rw [List.reverse_take]
    by_cases hle : climbs (elementsAs false name) ≤ (names (elements dir)).length
    · rw [foldl_climb hreversed (by simpa using hle)]
      congr 2
      omega
    · have habs : isAbs dir = true := hclimb.resolve_left hle
      have hnone : climbs (elements dir) = 0 := hrooted habs
      obtain ⟨more, hmore⟩ := Nat.exists_eq_add_of_lt (not_le.mp hle)
      have hgone : (names (elements dir)).reverse.drop (names (elements dir)).length = [] :=
        List.drop_of_length_le (by simp)
      rw [hmore, Nat.add_assoc, List.replicate_add, List.foldl_append,
        foldl_climb hreversed (by simp), hnone, habs]
      simp [hgone, foldl_climb_root]
  rw [elements_join hdir]
  nth_rewrite 1 [← climbs_append_names (elements dir)]
  nth_rewrite 1 [← climbs_append_names (elementsAs false name)]
  rw [List.foldl_append, List.reverse_append, List.reverse_replicate,
    hclimbed, foldl_pushElement_names _ (elementsAs_form false name).1]
  simp

theorem elements_join_of_not_canClimb (hdir : dir ≠ [])
    (hclimb : ¬ CanClimb dir (climbs (elementsAs false name))) :
    ∃ more, elements (join dir name) =
      List.replicate (climbs (elements dir)) dotdot ++
        dotdot :: (List.replicate more dotdot ++ names (elementsAs false name)) := by
  obtain ⟨hlt, hrel⟩ := not_or.mp hclimb
  rw [Bool.not_eq_true] at hrel
  obtain ⟨hown, -⟩ := elementsAs_form (isAbs dir) dir
  have hreversed : ∀ own ∈ (names (elements dir)).reverse, IsName own :=
    fun own hmem => hown own (List.mem_reverse.mp hmem)
  obtain ⟨more, hmore⟩ := Nat.exists_eq_add_of_lt (not_le.mp hlt)
  refine ⟨more, ?_⟩
  rw [elements_join hdir, hrel]
  nth_rewrite 1 [← climbs_append_names (elements dir)]
  nth_rewrite 1 [← climbs_append_names (elementsAs false name)]
  rw [List.foldl_append, List.reverse_append, List.reverse_replicate, hmore,
    Nat.add_assoc, List.replicate_add, List.foldl_append,
    foldl_climb hreversed (by simp), List.drop_of_length_le (by simp),
    List.nil_append, foldl_climb_replicate,
    foldl_pushElement_names _ (elementsAs_form false name).1]
  rw [List.reverse_append, List.reverse_replicate, List.reverse_reverse,
    List.replicate_add, List.replicate_succ, List.append_assoc]
  rfl

/-! ## Below a directory -/

def Within (dir path : GoString) : Prop :=
  isAbs path = isAbs dir ∧ ∃ below, dotdot ∉ below ∧ elements path = elements dir ++ below

def Below (dir path : GoString) : Prop :=
  isAbs path = isAbs dir ∧
    ∃ below, below ≠ [] ∧ dotdot ∉ below ∧ elements path = elements dir ++ below

/-- What a path must be for joining to lead below the directory: it climbs no
further than the directory goes, comes back through the names it left, and goes
on from there. -/
def Descends (dir name : GoString) : Prop :=
  (dir = [] → isAbs name = false) ∧ CanClimb dir (climbs (elementsAs false name)) ∧
    climbed dir (climbs (elementsAs false name)) <+: names (elementsAs false name) ∧
    climbed dir (climbs (elementsAs false name)) ≠ names (elementsAs false name)

theorem below_join_iff_of_ne_nil (hdir : dir ≠ [])
    : Below dir (join dir name) ↔ Descends dir name := by
  unfold Below Descends
  rw [isAbs_join hdir]
  by_cases hclimb : CanClimb dir (climbs (elementsAs false name))
  · have hsplit : above dir (climbs (elementsAs false name)) ++
        climbed dir (climbs (elementsAs false name)) = names (elements dir) :=
      List.take_append_drop _ _
    have hleads : ∀ below, elements (join dir name) = elements dir ++ below ↔
        names (elementsAs false name) = climbed dir (climbs (elementsAs false name)) ++ below := by
      intro below
      rw [elements_join_of_canClimb hdir hclimb]
      nth_rewrite 2 [← climbs_append_names (elements dir)]
      rw [← hsplit, List.append_assoc, List.append_assoc, List.append_assoc,
        List.append_cancel_left_eq, List.append_cancel_left_eq]
    constructor
    · rintro ⟨-, below, hne, -, helements⟩
      have hrest := (hleads below).mp helements
      refine ⟨fun h => absurd h hdir, hclimb, ⟨below, hrest.symm⟩, ?_⟩
      intro heq
      rw [← heq] at hrest
      exact hne (List.self_eq_append_right.mp hrest)
    · rintro ⟨-, -, ⟨below, hrest⟩, hne⟩
      refine ⟨rfl, below, ?_, ?_, (hleads below).mpr hrest.symm⟩
      · rintro rfl
        exact hne (by simpa using hrest)
      · intro hmem
        apply IsName.dotdot_not_mem (elementsAs_form false name).1
        rw [← hrest]
        exact List.mem_append_right _ hmem
  · constructor
    · rintro ⟨-, below, -, hbelow, helements⟩
      obtain ⟨more, hjoined⟩ := elements_join_of_not_canClimb hdir hclimb
      rw [hjoined] at helements
      nth_rewrite 2 [← climbs_append_names (elements dir)] at helements
      rw [List.append_assoc, List.append_cancel_left_eq] at helements
      have hmem : dotdot ∈ names (elements dir) ++ below := by
        rw [← helements]
        exact List.mem_cons_self
      rcases List.mem_append.mp hmem with hown | hin
      · exact absurd hown (IsName.dotdot_not_mem (elementsAs_form (isAbs dir) dir).1)
      · exact absurd hin hbelow
    · rintro ⟨-, hcan, -⟩
      exact absurd hcan hclimb

theorem below_join_iff : Below dir (join dir name) ↔ Descends dir name := by
  by_cases hdir : dir = []
  · subst hdir
    have hself : elements [] = [] := by decide
    have hrel : isAbs [] = false := by decide
    have hown : ∀ count, climbed [] count = [] := by
      unfold climbed
      rw [hself]
      simp [names]
    have hcan : ∀ count, CanClimb [] count ↔ count = 0 := by
      unfold CanClimb
      rw [hself, hrel]
      simp [names]
    unfold Below Descends
    rw [hown, hcan, hself, hrel]
    by_cases hname : name = []
    · subst hname
      constructor
      · rintro ⟨-, below, hne, -, helements⟩
        exact absurd helements.symm hne
      · rintro ⟨-, -, -, hne⟩
        exact absurd (by decide) hne
    · have hjoin : join [] name = clean name := by
        unfold join
        rw [if_pos rfl, if_neg hname]
      rw [hjoin, isAbs_clean, elements_clean]
      constructor
      · rintro ⟨habs, below, hne, hbelow, helements⟩
        unfold elements at helements
        rw [habs, List.nil_append] at helements
        obtain ⟨hclimbs, hnames⟩ := climbs_replicate_append hbelow
        rw [List.replicate_zero, List.nil_append] at hclimbs hnames
        rw [helements, hclimbs, hnames]
        exact ⟨fun _ => habs, rfl, List.nil_prefix, hne.symm⟩
      · rintro ⟨habs, hclimbs, -, hne⟩
        have helements := climbs_append_names (elementsAs false name)
        rw [hclimbs] at helements
        refine ⟨habs rfl, names (elementsAs false name), hne.symm,
          IsName.dotdot_not_mem (elementsAs_form false name).1, ?_⟩
        unfold elements
        rw [habs rfl]
        exact helements.symm
  · exact below_join_iff_of_ne_nil hdir

example : join (str "/srv/data") (str "../data/./a//b") = str "/srv/data/a/b" := by
  decide

theorem elements_join_of_climbs_eq_zero
    (hrel : isAbs name = false) (hclimbs : climbs (elements name) = 0) :
    isAbs (join dir name) = isAbs dir ∧
      elements (join dir name) = elements dir ++ elements name := by
  have hnames : names (elements name) = elements name := by
    have hform := climbs_append_names (elements name)
    rw [hclimbs] at hform
    exact hform
  by_cases hdir : dir = []
  · subst hdir
    unfold join
    rw [if_pos rfl]
    by_cases hname : name = []
    · subst hname
      exact ⟨rfl, rfl⟩
    · rw [if_neg hname, isAbs_clean, elements_clean, hrel]
      exact ⟨rfl, rfl⟩
  · have hself : elementsAs false name = elements name := by
      unfold elements
      rw [hrel]
    refine ⟨isAbs_join hdir, ?_⟩
    rw [elements_join_of_canClimb hdir (.inl (by rw [hself, hclimbs]; simp)),
      hself, hclimbs, hnames]
    unfold above
    rw [Nat.sub_zero, List.take_length, climbs_append_names]

/-! ## The directory of a path -/

theorem dirOf_append {base : GoString} (hlast : slash ∉ last)
    (hbase : base = [] ∨ ∃ front, base = front ++ [slash]) :
    dirOf (base ++ last) = clean base := by
  unfold dirOf
  rw [List.reverse_append, List.dropWhile_append_of_pos]
  · rcases hbase with rfl | ⟨front, rfl⟩
    · rfl
    · simp
  · intro b hb
    have hne : b ≠ slash := by
      rintro rfl
      exact hlast (List.mem_reverse.mp hb)
    simpa using hne

theorem elements_append_name {base : GoString} (hlast : IsName last)
    (hbase : base = [] ∨ ∃ front, base = front ++ [slash]) :
    isAbs (base ++ last) = isAbs base ∧ elements (base ++ last) = elements base ++ [last] := by
  have hsingle : last.splitOn slash = [last] := List.splitOn_eq_singleton hlast.noSlash
  rcases hbase with rfl | ⟨front, rfl⟩
  · have hrel := isAbs_of_noSlash hlast.noSlash
    refine ⟨hrel, ?_⟩
    unfold elements elementsAs pushPath
    rw [List.nil_append, hrel, hsingle]
    simp only [List.foldl_cons, List.foldl_nil]
    rw [pushElement_name _ hlast]
    rfl
  · have habs : isAbs (front ++ [slash] ++ last) = isAbs (front ++ [slash]) :=
      isAbs_append (by simp)
    refine ⟨habs, ?_⟩
    unfold elements elementsAs
    rw [habs, List.append_assoc, List.singleton_append, pushPath_append_cons, pushPath_append_cons]
    unfold pushPath
    rw [hsingle, List.splitOn_nil]
    simp only [List.foldl_cons, List.foldl_nil]
    rw [pushElement_name _ hlast, pushElement_skip (.inl rfl), List.reverse_cons]

theorem intercalate_append_singleton :
    ∃ base, [slash].intercalate (front ++ [last]) = base ++ last ∧
      (base = [] ∨ ∃ before, base = before ++ [slash]) := by
  induction front with
  | nil => exact ⟨[], by simp [List.intercalate], .inl rfl⟩
  | cons first front ih =>
    obtain ⟨base, htext, hbase⟩ := ih
    refine ⟨first ++ [slash] ++ base, ?_, .inr ?_⟩
    · cases hrest : front ++ [last] with
      | nil => simp at hrest
      | cons second rest =>
        rw [List.cons_append, hrest, List.intercalate_cons_cons, ← hrest, htext]
        simp
    · rcases hbase with rfl | ⟨before, rfl⟩
      · exact ⟨first, by simp⟩
      · exact ⟨first ++ [slash] ++ before, by simp⟩

theorem clean_eq_append {front : List GoString}
    (helements : elements path = front ++ [last]) :
    ∃ base, clean path = base ++ last ∧ (base = [] ∨ ∃ before, base = before ++ [slash]) := by
  obtain ⟨base, htext, hbase⟩ := intercalate_append_singleton
  unfold clean
  rw [helements, htext]
  by_cases habs : isAbs path = true
  · rw [if_pos habs]
    refine ⟨slash :: base, rfl, .inr ?_⟩
    rcases hbase with rfl | ⟨before, rfl⟩
    · exact ⟨[], rfl⟩
    · exact ⟨slash :: before, rfl⟩
  · rw [if_neg habs, if_neg (by simp)]
    exact ⟨base, rfl, hbase⟩

theorem within_dirOf (hbelow : Below dir (clean path)) : Within dir (dirOf (clean path)) := by
  obtain ⟨habs, below, hne, hclimb, helements⟩ := hbelow
  obtain ⟨front, last, rfl⟩ : ∃ front last, below = front ++ [last] :=
    ⟨below.dropLast, below.getLast hne, (List.dropLast_append_getLast hne).symm⟩
  rw [elements_clean, ← List.append_assoc] at helements
  have hlast : IsName last := by
    have hform := (elementsAs_form (isAbs path) path).1
    have hmem : last ∈ elements path := by rw [helements]; simp
    rw [← climbs_append_names (elements path), List.mem_append] at hmem
    rcases hmem with hup | hname
    · rw [List.eq_of_mem_replicate hup] at hclimb
      exact absurd (by simp) hclimb
    · exact hform last hname
  obtain ⟨base, htext, hbase⟩ := clean_eq_append helements
  obtain ⟨habsBase, hlastElement⟩ := elements_append_name hlast hbase
  rw [htext] at habs ⊢
  rw [dirOf_append hlast.noSlash hbase]
  refine ⟨?_, front, fun hmem => hclimb (List.mem_append_left _ hmem), ?_⟩
  · rw [isAbs_clean, ← habsBase]
    exact habs
  · rw [← elements_clean path, htext, hlastElement] at helements
    rw [elements_clean]
    exact (List.append_inj' helements rfl).1

theorem within_dirOf_join (hbelow : Below dir (join dir name)) :
    Within dir (dirOf (join dir name)) := by
  have hclean : ∃ path, join dir name = clean path := by
    unfold join at hbelow ⊢
    split_ifs at hbelow ⊢ with hdir hname
    · subst hdir
      obtain ⟨-, below, hne, -, helements⟩ := hbelow
      exact absurd (List.self_eq_append_right.mp helements) hne
    · exact ⟨name, rfl⟩
    · exact ⟨dir ++ slash :: name, rfl⟩
  obtain ⟨path, hpath⟩ := hclean
  rw [hpath] at hbelow ⊢
  exact within_dirOf hbelow

end Go.Filepath
