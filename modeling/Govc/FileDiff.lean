import Govc.GoStrings

/-!
# Diffs of file contents

`generateFileDiff` compares two contents line by line: a line that both have
at the same position is written once, and all others are marked with the side
they come from.  Reading the marked lines back gives both contents.
-/

namespace Govc

open Go

def diffLines : List GoString → List GoString → List GoString
  | old :: olds, new :: news =>
    if old ≠ new then (str "-" ++ old) :: (str "+" ++ new) :: diffLines olds news
    else (str " " ++ old) :: diffLines olds news
  | old :: olds, [] => (str "-" ++ old) :: diffLines olds []
  | [], new :: news => (str "+" ++ new) :: diffLines [] news
  | [], [] => []

def diffHeader (oldCount newCount : ℕ) : GoString :=
  str "@@ -1," ++ formatNat oldCount ++ str " +1," ++ formatNat newCount ++ str " @@"

def generateFileDiff (_path : GoString) (oldContent newContent : Bytes) : GoString :=
  if oldContent.length = 0 ∧ newContent.length = 0 then []
  else
    let oldLines := oldContent.splitOn newline
    let newLines := newContent.splitOn newline
    (diffHeader oldLines.length newLines.length :: diffLines oldLines newLines).flatMap
      fun line => line ++ [newline]

/-- The lines that start with one of the marks, without it. -/
def markedLines (marks : GoString) (lines : List GoString) : List GoString :=
  lines.filterMap fun
    | [] => none
    | mark :: line => if mark ∈ marks then some line else none

theorem markedLines_diffLines :
    markedLines (str " -") (diffLines olds news) = olds ∧
      markedLines (str " +") (diffLines olds news) = news := by
  have hminus (line : GoString) : str "-" ++ line = 45 :: line := rfl
  have hplus (line : GoString) : str "+" ++ line = 43 :: line := rfl
  have hblank (line : GoString) : str " " ++ line = 32 :: line := rfl
  have hold : str " -" = [32, 45] := rfl
  have hnew : str " +" = [32, 43] := rfl
  unfold markedLines
  fun_induction diffLines olds news <;> simp_all

theorem newline_not_mem_of_mem_diffLines
    (holds : ∀ line ∈ olds, newline ∉ line) (hnews : ∀ line ∈ news, newline ∉ line) :
    ∀ line ∈ diffLines olds news, newline ∉ line := by
  have hmarks : newline ∉ str "-" ∧ newline ∉ str "+" ∧ newline ∉ str " " := by decide
  fun_induction diffLines olds news <;> simp_all

theorem newline_not_mem_diffHeader : newline ∉ diffHeader oldCount newCount := by
  have hformat (n : ℕ) : newline ∉ formatNat n := fun hmem =>
    absurd (formatNat_isDigit hmem) (by decide)
  have htexts : newline ∉ str "@@ -1," ∧ newline ∉ str " +1," ∧ newline ∉ str " @@" := by
    decide
  simp [diffHeader, hformat, htexts]

theorem splitOn_lines (hlines : ∀ line ∈ lines, newline ∉ line) :
    (lines.flatMap fun line => line ++ [newline]).splitOn newline = lines ++ [[]] := by
  have hjoin : (lines.flatMap fun line => line ++ [newline]) =
      [newline].intercalate (lines ++ [[]]) := by
    induction lines with
    | nil => rfl
    | cons line lines ih =>
      have hrest := ih fun other hother => hlines other (List.mem_cons_of_mem line hother)
      rw [List.flatMap_cons, hrest]
      cases lines <;> simp [List.intercalate]
  rw [hjoin]
  refine List.splitOn_intercalate newline (fun line hline => ?_) (by simp)
  rcases List.mem_append.mp hline with hline | hline
  · exact hlines line hline
  · simp [List.mem_singleton.mp hline]

theorem generateFileDiff_invertible (path : GoString) (oldContent newContent : Bytes)
    (hsome : ¬ (oldContent = [] ∧ newContent = [])) :
    ∃ body, (generateFileDiff path oldContent newContent).splitOn newline =
        diffHeader (markedLines (str " -") body).length (markedLines (str " +") body).length ::
          body ∧
      [newline].intercalate (markedLines (str " -") body) = oldContent ∧
      [newline].intercalate (markedLines (str " +") body) = newContent := by
  have hlines := newline_not_mem_of_mem_diffLines
    (fun line (hline : line ∈ oldContent.splitOn newline) => not_mem_of_mem_splitOn hline)
    (fun line (hline : line ∈ newContent.splitOn newline) => not_mem_of_mem_splitOn hline)
  obtain ⟨hold, hnew⟩ := markedLines_diffLines
  have hended (marks : GoString) (lines : List GoString) :
      markedLines marks (lines ++ [[]]) = markedLines marks lines := by
    simp [markedLines]
  refine ⟨diffLines (oldContent.splitOn newline) (newContent.splitOn newline) ++ [[]], ?_⟩
  rw [hended, hended, hold, hnew]
  refine ⟨?_, List.intercalate_splitOn newline, List.intercalate_splitOn newline⟩
  rw [generateFileDiff, if_neg (by simpa [List.length_eq_zero_iff] using hsome), splitOn_lines]
  · rfl
  · intro line hline
    rcases List.mem_cons.mp hline with rfl | hline
    · exact newline_not_mem_diffHeader
    · exact hlines line hline

theorem generateFileDiff_invertible_one_line :
    ¬ (str "-a" = [] ∧ ([] : Bytes) = []) ∧
      ∃ body, (generateFileDiff (str "f") (str "-a") []).splitOn newline =
          diffHeader (markedLines (str " -") body).length (markedLines (str " +") body).length ::
            body ∧
        [newline].intercalate (markedLines (str " -") body) = str "-a" ∧
        [newline].intercalate (markedLines (str " +") body) = [] :=
  ⟨by decide, generateFileDiff_invertible (str "f") (str "-a") [] (by decide)⟩

end Govc
