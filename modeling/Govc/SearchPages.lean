import Govc.GoEffects

/-!
# Pages of search results

The four searches of a repository collect all results and then cut a page out
of them.  The limit and the offset come from the request; only the query
endpoints look at their signs.
-/

namespace Govc

open Go

/-- The end of `SearchCommits`, `SearchContent`, `SearchFiles` and `Grep`. -/
def searchPage {α : Type} (all : List α) (limit offset : ℤ) : Outcome (List α × ℤ) :=
  if offset ≥ all.length then .ok ([], all.length)
  else do
    let stop := intAdd offset limit
    let page ← slice all offset (if limit ≤ 0 ∨ stop > all.length then all.length else stop)
    return (page, all.length)

def queryNumber (accepts : ℤ → Bool) (default : ℤ) (text : GoString) : ℤ :=
  match parseInt text with
  | .ok n => if accepts n then n else default
  | .error _ => default

theorem queryNumber_rule {P : ℤ → Prop} {accepts : ℤ → Bool} {default : ℤ} (text : GoString)
    (haccepts : ∀ n, InInt64 n → accepts n = true → P n) (hdefault : P default) :
    P (queryNumber accepts default text) := by
  unfold queryNumber
  split
  · split_ifs with haccepted
    · exact haccepts _ (parseInt_inInt64 ‹_›) haccepted
    · exact hdefault
  · exact hdefault

/-- The numbers of a request.  Those of the query endpoints are texts, those
of `grep` come from a JSON body. -/
inductive PageRequest where
  | query (limit offset : GoString)
  | grep (limit offset : ℤ) (hlimit : InInt64 limit) (hoffset : InInt64 offset)

namespace PageRequest

def limit : PageRequest → ℤ
  | query limit _ => queryNumber (· > 0) 50 limit
  | grep limit _ _ _ => if limit = 0 then 50 else limit

def offset : PageRequest → ℤ
  | query _ offset => queryNumber (· ≥ 0) 0 offset
  | grep _ offset _ _ => offset

theorem limit_bounds (request : PageRequest) : InInt64 request.limit ∧ request.limit ≠ 0 := by
  cases request with
  | query limit offset =>
    refine queryNumber_rule (P := fun n => InInt64 n ∧ n ≠ 0) limit ?_ (by decide)
    exact fun n hn haccepted => ⟨hn, (of_decide_eq_true haccepted : n > 0).ne'⟩
  | grep limit offset hlimit hoffset =>
    simp only [PageRequest.limit]
    split_ifs with hzero
    · decide
    · exact ⟨hlimit, hzero⟩

theorem offset_bounds (request : PageRequest) : InInt64 request.offset := by
  cases request with
  | query limit offset => exact queryNumber_rule offset (fun _ hn _ => hn) inInt64_zero
  | grep limit offset hlimit hoffset => exact hoffset

/-- The elements at the positions from the offset up to offset plus limit. -/
def Exact {α : Type} (request : PageRequest) (all : List α) : Prop :=
  searchPage all request.limit request.offset =
    .ok (all.extract request.offset.toNat (request.offset + request.limit).toNat, all.length)

theorem exact_iff {α : Type} (request : PageRequest) (all : List α) (hall : all.length < 2 ^ 63) :
    request.Exact all ↔ all.length ≤ request.offset ∨
      0 ≤ request.offset ∧ 0 < request.limit ∧ request.offset + request.limit < 2 ^ 63 := by
  obtain ⟨⟨hlimitLow, hlimitHigh⟩, hzero⟩ := request.limit_bounds
  obtain ⟨hoffsetLow, hoffsetHigh⟩ := request.offset_bounds
  unfold Exact searchPage
  generalize request.limit = limit at *
  generalize request.offset = offset at *
  by_cases hpast : all.length ≤ offset
  · rw [if_pos hpast, List.extract, List.drop_eq_nil_of_le (by omega), List.take_nil]
    simp [hpast]
  · rw [if_neg hpast]
    constructor
    · intro hrun
      obtain ⟨page, hslice, hpage⟩ := Outcome.ok_of_bind hrun
      obtain rfl : page = all.extract offset.toNat (offset + limit).toNat :=
        congrArg Prod.fst (Outcome.ok.inj hpage)
      obtain ⟨hlow, hstop, -, hpart⟩ := slice_eq_ok hslice
      have hlength := congrArg List.length hpart
      have hwraps : ¬ offset + limit < 2 ^ 63 → intAdd offset limit < 0 := by
        intro hlarge
        rw [intAdd, Int.bmod_def]
        omega
      split_ifs at hstop hlength with hclamped
      · simp [List.extract] at hlength
        omega
      · omega
    · rintro (hle | ⟨hlow, hpos, hsum⟩)
      · exact absurd hle hpast
      · rw [intAdd_of_lt (by omega) hsum]
        have hpart : slice all offset (if limit ≤ 0 ∨ offset + limit > all.length then
            all.length else offset + limit) =
              .ok (all.extract offset.toNat (offset + limit).toNat) := by
          split_ifs with hclamped
          · rw [slice_of_le ⟨hlow, by omega, le_rfl⟩, List.extract, List.extract,
              List.take_of_length_le (by simp), List.take_of_length_le (by simp; omega)]
          · exact slice_of_le ⟨hlow, by omega, by omega⟩
        simp only [hpart]
        rfl

theorem exact_iff_first_page :
    ([7, 8, 9] : List ℕ).length < 2 ^ 63 ∧ (query (str "2") (str "1")).Exact [7, 8, 9] := by
  refine ⟨by decide, (exact_iff _ _ (by decide)).mpr (.inr ?_)⟩
  decide

theorem serve_wraps :
    let request := query (str "9223372036854775807") (str "1")
    searchPage [7, 8, 9] request.limit request.offset =
      .panic (str "runtime error: slice bounds out of range") := by
  decide

end PageRequest

end Govc
