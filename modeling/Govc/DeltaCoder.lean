import Govc.DeltaPacket
import Govc.GoEffects
import Govc.GoMaps

/-!
# The delta coders

`VCDIFFDelta` finds copies through a hash index of the base, `BinaryDelta` block
by block.  Every match has been compared byte by byte, so hash collisions do no
harm.  An `int` has 64 bits: the end of the hashed window overflows for a
minimum match size close to the largest `int`, and the slice then panics.
-/

namespace Govc

open Go DeltaPacket Outcome

/-- The sum of two `int`s that are not negative. -/
def addInt (a b : ℕ) : ℤ := if a + b < 2 ^ 63 then (a + b : ℕ) else (a + b : ℕ) - 2 ^ 64

structure DeltaMatch where
  baseStart : ℤ
  targetStart : ℕ
  length : ℕ

/-- A coder whose minimum match size is a positive `int`; the window size is
not used. -/
structure VCDIFFDelta where
  windowSize : ℤ
  minMatchSize : ℕ
  minMatchSize_pos : 1 ≤ minMatchSize
  minMatchSize_lt : minMatchSize < 2 ^ 63

def rollingHash (data : Bytes) : UInt32 :=
  data.zipIdx.foldl (fun hash (b, i) => hash * 31 + b.toUInt32 + UInt32.ofNat i) 0

def matchLength : Bytes → Bytes → ℕ
  | a :: as, b :: bs => if a = b then matchLength as bs + 1 else 0
  | _, _ => 0

namespace VCDIFFDelta

def createHashIndex (vd : VCDIFFDelta) (data : Bytes) : GoMap UInt32 (List ℕ) :=
  (List.range (data.length + 1 - vd.minMatchSize)).foldl
    (fun index i =>
      let hash := rollingHash ((data.drop i).take vd.minMatchSize)
      index.insert hash ((index.lookup hash).getD [] ++ [i])) ∅

/-- The loop over the candidates keeps the first of the longest. -/
def bestCandidate (base target : Bytes) (targetPos : ℕ) (candidates : List ℕ) : DeltaMatch :=
  candidates.foldl
    (fun best basePos =>
      let matchLen := matchLength (base.drop basePos) (target.drop targetPos)
      if matchLen > best.length then
        { best with baseStart := basePos, length := matchLen }
      else best)
    ⟨-1, targetPos, 0⟩

def findBestMatch (vd : VCDIFFDelta) (base target : Bytes) (targetPos : ℕ)
    (hashIndex : GoMap UInt32 (List ℕ)) : Outcome (Option DeltaMatch) :=
  let windowEnd := addInt targetPos vd.minMatchSize
  if windowEnd > target.length then .ok none
  else if windowEnd < targetPos then
    .panic (str "runtime error: slice bounds out of range [:" ++ formatInt windowEnd ++ str "]")
  else
    let window := (target.drop targetPos).take vd.minMatchSize
    match hashIndex.lookup (rollingHash window) with
    | none => .ok none
    | some candidates =>
      let bestMatch := bestCandidate base target targetPos candidates
      if bestMatch.length < vd.minMatchSize then .ok none
      else .ok (some bestMatch)

def literalEnd (vd : VCDIFFDelta) (base target : Bytes)
    (hashIndex : GoMap UInt32 (List ℕ)) : ℕ → ℕ → Outcome ℕ
  | 0, _ => .diverge
  | fuel + 1, targetPos =>
    if targetPos < target.length then do
      let nextMatch ← vd.findBestMatch base target targetPos hashIndex
      match nextMatch.filter (vd.minMatchSize ≤ ·.length) with
      | some _ => pure targetPos
      | none => literalEnd vd base target hashIndex fuel (targetPos + 1)
    else pure targetPos

def literal (target : Bytes) (first last : ℕ) : DeltaInstruction :=
  let data := (target.drop first).take (last - first)
  .add data.length data

def createInstructions (vd : VCDIFFDelta) (base target : Bytes)
    (hashIndex : GoMap UInt32 (List ℕ)) :
    ℕ → ℕ → Outcome (List DeltaInstruction)
  | 0, _ => .diverge
  | fuel + 1, targetPos =>
    if targetPos < target.length then do
      let found ← vd.findBestMatch base target targetPos hashIndex
      match found.filter (vd.minMatchSize ≤ ·.length) with
      | some best => do
        let before :=
          if best.targetStart > targetPos then
            [literal target targetPos best.targetStart]
          else []
        let instructions ← createInstructions vd base target hashIndex fuel
          (best.targetStart + best.length)
        pure (before ++ .copy best.baseStart.toNat best.length :: instructions)
      | none => do
        let last ← vd.literalEnd base target hashIndex
          (target.length + 1) (targetPos + 1)
        let instructions ← createInstructions vd base target hashIndex fuel
          last
        pure (literal target targetPos last :: instructions)
    else pure []

def createDelta (vd : VCDIFFDelta) (base target : Bytes) : Outcome Bytes :=
  if base.length = 0 then
    pure (full target.length target).serialize
  else if base = target then pure identical.serialize
  else do
    let instructions ← vd.createInstructions base target
      (vd.createHashIndex base) (target.length + 1) 0
    pure (DeltaPacket.delta base.length target.length instructions).serialize

end VCDIFFDelta

structure BinaryDelta where
  blockSize : ℕ
  blockSize_pos : 1 ≤ blockSize

namespace BinaryDelta

def findBlockMatch (base targetBlock : Bytes) : Option ℕ :=
  (List.range (base.length + 1 - targetBlock.length)).find? fun i =>
    (base.drop i).take targetBlock.length = targetBlock

def createInstructions (bd : BinaryDelta) (base target : Bytes) :
    ℕ → ℕ → Outcome (List DeltaInstruction)
  | 0, _ => .diverge
  | fuel + 1, targetPos =>
    if targetPos < target.length then do
      let blockEnd := min (targetPos + bd.blockSize) target.length
      let targetBlock := (target.drop targetPos).take (blockEnd - targetPos)
      let instructions ← createInstructions bd base target fuel blockEnd
      match findBlockMatch base targetBlock with
      | some basePos =>
        pure (.copy basePos targetBlock.length :: instructions)
      | none =>
        pure (.add targetBlock.length targetBlock :: instructions)
    else pure []

def createDelta (bd : BinaryDelta) (base target : Bytes) : Outcome Bytes :=
  if base = target then pure identical.serialize
  else do
    let instructions ← bd.createInstructions base target (target.length + 1) 0
    pure (DeltaPacket.delta base.length target.length instructions).serialize

end BinaryDelta

/-! ## Instructions for the rest of the target -/

/-- The instructions rebuild the target from a position on, at least one byte
each, with numbers that fit into the packet format. -/
structure Encodes (base target : Bytes) (targetPos : ℕ)
    (instructions : List DeltaInstruction) : Prop where
  rebuilds : Rebuilds base instructions (target.drop targetPos)
  wellFormed : ∀ instruction ∈ instructions, instruction.WellFormed
  count : instructions.length ≤ target.length - targetPos

namespace Encodes

variable {base target : Bytes} {instructions : List DeltaInstruction}

theorem nil {targetPos : ℕ} (hend : target.length ≤ targetPos) :
    Encodes base target targetPos [] where
  rebuilds := by
    rw [List.drop_eq_nil_of_le hend]
    exact rebuilds_nil
  wellFormed := by simp
  count := Nat.zero_le _

theorem cons (hfirst : first < last) (hlast : last ≤ target.length)
    (happly : applyInstruction base instruction = .ok ((target.drop first).take (last - first)))
    (hwell : instruction.WellFormed)
    (hrest : Encodes base target last instructions) :
    Encodes base target first (instruction :: instructions) where
  rebuilds := by
    have hsplit : target.drop first =
        (target.drop first).take (last - first) ++ target.drop last := by
      have hdrop : (target.drop first).drop (last - first) = target.drop last := by
        rw [List.drop_drop]
        congr 1
        omega
      rw [← hdrop, List.take_append_drop]
    rw [hsplit]
    exact Rebuilds.cons happly hrest.rebuilds
  wellFormed := by
    intro other hother
    rcases List.mem_cons.mp hother with rfl | hmem
    · exact hwell
    · exact hrest.wellFormed other hmem
  count := by
    have hcount := hrest.count
    rw [List.length_cons]
    omega

theorem copy {first offset length : ℕ} (hbase : base.length < 2 ^ 32)
    (hpos : 1 ≤ length) (hoffset : offset + length ≤ base.length)
    (hlast : first + length ≤ target.length)
    (hsame : (base.drop offset).take length = (target.drop first).take length)
    (hrest : Encodes base target (first + length) instructions) :
    Encodes base target first (.copy offset length :: instructions) := by
  have hwell : (DeltaInstruction.copy offset length).WellFormed := ⟨by omega, by omega⟩
  apply cons (by omega) hlast _ hwell hrest
  rw [applyInstruction_copy hoffset, hsame, Nat.add_sub_cancel_left]

theorem add {first last : ℕ} (htarget : target.length < 2 ^ 32)
    (hfirst : first < last) (hlast : last ≤ target.length)
    (hrest : Encodes base target last instructions) :
    Encodes base target first
      (VCDIFFDelta.literal target first last :: instructions) := by
  apply cons hfirst hlast rfl _ hrest
  refine ⟨rfl, ?_⟩
  rw [List.length_take, List.length_drop]
  omega

theorem applyDelta (hencodes : Encodes base target 0 instructions)
    (hbase : base.length < 2 ^ 32) (htarget : target.length < 2 ^ 32) :
    applyDelta base (DeltaPacket.delta base.length target.length
      instructions).serialize = .ok target := by
  have hcount := hencodes.count
  exact applyDelta_of_rebuilds ⟨hbase, htarget, by omega, hencodes.wellFormed⟩ hencodes.rebuilds

end Encodes

/-! ## The match search -/

theorem matchLength_spec {as : Bytes} (bs : Bytes) :
    matchLength as bs ≤ as.length ∧ matchLength as bs ≤ bs.length ∧
      as.take (matchLength as bs) = bs.take (matchLength as bs) := by
  induction as generalizing bs with
  | nil => simp [matchLength]
  | cons a as ih =>
    cases bs with
    | nil => simp [matchLength]
    | cons b bs =>
      rw [matchLength]
      by_cases hsame : a = b
      · obtain ⟨hleft, hright, htake⟩ := ih bs
        rw [if_pos hsame, List.take_succ_cons, List.take_succ_cons, htake,
          hsame, List.length_cons, List.length_cons]
        exact ⟨by omega, by omega, rfl⟩
      · rw [if_neg hsame]
        simp

namespace VCDIFFDelta

variable {vd : VCDIFFDelta} {base target : Bytes} {targetPos : ℕ}
  {hashIndex : GoMap UInt32 (List ℕ)}

theorem bestCandidate_spec {base target : Bytes} :
    (bestCandidate base target targetPos candidates).targetStart = targetPos ∧
      ((bestCandidate base target targetPos candidates).length = 0 ∨
        ∃ basePos : ℕ, (bestCandidate base target targetPos candidates).baseStart = basePos ∧
          (bestCandidate base target targetPos candidates).length =
            matchLength (base.drop basePos) (target.drop targetPos)) := by
  -- The fold keeps both facts of the match it starts from.
  have hfold : ∀ (best : DeltaMatch), best.targetStart = targetPos →
      (best.length = 0 ∨ ∃ basePos : ℕ, best.baseStart = basePos ∧
        best.length = matchLength (base.drop basePos) (target.drop targetPos)) →
      ∀ last, last = candidates.foldl
        (fun best basePos =>
          let matchLen :=
            matchLength (base.drop basePos) (target.drop targetPos)
          if matchLen > best.length then
            { best with baseStart := basePos, length := matchLen }
          else best) best →
        last.targetStart = targetPos ∧
          (last.length = 0 ∨ ∃ basePos : ℕ, last.baseStart = basePos ∧
            last.length = matchLength (base.drop basePos) (target.drop targetPos)) := by
    induction candidates with
    | nil =>
      rintro best hstart hlength last rfl
      exact ⟨hstart, hlength⟩
    | cons basePos candidates ih =>
      intro best hstart hlength last hlast
      rw [List.foldl_cons] at hlast
      dsimp only at hlast
      split_ifs at hlast with hlonger
      · refine ih { best with baseStart := basePos, length := _ } hstart ?_
          last hlast
        exact .inr ⟨basePos, rfl, rfl⟩
      · exact ih best hstart hlength last hlast
  exact hfold ⟨-1, targetPos, 0⟩ rfl (.inl rfl) _ rfl

theorem findBestMatch_found {best : DeltaMatch}
    (hfound : vd.findBestMatch base target targetPos hashIndex = .ok (some best)) :
    best.targetStart = targetPos ∧ vd.minMatchSize ≤ best.length ∧
      ∃ basePos : ℕ, best.baseStart = basePos ∧
        best.length =
          matchLength (base.drop basePos) (target.drop targetPos) := by
  rw [findBestMatch] at hfound
  split_ifs at hfound
  · cases hfound
  cases hlookup : hashIndex.lookup (rollingHash ((target.drop targetPos).take vd.minMatchSize)) with
  | none => simp [hlookup] at hfound
  | some candidates =>
    simp only [hlookup] at hfound
    split_ifs at hfound with hshort
    · cases hfound
    simp only [ok.injEq, Option.some.injEq] at hfound
    obtain ⟨hstart, hlength⟩ := bestCandidate_spec
    rw [hfound] at hstart hlength hshort
    have hpos := vd.minMatchSize_pos
    refine ⟨hstart, not_lt.mp hshort, ?_⟩
    rcases hlength with hzero | hmatch
    · omega
    · exact hmatch

theorem findBestMatch_ok (hroom : targetPos + vd.minMatchSize < 2 ^ 63) :
    ∃ found, vd.findBestMatch base target targetPos hashIndex = .ok found := by
  have hsum : addInt targetPos vd.minMatchSize = ((targetPos + vd.minMatchSize : ℕ) : ℤ) := by
    rw [addInt, if_pos hroom]
  rw [findBestMatch]
  dsimp only
  split_ifs with hlong hneg
  · exact ⟨none, rfl⟩
  · omega
  · split
    · exact ⟨none, rfl⟩
    · split_ifs
      · exact ⟨none, rfl⟩
      · exact ⟨_, rfl⟩

theorem literalEnd_ok (hroom : target.length + vd.minMatchSize ≤ 2 ^ 63)
    {fuel : ℕ} (hfuel : target.length - targetPos < fuel)
    (hpos : targetPos ≤ target.length) :
    ∃ last, vd.literalEnd base target hashIndex fuel targetPos = .ok last ∧
      targetPos ≤ last ∧ last ≤ target.length := by
  induction fuel generalizing targetPos with
  | zero => omega
  | succ fuel ih =>
    rw [literalEnd]
    split
    · obtain ⟨found, hfound⟩ : ∃ found,
          vd.findBestMatch base target targetPos hashIndex = .ok found :=
        findBestMatch_ok (by omega)
      rw [hfound, ok_bind]
      cases found.filter (vd.minMatchSize ≤ ·.length) with
      | some best => exact ⟨targetPos, rfl, le_refl _, hpos⟩
      | none =>
        obtain ⟨last, hlast, hfirst, hend⟩ := @ih (targetPos + 1) (by omega) (by omega)
        exact ⟨last, hlast, by omega, hend⟩
    · exact ⟨targetPos, rfl, le_refl _, hpos⟩

theorem createInstructions_encodes (hbase : base.length < 2 ^ 32) (htarget : target.length < 2 ^ 32)
    (hroom : target.length + vd.minMatchSize ≤ 2 ^ 63) {fuel : ℕ}
    (hfuel : target.length - targetPos < fuel) :
    ∃ instructions, vd.createInstructions base target hashIndex fuel targetPos = .ok instructions ∧
      Encodes base target targetPos instructions := by
  induction fuel generalizing targetPos with
  | zero => omega
  | succ fuel ih =>
    rw [createInstructions]
    split_ifs with hlt
    · obtain ⟨found, hfound⟩ : ∃ found,
          vd.findBestMatch base target targetPos hashIndex = .ok found :=
        findBestMatch_ok (by omega)
      rw [hfound, ok_bind]
      cases hbest : found.filter (vd.minMatchSize ≤ ·.length) with
      | some best =>
        have hsome := Option.eq_some_of_filter_eq_some hbest
        rw [hsome] at hfound
        obtain ⟨rfl, hlong, basePos, hstart, hlength⟩ := findBestMatch_found hfound
        obtain ⟨hleft, hright, hsame⟩ := matchLength_spec (target.drop best.targetStart)
        rw [← hlength] at hleft hright hsame
        rw [List.length_drop] at hleft hright
        have hpos := vd.minMatchSize_pos
        obtain ⟨instructions, hinstructions, hencodes⟩ :=
          @ih (best.targetStart + best.length) (by omega)
        dsimp only
        rw [hinstructions, if_neg (lt_irrefl _), hstart]
        exact ⟨_, rfl, hencodes.copy hbase (by omega) (by omega) (by omega) hsame⟩
      | none =>
        obtain ⟨last, hlast, hfirst, hend⟩ :=
          @literalEnd_ok vd base target (targetPos + 1) hashIndex hroom
            (target.length + 1) (by omega) (by omega)
        obtain ⟨instructions, hinstructions, hencodes⟩ := @ih last (by omega)
        rw [hlast, ok_bind, hinstructions]
        exact ⟨_, rfl, hencodes.add htarget (by omega) hend⟩
    · exact ⟨[], rfl, .nil (not_lt.mp hlt)⟩

/-! ## The window that overflows -/

theorem findBestMatch_none (hlong : target.length < vd.minMatchSize)
    (hroom : targetPos + vd.minMatchSize < 2 ^ 63) :
    vd.findBestMatch base target targetPos hashIndex = .ok none := by
  have hsum : addInt targetPos vd.minMatchSize = ((targetPos + vd.minMatchSize : ℕ) : ℤ) := by
    rw [addInt, if_pos hroom]
  rw [findBestMatch]
  rw [hsum, if_pos (by omega)]

theorem findBestMatch_panic (htarget : targetPos < 2 ^ 32)
    (hover : 2 ^ 63 ≤ targetPos + vd.minMatchSize) :
    ∃ text, vd.findBestMatch base target targetPos hashIndex = .panic text := by
  have hlt := vd.minMatchSize_lt
  have hsum : addInt targetPos vd.minMatchSize =
      ((targetPos + vd.minMatchSize : ℕ) : ℤ) - 2 ^ 64 := by
    rw [addInt, if_neg (by omega)]
  rw [findBestMatch]
  rw [hsum, if_neg (by omega), if_pos (by omega)]
  exact ⟨_, rfl⟩

theorem literalEnd_panic (htarget : target.length < 2 ^ 32)
    (hover : 2 ^ 63 < target.length + vd.minMatchSize) {fuel : ℕ}
    (hfuel : target.length - targetPos < fuel)
    (hpos : targetPos < target.length) :
    ∃ text, vd.literalEnd base target hashIndex fuel targetPos = .panic text := by
  induction fuel generalizing targetPos with
  | zero => omega
  | succ fuel ih =>
    rw [literalEnd, if_pos hpos]
    by_cases hroom : targetPos + vd.minMatchSize < 2 ^ 63
    · rw [findBestMatch_none (by omega) hroom, ok_bind]
      exact @ih (targetPos + 1) (by omega) (by omega)
    · obtain ⟨text, htext⟩ : ∃ text,
          vd.findBestMatch base target targetPos hashIndex = .panic text :=
        findBestMatch_panic (by omega) (by omega)
      rw [htext, panic_bind]
      exact ⟨text, rfl⟩

theorem createDelta_panic (hne : base ≠ []) (hdiffer : base ≠ target)
    (htarget : target.length < 2 ^ 32)
    (hover : 2 ^ 63 < target.length + vd.minMatchSize) :
    ∃ text, vd.createDelta base target = .panic text := by
  have hlt := vd.minMatchSize_lt
  have hlength : base.length ≠ 0 := fun hzero =>
    hne (List.length_eq_zero_iff.mp hzero)
  obtain ⟨text, htext⟩ :=
    @literalEnd_panic vd base target 1 (vd.createHashIndex base) htarget hover
      (target.length + 1) (by omega) (by omega)
  refine ⟨text, ?_⟩
  rw [createDelta, if_neg hlength, if_neg hdiffer, createInstructions,
    if_pos (by omega), findBestMatch_none (by omega) (by omega),
    ok_bind]
  change ((vd.literalEnd base target (vd.createHashIndex base)
    (target.length + 1) 1 >>= _) >>= _) = _
  rw [htext, panic_bind, panic_bind]

def RoundTrips (vd : VCDIFFDelta) (base target : Bytes) : Prop :=
  ∃ deltaData, vd.createDelta base target = .ok deltaData ∧ applyDelta base deltaData = .ok target

end VCDIFFDelta

theorem applyDelta_full {base : Bytes} {target : Bytes}
    (htarget : target.length < 2 ^ 32) :
    applyDelta base (full target.length target).serialize = .ok target := by
  have hwell : (full target.length target).WellFormed := ⟨rfl, htarget⟩
  simp only [applyDelta, parseDeltaPacket_serialize hwell]

theorem applyDelta_identical {base : Bytes} : applyDelta base identical.serialize = .ok base := by
  have hwell : identical.WellFormed := trivial
  simp only [applyDelta, parseDeltaPacket_serialize hwell]

theorem VCDIFFDelta.roundTrips_of_room {vd : VCDIFFDelta}
    {base target : Bytes} (hbase : base.length < 2 ^ 32)
    (htarget : target.length < 2 ^ 32) (hroom : base = [] ∨ base = target ∨
      target.length + vd.minMatchSize ≤ 2 ^ 63) :
    vd.RoundTrips base target := by
  rw [RoundTrips, createDelta]
  by_cases hempty : base.length = 0
  · rw [if_pos hempty]
    exact ⟨_, rfl, applyDelta_full htarget⟩
  · split_ifs with hsame
    · rw [← hsame]
      exact ⟨_, rfl, applyDelta_identical⟩
    · have hfits : target.length + vd.minMatchSize ≤ 2 ^ 63 := by
        rcases hroom with rfl | heq | hfits
        · exact absurd rfl hempty
        · exact absurd heq hsame
        · exact hfits
      obtain ⟨instructions, hinstructions, hencodes⟩ :=
        @createInstructions_encodes vd base target 0 (vd.createHashIndex base)
          hbase htarget hfits (target.length + 1) (by omega)
      rw [hinstructions, ok_bind]
      exact ⟨_, rfl, hencodes.applyDelta hbase htarget⟩

namespace BinaryDelta

variable {bd : BinaryDelta} {base target : Bytes}

theorem findBlockMatch_found {targetBlock : Bytes} {basePos : ℕ}
    (hfound : findBlockMatch base targetBlock = some basePos) :
    basePos + targetBlock.length ≤ base.length ∧
      (base.drop basePos).take targetBlock.length = targetBlock := by
  have hmem := List.mem_of_find?_eq_some hfound
  have hsame := List.find?_some hfound
  rw [List.mem_range] at hmem
  exact ⟨by omega, of_decide_eq_true hsame⟩

theorem createInstructions_encodes (hbase : base.length < 2 ^ 32)
    (htarget : target.length < 2 ^ 32) {fuel targetPos : ℕ}
    (hfuel : target.length - targetPos < fuel) :
    ∃ instructions, bd.createInstructions base target fuel targetPos = .ok instructions ∧
      Encodes base target targetPos instructions := by
  induction fuel generalizing targetPos with
  | zero => omega
  | succ fuel ih =>
    rw [createInstructions]
    by_cases hlt : targetPos < target.length
    · have hblock := bd.blockSize_pos
      have hfirst : targetPos < min (targetPos + bd.blockSize) target.length := by omega
      have hlast : min (targetPos + bd.blockSize) target.length ≤ target.length := min_le_right _ _
      rw [if_pos hlt]
      generalize min (targetPos + bd.blockSize) target.length = blockEnd at hfirst hlast ⊢
      obtain ⟨instructions, hinstructions, hencodes⟩ := @ih blockEnd (by omega)
      have hlength : ((target.drop targetPos).take
          (blockEnd - targetPos)).length = blockEnd - targetPos := by
        rw [List.length_take, List.length_drop]
        omega
      dsimp only
      rw [hinstructions, ok_bind]
      cases hfound : findBlockMatch base ((target.drop targetPos).take (blockEnd - targetPos)) with
      | none =>
        exact ⟨_, rfl, hencodes.add htarget hfirst hlast⟩
      | some basePos =>
        obtain ⟨hinside, hsame⟩ := findBlockMatch_found hfound
        rw [hlength] at hinside hsame
        have hend : targetPos + (blockEnd - targetPos) = blockEnd := by
          omega
        rw [← hend] at hencodes
        rw [hlength]
        exact ⟨_, rfl, hencodes.copy hbase (by omega) hinside (by omega) hsame⟩
    · rw [if_neg hlt]
      exact ⟨[], rfl, .nil (not_lt.mp hlt)⟩

def RoundTrips (bd : BinaryDelta) (base target : Bytes) : Prop :=
  ∃ deltaData, bd.createDelta base target = .ok deltaData ∧ applyDelta base deltaData = .ok target

theorem roundTrips (hbase : base.length < 2 ^ 32)
    (htarget : target.length < 2 ^ 32) : bd.RoundTrips base target := by
  rw [RoundTrips, createDelta]
  split_ifs with hsame
  · rw [← hsame]
    exact ⟨_, rfl, applyDelta_identical⟩
  · obtain ⟨instructions, hinstructions, hencodes⟩ :=
      @createInstructions_encodes bd base target hbase htarget (target.length + 1) 0 (by omega)
    rw [hinstructions, ok_bind]
    exact ⟨_, rfl, hencodes.applyDelta hbase htarget⟩

end BinaryDelta

/-- The VCDIFF coder gives back every target unless the end of its window
overflows, and the binary coder gives back every target. -/
theorem delta_roundTrips_iff (vd : VCDIFFDelta) (bd : BinaryDelta)
    {base target : Bytes} (hbase : base.length < 2 ^ 32)
    (htarget : target.length < 2 ^ 32) :
    (vd.RoundTrips base target ↔
      base = [] ∨ base = target ∨ target.length + vd.minMatchSize ≤ 2 ^ 63) ∧
    bd.RoundTrips base target := by
  refine ⟨⟨?_, VCDIFFDelta.roundTrips_of_room hbase htarget⟩, BinaryDelta.roundTrips hbase htarget⟩
  rintro ⟨deltaData, hcreate, -⟩
  by_contra hcon
  push Not at hcon
  obtain ⟨hne, hdiffer, hover⟩ := hcon
  obtain ⟨text, htext⟩ := VCDIFFDelta.createDelta_panic hne hdiffer htarget hover
  rw [hcreate] at htext
  cases htext

def storeCoder : VCDIFFDelta where
  windowSize := 1024
  minMatchSize := 4
  minMatchSize_pos := by decide
  minMatchSize_lt := by decide

theorem delta_roundTrips_abab :
    (VCDIFFDelta.RoundTrips storeCoder (str "abcdabcd") (str "xabcdabcdabcd") ↔
      str "abcdabcd" = [] ∨ str "abcdabcd" = str "xabcdabcdabcd" ∨
        (str "xabcdabcdabcd").length + storeCoder.minMatchSize ≤ 2 ^ 63) ∧
    BinaryDelta.RoundTrips ⟨2, by decide⟩ (str "abcdabcd") (str "xabcdabcdabcd") :=
  delta_roundTrips_iff storeCoder ⟨2, by decide⟩ (by decide) (by decide)

def widestCoder : VCDIFFDelta where
  windowSize := 0
  minMatchSize := 2 ^ 63 - 1
  minMatchSize_pos := by decide
  minMatchSize_lt := by decide

theorem createDelta_overflows :
    widestCoder.createDelta (str "a") (str "bc") =
      .panic (str ("runtime error: slice bounds out of range " ++ "[:-9223372036854775808]")) := by
  decide +kernel

end Govc
