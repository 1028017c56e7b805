import Mathlib.Tactic

/-!
# Byte strings and the text routines of the Go standard library

A Go string is a finite sequence of bytes, so strings and byte slices share
one representation here.  The functions below are the ones of `strings`,
`strconv` and `encoding/hex`, under their Go names; each is followed by the
few laws that a codec built from them relies on.
-/

namespace Go

abbrev Bytes := List UInt8

abbrev GoString := List UInt8

instance lawfulBEqGoString : LawfulBEq GoString :=
  inferInstance

def str (literal : String) : GoString := literal.toUTF8.data.toList

def space : UInt8 := 32

def newline : UInt8 := 10

def hasPrefix (s pre : GoString) : Bool := pre.isPrefixOf s

def trimPrefix (s pre : GoString) : GoString := if hasPrefix s pre then s.drop pre.length else s

def hasSuffix (s suf : GoString) : Bool := suf.isSuffixOf s

def trimSuffix (s suf : GoString) : GoString :=
  if hasSuffix s suf then s.take (s.length - suf.length) else s

/-- `strings.FieldsFunc`, for separators that are decided byte by byte. -/
def fieldsFunc (isSeparator : UInt8 → Bool) (s : GoString) : List GoString :=
  (s.splitOnP isSeparator).filter (· ≠ [])

/-- `strings.Contains`. -/
def contains (s sub : GoString) : Bool := s.tails.any fun tail => hasPrefix tail sub

/-- `strings.SplitN(s, sep, 2)` for a one-byte separator: `none` when the
separator does not occur, that is when Go returns a single part. -/
def splitN2 (sep : UInt8) : GoString → Option (GoString × GoString)
  | [] => none
  | b :: rest =>
    if b = sep then some ([], rest)
    else (splitN2 sep rest).map fun parts => (b :: parts.1, parts.2)

/-- `strings.Index` of a one-byte string. -/
def indexByte (s : GoString) (b : UInt8) : Option ℕ := s.findIdx? (· == b)

def join (parts : List GoString) (sep : GoString) : GoString := sep.intercalate parts

@[simp] theorem hasPrefix_append : hasPrefix (pre ++ rest) pre = true := by
  simp [hasPrefix]

@[simp] theorem trimPrefix_append (pre rest : GoString) : trimPrefix (pre ++ rest) pre = rest := by
  simp [trimPrefix]

theorem hasPrefix_iff : hasPrefix s pre = true ↔ pre <+: s :=
  List.isPrefixOf_iff_prefix

variable {b : UInt8}

theorem hasPrefix_cons_of_ne (hne : c ≠ b) : hasPrefix (b :: s) (c :: pre) = false := by
  simp [hasPrefix, List.isPrefixOf, hne]

variable {sep : UInt8} {before : GoString}

theorem splitN2_append (hsep : sep ∉ before) (after : GoString) :
    splitN2 sep (before ++ sep :: after) = some (before, after) := by
  induction before with
  | nil => simp [splitN2]
  | cons b before ih =>
    have hb : b ≠ sep := by
      intro heq
      exact hsep (by simp [heq])
    have hrest : sep ∉ before := by
      intro hmem
      exact hsep (List.mem_cons_of_mem b hmem)
    simp [splitN2, hb, ih hrest]

variable {s : GoString}

theorem splitN2_eq_some (hsplit : splitN2 sep s = some (before, after)) :
    s = before ++ sep :: after ∧ sep ∉ before := by
  induction s generalizing before with
  | nil => simp [splitN2] at hsplit
  | cons b rest ih =>
    by_cases hb : b = sep
    · subst hb
      simp only [splitN2, if_true, Option.some.injEq, Prod.mk.injEq] at hsplit
      rcases hsplit with ⟨rfl, rfl⟩
      simp
    · simp only [splitN2, if_neg hb, Option.map_eq_some_iff] at hsplit
      rcases hsplit with ⟨⟨first, second⟩, hparts, hpair⟩
      rcases hpair with ⟨rfl, rfl⟩
      have hrest := ih hparts
      constructor
      · rw [hrest.1]
        simp
      · simp [hrest.2, Ne.symm hb]

theorem indexByte_append (hb : b ∉ before) (after : GoString) :
    indexByte (before ++ b :: after) b = some before.length := by
  induction before with
  | nil => simp [indexByte, List.findIdx?_cons]
  | cons c before ih =>
    have hc : c ≠ b := by
      intro heq
      exact hb (by simp [heq])
    have hrest : b ∉ before := by
      intro hmem
      exact hb (List.mem_cons_of_mem c hmem)
    have hindex := ih hrest
    unfold indexByte at hindex ⊢
    simp [List.findIdx?_cons, hc, hindex]

theorem not_mem_take_of_indexByte (hindex : indexByte s b = some i) : b ∉ s.take i := by
  intro hmem
  obtain ⟨j, hj, hget⟩ := List.mem_take_iff_getElem.mp hmem
  have hbefore := (List.findIdx?_eq_some_iff_getElem.mp hindex).2.2 j (by omega)
  simp [hget] at hbefore

theorem not_mem_of_mem_splitOn (hpart : part ∈ s.splitOn sep) : sep ∉ part := by
  induction s generalizing part with
  | nil =>
    rw [List.splitOn_nil, List.mem_singleton] at hpart
    simp [hpart]
  | cons b s ih =>
    rw [List.splitOn_cons_eq_if_modifyHead] at hpart
    by_cases hb : b = sep
    · rw [if_pos (by simpa using hb), List.mem_cons] at hpart
      rcases hpart with rfl | hpart
      · simp
      · exact ih hpart
    · rw [if_neg (by simpa using hb)] at hpart
      cases hparts : s.splitOn sep with
      | nil => exact absurd hparts (List.splitOn_ne_nil sep s)
      | cons first rest =>
        rw [hparts, List.modifyHead_cons, List.mem_cons] at hpart
        rw [hparts] at ih
        rcases hpart with rfl | hpart
        · simp [Ne.symm hb, ih List.mem_cons_self]
        · exact ih (List.mem_cons_of_mem first hpart)

/-! ## White space -/

/-- The UTF-8 encodings of the code points that `unicode.IsSpace` accepts. -/
def spaceEncodings : List Bytes :=
  [[9], [10], [11], [12], [13], [32], [0xC2, 0x85], [0xC2, 0xA0],
    [0xE1, 0x9A, 0x80], [0xE2, 0x80, 0x80], [0xE2, 0x80, 0x81],
    [0xE2, 0x80, 0x82], [0xE2, 0x80, 0x83], [0xE2, 0x80, 0x84],
    [0xE2, 0x80, 0x85], [0xE2, 0x80, 0x86], [0xE2, 0x80, 0x87],
    [0xE2, 0x80, 0x88], [0xE2, 0x80, 0x89], [0xE2, 0x80, 0x8A],
    [0xE2, 0x80, 0xA8], [0xE2, 0x80, 0xA9], [0xE2, 0x80, 0xAF],
    [0xE2, 0x81, 0x9F], [0xE3, 0x80, 0x80]]

/-- The number of bytes of the space that `s` starts with, zero if it starts
with none. -/
def widthOf (encodings : List Bytes) (s : GoString) : ℕ :=
  match encodings.find? fun encoding => hasPrefix s encoding with
  | some encoding => encoding.length
  | none => 0

def trimLeftWith (encodings : List Bytes) : ℕ → GoString → GoString
  | 0, s => s
  | fuel + 1, s =>
    if widthOf encodings s = 0 then s
    else trimLeftWith encodings fuel (s.drop (widthOf encodings s))

def trimSpace (s : GoString) : GoString :=
  let left := trimLeftWith spaceEncodings s.length s
  (trimLeftWith (spaceEncodings.map List.reverse) left.length left.reverse).reverse

theorem widthOf_le_length (encodings : List Bytes) (s : GoString) :
    widthOf encodings s ≤ s.length := by
  unfold widthOf
  split
  · rename_i encoding hfind
    have hstarts := List.find?_some hfind
    rw [hasPrefix_iff] at hstarts
    exact hstarts.length_le
  · exact Nat.zero_le _

def asciiSpaces : List UInt8 := [9, 10, 11, 12, 13, 32]

theorem widthOf_append_ascii (hb : b ∈ asciiSpaces) (hs : s ≠ []) :
    widthOf spaceEncodings (s ++ [b]) = widthOf spaceEncodings s := by
  have hlast : ∀ b ∈ asciiSpaces, ∀ encoding ∈ spaceEncodings,
      encoding.dropLast ≠ [] → encoding.getLast? ≠ some b := by
    decide +kernel
  have hsame : ∀ encoding ∈ spaceEncodings,
      hasPrefix (s ++ [b]) encoding = hasPrefix s encoding := by
    intro encoding hmem
    rw [Bool.eq_iff_iff, hasPrefix_iff, hasPrefix_iff, List.prefix_concat_iff]
    constructor
    · rintro (heq | hstarts)
      · have hend := hlast b hb encoding hmem
        rw [heq, List.dropLast_concat, List.getLast?_concat] at hend
        exact absurd rfl (hend hs)
      · exact hstarts
    · exact .inr
  unfold widthOf
  rw [List.find?_congr hsame]

theorem widthOf_ascii_cons (hb : b ∈ asciiSpaces) :
    widthOf spaceEncodings (b :: s) = 1 ∧
      widthOf (spaceEncodings.map List.reverse) (b :: s) = 1 := by
  simp only [asciiSpaces, List.mem_cons, List.not_mem_nil, or_false] at hb
  rcases hb with rfl | rfl | rfl | rfl | rfl | rfl <;>
    simp [widthOf, spaceEncodings, hasPrefix, List.find?, List.isPrefixOf]

theorem trimLeftWith_append_ascii (hb : b ∈ asciiSpaces) (hfuel : s.length ≤ fuel) :
    trimLeftWith spaceEncodings (fuel + 1) (s ++ [b]) =
      if trimLeftWith spaceEncodings fuel s = [] then []
      else trimLeftWith spaceEncodings fuel s ++ [b] := by
  have hnil : ∀ fuel, trimLeftWith spaceEncodings fuel [] = [] := by
    intro fuel
    cases fuel <;> rfl
  have halone : ∀ fuel, trimLeftWith spaceEncodings (fuel + 1) [b] = [] := by
    intro fuel
    rw [trimLeftWith, (widthOf_ascii_cons hb).1, if_neg one_ne_zero]
    exact hnil fuel
  induction fuel generalizing s with
  | zero =>
    rw [List.length_eq_zero_iff.mp (by omega : s.length = 0), hnil, if_pos rfl]
    exact halone 0
  | succ fuel ih =>
    by_cases hs : s = []
    · subst hs
      exact halone (fuel + 1)
    have hturn : trimLeftWith spaceEncodings (fuel + 1) s =
        if widthOf spaceEncodings s = 0 then s
        else trimLeftWith spaceEncodings fuel (s.drop (widthOf spaceEncodings s)) := rfl
    rw [trimLeftWith, widthOf_append_ascii hb hs, hturn]
    by_cases hwidth : widthOf spaceEncodings s = 0
    · rw [if_pos hwidth, if_pos hwidth, if_neg hs]
    · have hle := widthOf_le_length spaceEncodings s
      rw [if_neg hwidth, if_neg hwidth, List.drop_append_of_le_length hle]
      apply ih
      rw [List.length_drop]
      omega

theorem trimSpace_append_ascii (hb : b ∈ asciiSpaces)
    (s : GoString) : trimSpace (s ++ [b]) = trimSpace s := by
  unfold trimSpace
  rw [List.length_append, List.length_singleton, trimLeftWith_append_ascii hb le_rfl]
  generalize trimLeftWith spaceEncodings s.length s = left
  by_cases hleft : left = []
  · rw [hleft]
    rfl
  · simp only [if_neg hleft, List.length_append, List.length_singleton,
      List.reverse_append, List.reverse_singleton, List.singleton_append]
    rw [trimLeftWith, (widthOf_ascii_cons hb).2, if_neg one_ne_zero,
      List.drop_one, List.tail_cons]

theorem trimLeftWith_suffix
    (s : GoString) : trimLeftWith encodings fuel s <:+ s := by
  induction fuel generalizing s with
  | zero => exact List.suffix_refl s
  | succ fuel ih =>
    rw [trimLeftWith]
    split
    · rfl
    · exact (ih _).trans (List.drop_suffix _ s)

theorem mem_of_mem_trimSpace (hb : b ∈ trimSpace s) : b ∈ s := by
  unfold trimSpace at hb
  rw [List.mem_reverse] at hb
  have hleft := (trimLeftWith_suffix _).subset hb
  rw [List.mem_reverse] at hleft
  exact (trimLeftWith_suffix _).subset hleft

/-- `strings.Fields`, with the bytes of the current field in reverse. -/
def fieldsFrom : ℕ → GoString → GoString → List GoString
  | 0, current, _ => if current = [] then [] else [current.reverse]
  | _ + 1, current, [] => if current = [] then [] else [current.reverse]
  | fuel + 1, current, b :: rest =>
    if widthOf spaceEncodings (b :: rest) = 0 then
      fieldsFrom fuel (b :: current) rest
    else
      let tail := (b :: rest).drop (widthOf spaceEncodings (b :: rest))
      if current = [] then fieldsFrom fuel [] tail
      else current.reverse :: fieldsFrom fuel [] tail

def fields (s : GoString) : List GoString := fieldsFrom s.length [] s

/-- A printable ASCII byte other than the space: the alphabet of numbers,
signs and time zones. -/
def isGraph (b : UInt8) : Bool := 33 ≤ b && b ≤ 126

theorem widthOf_of_graph (hb : isGraph b = true)
    (hspaces : encodings ⊆ spaceEncodings) :
    widthOf encodings (b :: rest) = 0 := by
  have hhead : ∀ encoding ∈ spaceEncodings, encoding.head?.map isGraph = some false := by
    decide
  have hnone : encodings.find? (fun encoding => hasPrefix (b :: rest) encoding) = none := by
    rw [List.find?_eq_none]
    intro encoding hmem
    have hc := hhead encoding (hspaces hmem)
    cases encoding with
    | nil => simp at hc
    | cons c tail =>
      have hne : c ≠ b := by
        intro heq
        simp [heq, hb] at hc
      rw [hasPrefix_cons_of_ne hne]
      simp
  simp [widthOf, hnone]

theorem widthOf_spaceEncodings_of_graph (hb : isGraph b = true)
    : widthOf spaceEncodings (b :: rest) = 0 :=
  widthOf_of_graph hb (List.Subset.refl _)

theorem widthOf_spaceEncodings_space : widthOf spaceEncodings (space :: rest) = 1 := by
  simp [widthOf, spaceEncodings, hasPrefix, space, List.find?, List.isPrefixOf]

theorem fieldsFrom_graph_append (hword : ∀ b ∈ word, isGraph b = true)
    (fuel : ℕ) (current rest : GoString) :
    fieldsFrom (fuel + word.length) current (word ++ rest) =
      fieldsFrom fuel (word.reverse ++ current) rest := by
  induction word generalizing current with
  | nil => simp
  | cons b word ih =>
    have hb : isGraph b = true := hword b (by simp)
    have htail : ∀ c ∈ word, isGraph c = true := by
      intro c hc
      exact hword c (List.mem_cons_of_mem b hc)
    rw [List.length_cons, ← Nat.add_assoc, List.cons_append, fieldsFrom,
      if_pos (widthOf_spaceEncodings_of_graph hb), ih htail]
    simp

theorem fields_two_words (hfirst : ∀ b ∈ first, isGraph b = true) (hne₁ : first ≠ [])
    (hsecond : ∀ b ∈ second, isGraph b = true) (hne₂ : second ≠ []) :
    fields (space :: (first ++ space :: second)) = [first, second] := by
  have hlength :
      (space :: (first ++ space :: second)).length = ((second.length + 1) + first.length) + 1 := by
    simp
    omega
  unfold fields
  rw [hlength, fieldsFrom, widthOf_spaceEncodings_space]
  simp only [one_ne_zero, if_false, List.drop_one, List.tail_cons, if_true]
  rw [fieldsFrom_graph_append hfirst, fieldsFrom, widthOf_spaceEncodings_space]
  have hreverse : first.reverse ++ [] ≠ [] := by simpa using hne₁
  simp only [one_ne_zero, if_false, List.drop_one, List.tail_cons, if_neg hreverse]
  have hlast := fieldsFrom_graph_append hsecond 0 [] []
  simp only [Nat.zero_add, List.append_nil] at hlast
  rw [hlast]
  simp [fieldsFrom, hne₂]

/-! ## Numbers -/

def digitByte (c : Char) : UInt8 := c.toNat.toUInt8

def formatNat (n : ℕ) : GoString := (Nat.toDigits 10 n).map digitByte

/-- `strconv.FormatInt(n, 10)`, which is also the verb `%d`. -/
def formatInt : ℤ → GoString
  | .ofNat n => formatNat n
  | .negSucc n => str "-" ++ formatNat (n + 1)

def isDigit (b : UInt8) : Bool := 48 ≤ b && b ≤ 57

def digitsValue (s : GoString) : ℕ := s.foldl (fun value b => 10 * value + (b.toNat - 48)) 0

def parseDigits (s : GoString) : Option ℕ :=
  if s ≠ [] ∧ s.all isDigit then some (digitsValue s) else none

def syntaxError (s : GoString) : GoString :=
  str "strconv.ParseInt: parsing \"" ++ s ++ str "\": invalid syntax"

def rangeError (s : GoString) : GoString :=
  str "strconv.ParseInt: parsing \"" ++ s ++ str "\": value out of range"

def InInt64 (n : ℤ) : Prop := -2 ^ 63 ≤ n ∧ n < 2 ^ 63

instance (n : ℤ) : Decidable (InInt64 n) :=
  inferInstanceAs (Decidable (_ ∧ _))

theorem inInt64_zero : InInt64 0 := by
  decide

def splitSign : GoString → Bool × GoString
  | [] => (false, [])
  | b :: rest =>
    if b = 43 then (false, rest)
    else if b = 45 then (true, rest)
    else (false, b :: rest)

def signed (negative : Bool) (n : ℕ) : ℤ := if negative then -n else n

/-- `strconv.ParseInt(s, 10, 64)`. -/
def parseInt (s : GoString) : Except GoString ℤ :=
  match parseDigits (splitSign s).2 with
  | none => .error (syntaxError s)
  | some n =>
    if InInt64 (signed (splitSign s).1 n) then
      .ok (signed (splitSign s).1 n)
    else .error (rangeError s)

variable {n : ℤ}

theorem parseInt_inInt64 (hs : parseInt s = .ok n) : InInt64 n := by
  unfold parseInt at hs
  cases hdigits : parseDigits (splitSign s).2 with
  | none =>
    rw [hdigits] at hs
    exact nomatch hs
  | some digits =>
    simp only [hdigits] at hs
    by_cases hrange : InInt64 (signed (splitSign s).1 digits)
    · rw [if_pos hrange] at hs
      cases hs
      exact hrange
    · rw [if_neg hrange] at hs
      exact nomatch hs

theorem toNat_digitByte_of_isDigit (hc : c.isDigit = true) : (digitByte c).toNat = c.toNat := by
  simp only [Char.isDigit, Bool.and_eq_true, decide_eq_true_eq, UInt32.le_iff_toNat_le] at hc
  have hlt : c.toNat < 256 := by
    have hupper : c.toNat ≤ 57 := hc.2
    omega
  simp [digitByte, Nat.toUInt8, UInt8.toNat_ofNat', Nat.mod_eq_of_lt hlt]

theorem digitByte_bounds (hc : c.isDigit = true) : isDigit (digitByte c) = true := by
  have hnat := toNat_digitByte_of_isDigit hc
  simp only [Char.isDigit, Bool.and_eq_true, decide_eq_true_eq, UInt32.le_iff_toNat_le] at hc
  have hlower : 48 ≤ c.toNat := hc.1
  have hupper : c.toNat ≤ 57 := hc.2
  simp only [isDigit, Bool.and_eq_true, decide_eq_true_eq, UInt8.le_iff_toNat_le, hnat]
  exact ⟨hlower, hupper⟩

theorem formatNat_isDigit {n : ℕ} (hb : b ∈ formatNat n) :
    isDigit b = true := by
  rcases List.mem_map.mp hb with ⟨c, hc, rfl⟩
  exact digitByte_bounds (Nat.isDigit_of_mem_toDigits (by norm_num) (by norm_num) hc)

theorem formatNat_ne_nil {n : ℕ} : formatNat n ≠ [] := by
  simp [formatNat, Nat.toDigits_ne_nil]

theorem digitsValue_formatNat (n : ℕ) : digitsValue (formatNat n) = n := by
  have hfold : ∀ (digits : List Char), (∀ c ∈ digits, c.isDigit = true) →
      ∀ init, (digits.map digitByte).foldl (fun value b => 10 * value + (b.toNat - 48)) init =
        Nat.ofDigitChars 10 digits init := by
    intro digits
    induction digits with
    | nil =>
      simp [Nat.ofDigitChars_nil]
    | cons c digits ih =>
      intro hdigits init
      have hc := toNat_digitByte_of_isDigit (hdigits c (by simp))
      have htail : ∀ d ∈ digits, d.isDigit = true := by
        intro d hd
        exact hdigits d (List.mem_cons_of_mem c hd)
      rw [List.map_cons, List.foldl_cons, ih htail, Nat.ofDigitChars_cons, hc]
      rfl
  unfold digitsValue formatNat
  rw [hfold _ (fun c hc =>
    Nat.isDigit_of_mem_toDigits (by norm_num) (by norm_num) hc)]
  exact Nat.ofDigitChars_ten_toDigits

theorem parseDigits_formatNat {n : ℕ} : parseDigits (formatNat n) = some n := by
  have hall : (formatNat n).all isDigit = true := by
    rw [List.all_eq_true]
    intro b hb
    exact formatNat_isDigit hb
  simp [parseDigits, formatNat_ne_nil, hall, digitsValue_formatNat]

theorem isDigit_not_sign (hb : isDigit b = true) : b ≠ 43 ∧ b ≠ 45 := by
  constructor <;> rintro rfl <;> simp [isDigit] at hb

theorem parseInt_of_splitSign {digits : GoString} {negative : Bool} {n : ℕ}
    (hsign : splitSign s = (negative, digits))
    (hdigits : parseDigits digits = some n)
    (hrange : InInt64 (signed negative n)) :
    parseInt s = .ok (signed negative n) := by
  simp [parseInt, hsign, hdigits, hrange]

theorem parseInt_formatInt (hn : InInt64 n) : parseInt (formatInt n) = .ok n := by
  cases n with
  | ofNat n =>
    have hsign : splitSign (formatNat n) = (false, formatNat n) := by
      cases hdigits : formatNat n with
      | nil => rfl
      | cons b rest =>
        have hb : isDigit b = true := formatNat_isDigit (n := n) (by rw [hdigits]; simp)
        rcases isDigit_not_sign hb with ⟨hplus, hminus⟩
        simp [splitSign, hplus, hminus]
    exact parseInt_of_splitSign hsign (parseDigits_formatNat) hn
  | negSucc n =>
    have hminus : str "-" = [45] := by decide
    have hsign : splitSign (formatInt (.negSucc n)) = (true, formatNat (n + 1)) := by
      simp [formatInt, hminus, splitSign]
    have hvalue : signed true (n + 1) = Int.negSucc n := by
      simp [signed, Int.negSucc_eq]
    have hparse := parseInt_of_splitSign hsign (parseDigits_formatNat) hn
    rwa [hvalue] at hparse

theorem isGraph_of_isDigit (hb : isDigit b = true) : isGraph b = true := by
  simp only [isDigit, isGraph, Bool.and_eq_true, decide_eq_true_eq, UInt8.le_iff_toNat_le] at hb ⊢
  simp only [UInt8.reduceToNat] at hb ⊢
  omega

theorem formatInt_isGraph (hb : b ∈ formatInt n) : isGraph b = true := by
  cases n with
  | ofNat n => exact isGraph_of_isDigit (formatNat_isDigit hb)
  | negSucc n =>
    simp only [formatInt, List.mem_append] at hb
    rcases hb with hsign | hdigit
    · have hall : ∀ c ∈ str "-", isGraph c = true := List.all_eq_true.mp (by decide)
      exact hall b hsign
    · exact isGraph_of_isDigit (formatNat_isDigit hdigit)

theorem formatInt_ne_nil (n : ℤ) : formatInt n ≠ [] := by
  cases n with
  | ofNat n => exact formatNat_ne_nil
  | negSucc n => simp [formatInt, formatNat_ne_nil]

/-! ## Hexadecimal -/

def hexDigit (nibble : UInt8) : UInt8 := if nibble < 10 then 48 + nibble else 87 + nibble

def hexValue (b : UInt8) : Option UInt8 :=
  if 48 ≤ b ∧ b ≤ 57 then some (b - 48)
  else if 97 ≤ b ∧ b ≤ 102 then some (b - 87)
  else if 65 ≤ b ∧ b ≤ 70 then some (b - 55)
  else none

def hexEncode (bytes : Bytes) : GoString :=
  bytes.flatMap fun b => [hexDigit (b / 16), hexDigit (b % 16)]

/-- The bytes that `hex.DecodeString` has decoded when it returns: all of
them, or those before the first offending digit. -/
def hexDecode : GoString → Bytes
  | high :: low :: rest =>
    match hexValue high, hexValue low with
    | some a, some b => (16 * a + b) :: hexDecode rest
    | _, _ => []
  | _ => []

def isLowerHex (b : UInt8) : Bool := (48 ≤ b && b ≤ 57) || (97 ≤ b && b ≤ 102)

def IsHexDigest (s : GoString) : Prop := s.length = 40 ∧ s.all isLowerHex = true

instance (s : GoString) : Decidable (IsHexDigest s) :=
  inferInstanceAs (Decidable (_ ∧ _))

theorem hexDigit_facts : ∀ b : UInt8,
    hexValue (hexDigit (b / 16)) = some (b / 16) ∧ hexValue (hexDigit (b % 16)) = some (b % 16) ∧
      16 * (b / 16) + b % 16 = b ∧
      isLowerHex (hexDigit (b / 16)) = true ∧
      isLowerHex (hexDigit (b % 16)) = true := by
  rintro ⟨⟨b⟩⟩
  revert b
  decide +kernel

theorem hexValue_of_isLowerHex : ∀ b : UInt8, isLowerHex b = true →
    ∃ nibble, hexValue b = some nibble ∧ nibble < 16 ∧ hexDigit nibble = b := by
  have hdigit : ∀ b : UInt8, isLowerHex b = true →
      (hexValue b).any (fun nibble => nibble < 16 ∧ hexDigit nibble = b) = true := by
    rintro ⟨⟨b⟩⟩
    revert b
    decide +kernel
  intro b hb
  have hvalue := hdigit b hb
  cases hnibble : hexValue b with
  | none => simp [hnibble] at hvalue
  | some nibble =>
    simp only [hnibble, Option.any_some, decide_eq_true_eq] at hvalue
    exact ⟨nibble, rfl, hvalue⟩

theorem nibbles_join : ∀ a b : UInt8, a < 16 → b < 16 →
    (16 * a + b) / 16 = a ∧ (16 * a + b) % 16 = b := by
  intro a b ha hb
  rw [UInt8.lt_iff_toNat_lt] at ha hb
  simp only [UInt8.reduceToNat] at ha hb
  constructor <;> rw [← UInt8.toNat_inj] <;>
    simp only [UInt8.toNat_div, UInt8.toNat_mod, UInt8.toNat_add,
      UInt8.toNat_mul, UInt8.reduceToNat] <;>
    omega

theorem hexDecode_hexEncode (bytes : Bytes) : hexDecode (hexEncode bytes) = bytes := by
  induction bytes with
  | nil => simp [hexEncode, hexDecode]
  | cons b bytes ih =>
    rcases hexDigit_facts b with ⟨hhigh, hlow, hjoin, -, -⟩
    unfold hexEncode at ih ⊢
    simp [hexDecode, hhigh, hlow, hjoin, ih]

theorem hexEncode_isLowerHex {bytes : Bytes} : (hexEncode bytes).all isLowerHex = true := by
  induction bytes with
  | nil => simp [hexEncode]
  | cons b bytes ih =>
    rcases hexDigit_facts b with ⟨-, -, -, hhigh, hlow⟩
    unfold hexEncode at ih ⊢
    simp only [List.flatMap_cons, List.all_append, List.all_cons, hhigh,
      hlow, List.all_nil, ih, Bool.and_self]

theorem hexEncode_length (bytes : Bytes) : (hexEncode bytes).length = 2 * bytes.length := by
  induction bytes with
  | nil => simp [hexEncode]
  | cons b bytes ih =>
    unfold hexEncode at ih ⊢
    simp only [List.flatMap_cons, List.length_append, List.length_cons, List.length_nil, ih]
    omega

theorem hexEncode_isHexDigest (hlength : bytes.length = 20) : IsHexDigest (hexEncode bytes) := by
  constructor
  · rw [hexEncode_length, hlength]
  · exact hexEncode_isLowerHex

theorem hexEncode_hexDecode (n : ℕ) (s : GoString) (hlength : s.length = 2 * n)
    (hs : s.all isLowerHex = true) :
    hexEncode (hexDecode s) = s ∧ (hexDecode s).length = n := by
  induction n generalizing s with
  | zero =>
    have hnil : s = [] := List.length_eq_zero_iff.mp (by omega)
    subst hnil
    simp [hexDecode, hexEncode]
  | succ n ih =>
    rcases s with _ | ⟨high, _ | ⟨low, rest⟩⟩
    · simp at hlength
    · simp at hlength
      omega
    · simp only [List.all_cons, Bool.and_eq_true] at hs
      rcases hs with ⟨hhigh, hlow, hrest⟩
      have hlengthRest : rest.length = 2 * n := by
        simp only [List.length_cons] at hlength
        omega
      rcases ih rest hlengthRest hrest with ⟨hencode, hcount⟩
      rcases hexValue_of_isLowerHex high hhigh with ⟨a, ha, halt, hadigit⟩
      rcases hexValue_of_isLowerHex low hlow with ⟨b, hb, hblt, hbdigit⟩
      rcases nibbles_join a b halt hblt with ⟨hdiv, hmod⟩
      have hdecode : hexDecode (high :: low :: rest) = (16 * a + b) :: hexDecode rest := by
        simp [hexDecode, ha, hb]
      rw [hdecode]
      constructor
      · unfold hexEncode at hencode ⊢
        rw [List.flatMap_cons, hencode, hdiv, hmod, hadigit, hbdigit]
        rfl
      · simp [hcount]

theorem IsHexDigest.hexEncode_hexDecode (hs : IsHexDigest s) :
    hexEncode (hexDecode s) = s ∧ (hexDecode s).length = 20 :=
  Go.hexEncode_hexDecode 20 s hs.1 hs.2

/-! ## Base 64 -/

def base64Alphabet : GoString :=
  str "ABCDEFGHIJKLMNOPQRSTUVWXYZabcdefghijklmnopqrstuvwxyz0123456789-_"

def base64Digit (sextet : UInt8) : UInt8 := base64Alphabet.getD sextet.toNat 61

/-- `base64.URLEncoding.EncodeToString`, padded with `=`. -/
def base64URLEncode : Bytes → GoString
  | a :: b :: c :: rest =>
    [base64Digit (a >>> 2), base64Digit ((a &&& 3) <<< 4 ||| b >>> 4),
      base64Digit ((b &&& 15) <<< 2 ||| c >>> 6), base64Digit (c &&& 63)] ++
      base64URLEncode rest
  | [a, b] =>
    [base64Digit (a >>> 2), base64Digit ((a &&& 3) <<< 4 ||| b >>> 4),
      base64Digit ((b &&& 15) <<< 2), 61]
  | [a] => [base64Digit (a >>> 2), base64Digit ((a &&& 3) <<< 4), 61, 61]
  | [] => []

end Go
