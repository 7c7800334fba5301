import Mathlib

/-!
# Text as Rust's Standard Library Cuts It

Splitting, trimming and number parsing of `str` and `char`, on the characters of a text. A text
that is no number, or has no separator, gives `none`.
-/

namespace Text

/-! ## Blanks and Lines -/

/-- `char::is_whitespace`. -/
def isWhitespace (c : Char) : Bool :=
  let v := c.val.toNat
  (9 ≤ v && v ≤ 13) || v == 0x20 || v == 0x85 || v == 0xA0 || v == 0x1680 ||
    (0x2000 ≤ v && v ≤ 0x200A) || v == 0x2028 || v == 0x2029 || v == 0x202F || v == 0x205F ||
    v == 0x3000

/-- `str::split_whitespace`. -/
def splitWhitespace (line : List Char) : List (List Char) :=
  (line.splitOnP isWhitespace).filter (· ≠ [])

/-- `str::trim_end`. -/
def trimEnd (s : List Char) : List Char := s.rdropWhile isWhitespace

/-- `str::trim`. -/
def trim (s : List Char) : List Char := trimEnd (s.dropWhile isWhitespace)

/-- `str::lines`. A line end is a line feed with the carriage return before it, if there is one;
    the last line needs none. -/
def textLines (text : List Char) : List (List Char) :=
  let parts := text.splitOn '\n'
  let ended := parts.dropLast.map fun line =>
    if line.getLast? = some '\r' then line.dropLast else line
  match parts.getLast? with
  | some [] | none => ended
  | some last => ended ++ [last]

theorem textLines_singleton {line : List Char} (hne : line ≠ []) (hend : '\n' ∉ line) :
    textLines line = [line] := by
  unfold textLines
  rw [List.splitOn_eq_singleton hend]
  cases line with
  | nil => exact absurd rfl hne
  | cons c line => rfl

/-! ## Separators -/

/-- `str::split_once`. -/
def splitOnce (separator : Char) (s : List Char) : Option (List Char × List Char) :=
  match s.span (· ≠ separator) with
  | (before, _ :: after) => some (before, after)
  | (_, []) => none

/-- `splitn(2, c)`: up to the first `c`, and what is behind it if there is one. -/
def splitn2 (c : Char) (s : List Char) : List Char × Option (List Char) :=
  (s.takeWhile (· != c), (s.dropWhile (· != c)).tail?)

theorem forall_bne_of_notMem {c : Char} {s : List Char} (h : c ∉ s) :
    ∀ d ∈ s, (d != c) = true := by
  intro d hd
  rw [bne_iff_ne]
  intro heq
  exact h (heq ▸ hd)

theorem splitn2_append {c : Char} {s : List Char} (h : c ∉ s) (rest : List Char) :
    splitn2 c (s ++ c :: rest) = (s, some rest) := by
  have hall := forall_bne_of_notMem h
  unfold splitn2
  rw [List.takeWhile_append_of_pos hall, List.dropWhile_append_of_pos hall]
  simp

theorem splitn2_of_notMem {c : Char} {s : List Char} (h : c ∉ s) : splitn2 c s = (s, none) := by
  have hall := forall_bne_of_notMem h
  unfold splitn2
  rw [List.takeWhile_eq_self_iff.mpr hall, List.dropWhile_eq_nil_iff.mpr hall]
  rfl

/-! ## Numbers -/

/-- `char::is_ascii_hexdigit`. -/
def isAsciiHexdigit (c : Char) : Bool :=
  ('0' ≤ c && c ≤ '9') || ('a' ≤ c && c ≤ 'f') || ('A' ≤ c && c ≤ 'F')

/-- `char::to_digit`. -/
def toDigit (radix : ℕ) (c : Char) : Option ℕ :=
  let digit :=
    if '0' ≤ c ∧ c ≤ '9' then some (c.toNat - '0'.toNat)
    else if 'a' ≤ c ∧ c ≤ 'z' then some (c.toNat - 'a'.toNat + 10)
    else if 'A' ≤ c ∧ c ≤ 'Z' then some (c.toNat - 'A'.toNat + 10)
    else none
  digit.filter (· < radix)

/-- The digits of a number below `2 ^ width`; the first that does not fit makes it fail. -/
def radixValue (radix width : ℕ) (digits : List Char) : Option ℕ :=
  digits.foldlM
    (fun value c => do
      let digit ← toDigit radix c
      let next := value * radix + digit
      if next < 2 ^ width then some next else none)
    0

/-- `from_str_radix` of the unsigned types: one or more digits, perhaps after a plus. -/
def fromStrRadix (radix width : ℕ) (s : List Char) : Option ℕ :=
  let digits := if s.head? = some '+' then s.tail else s
  if digits = [] then none else radixValue radix width digits

end Text
