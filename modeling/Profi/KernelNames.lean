import Profi.Kernel
import Profi.Lib.Utf8
import Profi.Lib.Text

/-!
# Normalized Kernel Names

`normalize_kernel_name` of `src/kernel.rs`. The names come out of the memory of traced processes,
so nothing is known about them but that they are UTF-8. A mangled name is scanned byte by byte for
identifiers with their decimal lengths in front; the later stages cut template arguments, function
arguments, trailing blanks and a numeric suffix.

Every slice is taken at byte positions and may fail. The later stages only cut where they have
found a character (`stripArgs_eq`, `stripNumericSuffix_eq`, `truncateUtf8Bytes_spec`). The scan
cuts where a number in the name tells it to, and `scan_ok_iff` says for which names that works.
-/

namespace Profi

open String (utf8Len)
open Text

/-! ## The function -/

/-- What stops the normalization. A slice with its ends out of order, out of range or inside a
    character panics. A sum beyond `usize` panics in a debug build; in a release build it wraps
    around to a position before the start of the slice it is the end of, which panics too. -/
inductive NameFault where
  | slice
  | overflow
  deriving DecidableEq

/-- `char::is_alphanumeric`, whose table is left open outside of ASCII. -/
structure CharTable where
  isAlphanumeric : Char → Bool
  ascii : ∀ c : Char, c.val.toNat ≤ 127 → isAlphanumeric c = c.isAlphanum

/-- `u8::is_ascii_digit`. -/
def isAsciiDigit (b : UInt8) : Bool := 48 ≤ b.toNat && b.toNat ≤ 57

/-- `&s[start..stop]`. -/
def strSlice (s : List Char) (start stop : ℕ) : Except NameFault (List Char) :=
  match Utf8.slice s start stop with
  | some mid => .ok mid
  | none => .error .slice

/-- The addition of `usize`. -/
def usizeAdd (i j : ℕ) : Except NameFault ℕ :=
  if i + j < 2 ^ 64 then .ok (i + j) else .error .overflow

/-- `digits.parse::<usize>()` for a text of digits. -/
def parseUsize (digits : List Char) : Option ℕ :=
  let value := Nat.ofDigitChars 10 digits 0
  if value < 2 ^ 64 then some value else none

/-- The variables of the scan: the byte it stands at and the identifier it prefers so far. -/
structure Scan where
  i : ℕ
  best : List Char

section Scanner

variable (table : CharTable) (name : List Char)

/-- `bytes[i].is_ascii_digit()`. -/
def digitAt (i : ℕ) : Bool := (Utf8.bytes name)[i]?.any isAsciiDigit

/-- `while i < bytes.len() && bytes[i].is_ascii_digit() { i += 1; }`. -/
def digitsEnd (i : ℕ) : ℕ := i + (((Utf8.bytes name).drop i).takeWhile isAsciiDigit).length

/-- The better one of the preferred identifier and a new one. -/
def betterIdent (best ident : List Char) : List Char :=
  if utf8Len ident > utf8Len best ∧ ident.all (fun c => table.isAlphanumeric c || c == '_') then
    ident
  else best

/-- One round of the scan. -/
def scanRound (s : Scan) : Except NameFault Scan :=
  if digitAt name s.i then do
    let i := digitsEnd name s.i
    let digits ← strSlice name s.i i
    let len := (parseUsize digits).getD 0
    if len > 0 then do
      let stop ← usizeAdd i len
      if stop ≤ (Utf8.bytes name).length then do
        let ident ← strSlice name i stop
        return ⟨stop, betterIdent table s.best ident⟩
      else return ⟨i + 1, s.best⟩
    -- a length of zero or one that is no `usize` also skips the byte after it
    else return ⟨i + 1, s.best⟩
  else return ⟨s.i + 1, s.best⟩

/-- `while i < bytes.len() { .. }`, for at most `fuel` rounds. -/
def scanLoop : ℕ → Scan → Except NameFault Scan
  | 0, s => .ok s
  | fuel + 1, s =>
    if s.i < (Utf8.bytes name).length then do
      let s ← scanRound table name s
      scanLoop fuel s
    else .ok s

/-- The scan of a mangled name. No round leaves the byte it starts at, so there are never more
    rounds than bytes. -/
def scan : Except NameFault Scan := scanLoop table name (Utf8.bytes name).length ⟨2, []⟩

/-- The identifier a mangled name is replaced with. -/
def demangle : Except NameFault (List Char) :=
  if "_Z".toList.isPrefixOf name then do
    let s ← scan table name
    return if s.best.isEmpty then name else s.best
  else return name

end Scanner

/-- Template arguments are skipped, nested ones included. The depth is a `u32`; a closing bracket
    without an opening one stays. -/
def stripTemplates (depth : BitVec 32) : List Char → List Char
  | [] => []
  | c :: s =>
    if c = '<' then stripTemplates (depth + 1) s
    else if c = '>' ∧ depth > 0 then stripTemplates (depth - 1) s
    else if depth = 0 then c :: stripTemplates depth s
    else stripTemplates depth s

/-- `if let Some(paren) = result.find('(') { result.truncate(paren); }`. -/
def stripArgs (s : List Char) : Except NameFault (List Char) :=
  match Utf8.find (· == '(') s with
  | some paren => strSlice s 0 paren
  | none => return s

/-- `final_name`: without the number behind the last underscore, if nothing else is there. -/
def stripNumericSuffix (trimmed : List Char) : Except NameFault (List Char) :=
  match Utf8.rfind (· == '_') trimmed with
  | some lastUnderscore => do
    let suffix ← strSlice trimmed (lastUnderscore + 1) (utf8Len trimmed)
    if suffix ≠ [] ∧ suffix.all Char.isDigit then strSlice trimmed 0 lastUnderscore
    else return trimmed
  | none => return trimmed

/-- `truncate_utf8_bytes`. -/
def truncateUtf8Bytes (s : List Char) (maxLen : ℕ) : Except NameFault (List Char) :=
  if utf8Len s ≤ maxLen then return s else strSlice s 0 (Utf8.floorBoundary s maxLen)

/-- `normalize_kernel_name`. -/
def normalizeKernelName (table : CharTable) (raw : String) : Except NameFault String := do
  let name ← demangle table raw.toList
  let result ← stripArgs (stripTemplates 0 name)
  let finalName ← stripNumericSuffix (trimEnd result)
  let truncated ← truncateUtf8Bytes finalName 64
  if truncated.isEmpty then do
    let short ← truncateUtf8Bytes raw.toList 64
    return String.ofList short
  else return String.ofList truncated

/-! ## Slices that succeed -/

theorem strSlice_append (p mid t : List Char) {start stop : ℕ} (hstart : utf8Len p = start)
    (hstop : utf8Len p + utf8Len mid = stop) : strSlice (p ++ mid ++ t) start stop = .ok mid := by
  subst hstart hstop
  rw [strSlice, Utf8.slice_append]

theorem strSlice_eq_ok_iff {s mid : List Char} {start stop : ℕ} :
    strSlice s start stop = .ok mid ↔
      ∃ p t, s = p ++ mid ++ t ∧ utf8Len p = start ∧ utf8Len p + utf8Len mid = stop := by
  rw [← Utf8.slice_eq_some_iff, strSlice]
  cases Utf8.slice s start stop <;> simp

variable (p t : List Char) {name : List Char} (s : List Char)

/-- A text is cut before the first bracket, if there is one. -/
theorem stripArgs_eq : ∃ r, stripArgs s = .ok r ∧ r <+: s := by
  unfold stripArgs
  cases h : Utf8.find (· == '(') s with
  | none => exact ⟨s, rfl, List.prefix_rfl⟩
  | some paren =>
    obtain ⟨q, c, t, rfl, hq, -⟩ := Utf8.find_eq_some h
    exact ⟨q, strSlice_append [] q (c :: t) rfl (by simpa using hq), List.prefix_append q _⟩

theorem stripArgs_of_notMem {s : List Char} (h : '(' ∉ s) : stripArgs s = .ok s := by
  unfold stripArgs
  rw [Utf8.find_eq_none]
  · rfl
  · intro c hc
    exact beq_eq_false_iff_ne.mpr fun heq => h (heq ▸ hc)

/-- What stands before a number at the end of a text, with an underscore between the two. -/
def numericStem (s : List Char) : Option (List Char) :=
  match s.reverse.dropWhile Char.isDigit with
  | '_' :: stem => if s.getLast?.any Char.isDigit then some stem.reverse else none
  | _ => none

theorem dropWhile_reverse_digits {digits : List Char} (h : digits.all Char.isDigit = true)
    (rest : List Char) :
    (rest ++ digits).reverse.dropWhile Char.isDigit = rest.reverse.dropWhile Char.isDigit := by
  rw [List.reverse_append, List.dropWhile_append_of_pos]
  intro c hc
  exact List.all_eq_true.mp h c (List.mem_reverse.mp hc)

theorem numericStem_append {stem digits : List Char} (hne : digits ≠ [])
    (h : digits.all Char.isDigit = true) : numericStem (stem ++ '_' :: digits) = some stem := by
  have hlast : (stem ++ '_' :: digits).getLast?.any Char.isDigit = true := by
    have hmem := List.getLast_mem hne
    rw [List.getLast?_append, List.getLast?_cons, List.getLast?_eq_some_getLast hne]
    exact List.all_eq_true.mp h _ hmem
  unfold numericStem
  rw [← List.singleton_append, ← List.append_assoc] at hlast ⊢
  rw [dropWhile_reverse_digits h, List.reverse_append, hlast]
  simp [Char.isDigit]

/-- A stem is followed by an underscore and a number. -/
theorem numericStem_eq_some {s stem : List Char} (h : numericStem s = some stem) :
    ∃ digits, digits ≠ [] ∧ digits.all Char.isDigit = true ∧ s = stem ++ '_' :: digits := by
  unfold numericStem at h
  split at h
  next rest heq =>
    split at h
    next hlast =>
      cases h
      refine ⟨(s.reverse.takeWhile Char.isDigit).reverse, ?_, ?_, ?_⟩
      · intro hnil
        -- the last character of the text is a digit, so the number is not empty
        cases hc : s.getLast? with
        | none => simp [hc] at hlast
        | some c =>
          have hdigit : c.isDigit = true := by simpa [hc] using hlast
          obtain ⟨u, rfl⟩ := List.getLast?_eq_some_iff.mp hc
          simp [hdigit] at hnil
      · rw [List.all_reverse, List.all_eq_true]
        exact fun c hc => List.mem_takeWhile_imp hc
      · have hsplit := @List.takeWhile_append_dropWhile _ Char.isDigit s.reverse
        rw [heq] at hsplit
        have hrev := congrArg List.reverse hsplit
        simpa using hrev.symm
    · cases h
  · cases h

/-- There is no stem unless a number is behind the last underscore. -/
theorem numericStem_eq_none {q t : List Char} (ht : ∀ c ∈ t, (c == '_') = false)
    (hnumber : ¬ (t ≠ [] ∧ t.all Char.isDigit = true)) : numericStem (q ++ '_' :: t) = none := by
  rw [Option.eq_none_iff_forall_ne_some]
  intro stem hstem
  obtain ⟨digits, hne, hdigits, heq⟩ := numericStem_eq_some hstem
  have hdigit_ne : ∀ d ∈ digits, (d == '_') = false := by
    intro d hd
    have hd' := List.all_eq_true.mp hdigits d hd
    apply beq_eq_false_iff_ne.mpr
    rintro rfl
    exact absurd hd' (by decide)
  -- the stem ends at the last underscore, so that the number is `t`
  have hlast : Utf8.rfind (· == '_') (q ++ '_' :: t) = some (utf8Len q) :=
    Utf8.rfind_eq_some_iff.mpr ⟨q, '_', t, rfl, rfl, rfl, ht⟩
  have hpos : Utf8.rfind (· == '_') (q ++ '_' :: t) = some (utf8Len stem) :=
    Utf8.rfind_eq_some_iff.mpr ⟨stem, '_', digits, heq, rfl, rfl, hdigit_ne⟩
  have hstart : utf8Len q = utf8Len stem := Option.some.inj (hlast.symm.trans hpos)
  have hsplit : Utf8.splitAt (q ++ '_' :: t) (utf8Len q) = some (stem, '_' :: digits) :=
    Utf8.splitAt_eq_some_iff.mpr ⟨heq, hstart.symm⟩
  rw [Utf8.splitAt_append] at hsplit
  obtain ⟨-, rfl⟩ := List.cons.inj (Prod.mk.inj (Option.some.inj hsplit)).2
  exact hnumber ⟨hne, hdigits⟩

/-- The number behind the last underscore goes, and nothing else. -/
theorem stripNumericSuffix_eq : stripNumericSuffix s = .ok ((numericStem s).getD s) := by
  unfold stripNumericSuffix
  cases h : Utf8.rfind (· == '_') s with
  | none =>
    have hnone := Utf8.rfind_eq_none_iff.mp h
    cases hstem : numericStem s with
    | none => rfl
    | some stem =>
      obtain ⟨digits, -, -, rfl⟩ := numericStem_eq_some hstem
      exact absurd (hnone '_' (by simp)) (by simp)
  | some n =>
    obtain ⟨q, c, t, rfl, rfl, hc, ht⟩ := Utf8.rfind_eq_some_iff.mp h
    obtain rfl : c = '_' := beq_iff_eq.mp hc
    -- the slice starts one byte behind the underscore
    have hsuffix : strSlice (q ++ '_' :: t) (utf8Len q + 1) (utf8Len (q ++ '_' :: t)) = .ok t := by
      rw [show q ++ '_' :: t = (q ++ ['_']) ++ t ++ [] by simp]
      apply strSlice_append
      · rw [String.utf8Len_append]
        rfl
      · simp only [String.utf8Len_append, String.utf8Len_cons, Utf8.utf8Len_nil]
        omega
    show (strSlice _ _ _ >>= fun suffix => _) = _
    rw [hsuffix]
    show (if t ≠ [] ∧ t.all Char.isDigit then _ else _) = _
    split
    next hnumber =>
      rw [numericStem_append hnumber.1 hnumber.2]
      exact strSlice_append [] q ('_' :: t) rfl (by simp)
    next hnumber =>
      rw [numericStem_eq_none ht hnumber]
      rfl

/-- A text is cut to a prefix of at most `n` bytes that has no room for the next character. -/
theorem truncateUtf8Bytes_eq_ok_iff {s p : List Char} {n : ℕ} :
    truncateUtf8Bytes s n = .ok p ↔
      utf8Len p ≤ n ∧ (s = p ∨ ∃ c t, s = p ++ c :: t ∧ n < utf8Len p + c.utf8Size) := by
  unfold truncateUtf8Bytes
  split
  -- a text that fits stays whole
  next hfits =>
    constructor
    · intro h
      cases h
      exact ⟨hfits, .inl rfl⟩
    · rintro ⟨-, rfl | ⟨c, t, rfl, hfull⟩⟩
      · rfl
      · rw [String.utf8Len_append, String.utf8Len_cons] at hfits
        omega
  -- a longer one is cut at the last boundary that fits
  next hlong =>
    constructor
    · intro h
      obtain ⟨q, t, heq, hq, hfloor⟩ := strSlice_eq_ok_iff.mp h
      obtain rfl : q = [] := String.utf8Len_eq_zero.mp hq
      rw [Utf8.utf8Len_nil, Nat.zero_add] at hfloor
      subst heq
      cases t with
      | nil =>
        rw [List.append_nil] at hfloor hlong
        exact absurd (hfloor ▸ Utf8.floorBoundary_le p n) hlong
      | cons c t =>
        obtain ⟨hfits, hfull⟩ := Utf8.floorBoundary_append_cons_iff.mp hfloor.symm
        exact ⟨hfits, .inr ⟨c, t, rfl, hfull⟩⟩
    · rintro ⟨hfits, rfl | ⟨c, t, rfl, hfull⟩⟩
      · exact absurd hfits hlong
      · rw [Utf8.floorBoundary_append_cons_iff.mpr ⟨hfits, hfull⟩]
        exact strSlice_append [] p (c :: t) rfl (by simp)

/-- A text is cut to whole characters within the limit; a limit of four bytes has room for the
    first one. -/
theorem truncateUtf8Bytes_spec {maxLen : ℕ} (hmax : 4 ≤ maxLen) :
    ∃ r, truncateUtf8Bytes s maxLen = .ok r ∧ r <+: s ∧ utf8Len r ≤ maxLen ∧
      (r = [] → s = []) := by
  obtain ⟨r, hr⟩ : ∃ r, truncateUtf8Bytes s maxLen = .ok r := by
    unfold truncateUtf8Bytes
    split
    · exact ⟨s, rfl⟩
    · obtain ⟨p, t, heq, hp⟩ :=
        Utf8.isCharBoundary_iff.mp (Utf8.isCharBoundary_floorBoundary s maxLen)
      rw [← hp, heq]
      exact ⟨p, strSlice_append [] p t rfl (by simp)⟩
  obtain ⟨hfits, rfl | ⟨c, t, rfl, hfull⟩⟩ := truncateUtf8Bytes_eq_ok_iff.mp hr
  · exact ⟨s, hr, List.prefix_rfl, hfits, id⟩
  · refine ⟨r, hr, List.prefix_append r (c :: t), hfits, ?_⟩
    rintro rfl
    have hsize : c.utf8Size ≤ maxLen := c.utf8Size_le_four.trans hmax
    rw [Utf8.utf8Len_nil, Nat.zero_add] at hfull
    omega

/-! ## Digits -/

theorem isDigit_ascii {c : Char} (h : c.isDigit = true) : c.val.toNat ≤ 127 := by
  simp only [Char.isDigit, Bool.and_eq_true, decide_eq_true_eq] at h
  exact h.2.trans (by decide)

theorem isAsciiDigit_char {c : Char} (hc : c.val.toNat ≤ 127) :
    isAsciiDigit (UInt8.ofNat c.val.toNat) = c.isDigit := by
  unfold isAsciiDigit Char.isDigit
  rw [UInt8.toNat_ofNat', Nat.mod_eq_of_lt (by omega)]
  rfl

/-- A text starts with a digit if its first byte is one. -/
theorem bytes_cons_digit (c : Char) (t : List Char) :
    ∃ b bs, Utf8.bytes (c :: t) = b :: bs ∧ isAsciiDigit b = c.isDigit ∧
      (c.isDigit = true → bs = Utf8.bytes t) := by
  by_cases hc : c.val.toNat ≤ 127
  · refine ⟨UInt8.ofNat c.val.toNat, Utf8.bytes t, ?_, isAsciiDigit_char hc, fun _ => rfl⟩
    rw [Utf8.bytes_cons, Utf8.encode_ascii hc]
    rfl
  · have hdigit : c.isDigit = false := by
      rw [← Bool.not_eq_true]
      exact fun h => hc (isDigit_ascii h)
    cases henc : String.utf8EncodeChar c with
    | nil =>
      have hlen := String.length_utf8EncodeChar c
      rw [henc] at hlen
      exact absurd hlen.symm c.utf8Size_pos.ne'
    | cons b bs =>
      have hb : 128 ≤ b.toNat := Utf8.encode_not_ascii hc (by simp [henc])
      refine ⟨b, bs ++ Utf8.bytes t, by rw [Utf8.bytes_cons, henc]; rfl, ?_, ?_⟩
      · rw [hdigit, isAsciiDigit, Bool.and_eq_false_iff]
        exact .inr (decide_eq_false (by omega))
      · rw [hdigit]
        exact fun h => absurd h Bool.false_ne_true

theorem length_takeWhile_bytes (t : List Char) :
    ((Utf8.bytes t).takeWhile isAsciiDigit).length = (t.takeWhile Char.isDigit).length := by
  induction t with
  | nil => rfl
  | cons c t ih =>
    obtain ⟨b, bs, heq, hb, hbs⟩ := bytes_cons_digit c t
    rw [heq, List.takeWhile_cons, List.takeWhile_cons, hb]
    split
    next hc => rw [hbs hc, List.length_cons, List.length_cons, ih]
    · rfl

theorem utf8Len_takeWhile_digit (t : List Char) :
    utf8Len (t.takeWhile Char.isDigit) = (t.takeWhile Char.isDigit).length :=
  Utf8.utf8Len_ascii fun _ hc => isDigit_ascii (List.mem_takeWhile_imp hc)

theorem digitAt_append : digitAt (p ++ t) (utf8Len p) = t.head?.any Char.isDigit := by
  have hget : (Utf8.bytes (p ++ t))[utf8Len p]? = (Utf8.bytes t)[0]? := by
    rw [Utf8.bytes_append, List.getElem?_append_right (by simp), Utf8.length_bytes, Nat.sub_self]
  rw [digitAt, hget]
  cases t with
  | nil => rfl
  | cons c t =>
    obtain ⟨b, bs, heq, hb, -⟩ := bytes_cons_digit c t
    rw [heq]
    exact hb

theorem digitsEnd_append :
    digitsEnd (p ++ t) (utf8Len p) = utf8Len p + utf8Len (t.takeWhile Char.isDigit) := by
  rw [digitsEnd, Utf8.drop_bytes, length_takeWhile_bytes, utf8Len_takeWhile_digit]

/-- The scan only reads numbers at character boundaries. -/
theorem exists_of_digitAt {i : ℕ} (h : digitAt name i = true) :
    ∃ p t, name = p ++ t ∧ utf8Len p = i := by
  unfold digitAt at h
  cases hb : (Utf8.bytes name)[i]? with
  | none => simp [hb] at h
  | some b =>
    have hdigit : isAsciiDigit b = true := by simpa [hb] using h
    simp only [isAsciiDigit, Bool.and_eq_true, decide_eq_true_eq] at hdigit
    obtain ⟨p, c, t, heq, hp, -⟩ := Utf8.exists_of_ascii hb (by omega)
    exact ⟨p, c :: t, heq, hp⟩

theorem exists_of_digitsEnd {i : ℕ} (h : digitAt name i = true) :
    ∃ q r, name = q ++ r ∧ utf8Len q = digitsEnd name i := by
  obtain ⟨p, t, rfl, rfl⟩ := exists_of_digitAt h
  refine ⟨p ++ t.takeWhile Char.isDigit, t.dropWhile Char.isDigit, ?_, ?_⟩
  · rw [List.append_assoc, List.takeWhile_append_dropWhile]
  · rw [digitsEnd_append, String.utf8Len_append]

theorem strSlice_digits :
    strSlice (p ++ t) (utf8Len p) (digitsEnd (p ++ t) (utf8Len p)) =
      .ok (t.takeWhile Char.isDigit) := by
  have hsplit : p ++ t = p ++ t.takeWhile Char.isDigit ++ t.dropWhile Char.isDigit := by
    rw [List.append_assoc, List.takeWhile_append_dropWhile]
  rw [digitsEnd_append]
  nth_rewrite 1 [hsplit]
  exact strSlice_append p _ _ rfl rfl

/-! ## Where the scan goes -/

/-- The length the scan reads at a digit. -/
def lengthAt (name : List Char) (i : ℕ) : ℕ :=
  ((Utf8.slice name i (digitsEnd name i)).bind parseUsize).getD 0

/-- Where the identifier behind a length ends. -/
def identEnd (name : List Char) (i : ℕ) : ℕ := digitsEnd name i + lengthAt name i

/-- The byte the scan goes to next. -/
def nextByte (name : List Char) (i : ℕ) : ℕ :=
  if digitAt name i then
    if 0 < lengthAt name i ∧ identEnd name i ≤ utf8Len name then identEnd name i
    else digitsEnd name i + 1
  else i + 1

/-- A length the scan reads at this byte has an end that is a `usize`, and an identifier that is
    not longer than the text ends between two characters. -/
def LengthFits (name : List Char) (i : ℕ) : Prop :=
  digitAt name i = true → 0 < lengthAt name i →
    identEnd name i < 2 ^ 64 ∧
      (identEnd name i ≤ utf8Len name → Utf8.isCharBoundary name (identEnd name i) = true)

theorem le_digitsEnd (name : List Char) (i : ℕ) : i ≤ digitsEnd name i := Nat.le_add_right _ _

theorem lt_nextByte (name : List Char) (i : ℕ) : i < nextByte name i := by
  have hle := le_digitsEnd name i
  unfold nextByte identEnd
  split_ifs <;> omega

theorem lengthAt_append :
    lengthAt (p ++ t) (utf8Len p) = (parseUsize (t.takeWhile Char.isDigit)).getD 0 := by
  have hslice := strSlice_digits p t
  unfold strSlice at hslice
  unfold lengthAt
  split at hslice
  next digits heq =>
    cases hslice
    rw [heq]
    rfl
  · cases hslice

section Scanning

variable (table : CharTable) (name : List Char)

/-- One round at a digit, with the length read off. -/
theorem scanRound_digit {s : Scan} (h : digitAt name s.i = true) :
    scanRound table name s =
      if 0 < lengthAt name s.i then do
        let stop ← usizeAdd (digitsEnd name s.i) (lengthAt name s.i)
        if stop ≤ utf8Len name then do
          let ident ← strSlice name (digitsEnd name s.i) stop
          return ⟨stop, betterIdent table s.best ident⟩
        else return ⟨digitsEnd name s.i + 1, s.best⟩
      else return ⟨digitsEnd name s.i + 1, s.best⟩ := by
  obtain ⟨p, t, rfl, hp⟩ := exists_of_digitAt h
  unfold scanRound
  simp only [h, ↓reduceIte]
  rw [← hp, strSlice_digits, lengthAt_append, Utf8.length_bytes]
  rfl

theorem scanRound_other {s : Scan} (h : digitAt name s.i = false) :
    scanRound table name s = .ok ⟨s.i + 1, s.best⟩ := by
  unfold scanRound
  rw [h]
  rfl

variable {name}

/-- A slice behind a number can be taken up to every boundary of the text. -/
theorem strSlice_ident_iff {i stop : ℕ} (h : digitAt name i = true)
    (hle : digitsEnd name i ≤ stop) :
    (∃ ident, strSlice name (digitsEnd name i) stop = .ok ident) ↔
      Utf8.isCharBoundary name stop = true := by
  constructor
  · rintro ⟨ident, hident⟩
    obtain ⟨p, t, rfl, -, rfl⟩ := strSlice_eq_ok_iff.mp hident
    rw [← String.utf8Len_append]
    exact Utf8.isCharBoundary_append _ t
  · intro hbound
    obtain ⟨q, r, rfl, hq⟩ := exists_of_digitsEnd h
    obtain ⟨k, rfl⟩ := Nat.exists_eq_add_of_le hle
    rw [← hq] at hbound ⊢
    obtain ⟨mid, rest, rfl, rfl⟩ := Utf8.exists_slice_of_isCharBoundary hbound
    refine ⟨mid, ?_⟩
    rw [← List.append_assoc]
    exact strSlice_append q mid rest rfl rfl

variable {table}

/-- A round goes to the next byte. -/
theorem scanRound_i {s s' : Scan} (h : scanRound table name s = .ok s') :
    s'.i = nextByte name s.i := by
  unfold nextByte
  cases hdigit : digitAt name s.i with
  | false =>
    rw [scanRound_other table name hdigit] at h
    cases h
    rfl
  | true =>
    rw [scanRound_digit table name hdigit, usizeAdd] at h
    -- the identifier is skipped only if it is not empty and ends within the name
    by_cases hpos : 0 < lengthAt name s.i
    · rw [if_pos hpos] at h
      by_cases hfits : digitsEnd name s.i + lengthAt name s.i < 2 ^ 64
      · rw [if_pos hfits] at h
        change (if identEnd name s.i ≤ utf8Len name then _ else _) = _ at h
        split at h
        next hle =>
          rw [if_pos rfl, if_pos ⟨hpos, hle⟩]
          cases hident : strSlice name (digitsEnd name s.i)
              (digitsEnd name s.i + lengthAt name s.i) with
          | error e =>
            rw [hident] at h
            cases h
          | ok ident =>
            rw [hident] at h
            cases h
            rfl
        next hle =>
          cases h
          rw [if_pos rfl, if_neg fun hboth => hle hboth.2]
      · rw [if_neg hfits] at h
        cases h
    · rw [if_neg hpos] at h
      cases h
      rw [if_pos rfl, if_neg fun hboth => hpos hboth.1]

/-- A round fails exactly if the length is out of range or ends inside a character. -/
theorem scanRound_ok_iff {s : Scan} :
    (∃ s', scanRound table name s = .ok s') ↔ LengthFits name s.i := by
  unfold LengthFits
  cases hdigit : digitAt name s.i with
  | false =>
    rw [scanRound_other table name hdigit]
    simp
  | true =>
    rw [scanRound_digit table name hdigit, usizeAdd]
    by_cases hpos : 0 < lengthAt name s.i
    · by_cases hfits : identEnd name s.i < 2 ^ 64
      · rw [if_pos hpos, if_pos (show digitsEnd name s.i + lengthAt name s.i < 2 ^ 64 from hfits)]
        have hident := strSlice_ident_iff hdigit
          (show digitsEnd name s.i ≤ identEnd name s.i from Nat.le_add_right _ _)
        change (∃ s', (if identEnd name s.i ≤ utf8Len name then _ else _) = _) ↔ _
        split
        next hle =>
          simp only [hpos, hfits, hle, forall_const, true_and, ← hident]
          show (∃ s', (strSlice name (digitsEnd name s.i) (identEnd name s.i) >>= _) = _) ↔ _
          cases strSlice name (digitsEnd name s.i) (identEnd name s.i) with
          | error e => simp [bind, Except.bind]
          | ok ident => simp [bind, Except.bind, pure, Except.pure]
        next hle => exact iff_of_true ⟨_, rfl⟩ fun _ _ => ⟨hfits, fun h => absurd h hle⟩
      · rw [if_pos hpos, if_neg (show ¬digitsEnd name s.i + lengthAt name s.i < 2 ^ 64 from hfits)]
        refine iff_of_false (fun h => ?_) fun h => hfits (h rfl hpos).1
        obtain ⟨s', hs'⟩ := h
        cases hs'
    · rw [if_neg hpos]
      exact iff_of_true ⟨_, rfl⟩ fun _ h => absurd h hpos

/-- The bytes at which the rounds of a scan from `i` start. -/
def Visits (name : List Char) : ℕ → ℕ → Prop :=
  Relation.ReflTransGen fun i j => i < utf8Len name ∧ j = nextByte name i

/-- A loop that goes through has come to the end of the text: there is fuel for the bytes that are
    left. -/
theorem scanLoop_end {fuel : ℕ} {s s' : Scan} (hfuel : utf8Len name ≤ s.i + fuel)
    (h : scanLoop table name fuel s = .ok s') : utf8Len name ≤ s'.i := by
  induction fuel generalizing s with
  | zero =>
    cases h
    exact hfuel
  | succ fuel ih =>
    rw [scanLoop, Utf8.length_bytes] at h
    split at h
    · cases hr : scanRound table name s with
      | error e =>
        rw [hr] at h
        cases h
      | ok s₁ =>
        rw [hr] at h
        refine @ih s₁ ?_ h
        have hlt := lt_nextByte name s.i
        rw [scanRound_i hr]
        omega
    next hge =>
      cases h
      exact not_lt.mp hge

/-- The loop goes through if every length it comes to fits. -/
theorem scanLoop_ok_iff {fuel : ℕ} {s : Scan} (hfuel : utf8Len name ≤ s.i + fuel) :
    (∃ s', scanLoop table name fuel s = .ok s') ↔
      ∀ i, Visits name s.i i → i < utf8Len name → LengthFits name i := by
  -- once the text is used up no round follows
  have hdone : ∀ {j}, utf8Len name ≤ j →
      ∀ i, Visits name j i → i < utf8Len name → LengthFits name i := by
    intro j hj i hvisits hi
    rcases hvisits.cases_head with rfl | ⟨k, ⟨hlt, -⟩, -⟩
    · exact absurd hi (not_lt.mpr hj)
    · exact absurd hlt (not_lt.mpr hj)
  induction fuel generalizing s with
  | zero => exact iff_of_true ⟨s, rfl⟩ (hdone hfuel)
  | succ fuel ih =>
    rw [scanLoop, Utf8.length_bytes]
    split
    next hlt =>
      have hround := @scanRound_ok_iff table name s
      cases hr : scanRound table name s with
      | error e =>
        refine iff_of_false (by simp [bind, Except.bind]) fun hall => ?_
        obtain ⟨s', hs'⟩ := hround.mpr (hall s.i .refl hlt)
        rw [hr] at hs'
        cases hs'
      | ok s₁ =>
        have hnext := scanRound_i hr
        have hfuel₁ : utf8Len name ≤ s₁.i + fuel := by
          have := lt_nextByte name s.i
          omega
        apply (@ih s₁ hfuel₁).trans
        rw [hnext]
        constructor
        · intro hall i hvisits hi
          rcases hvisits.cases_head with rfl | ⟨j, ⟨-, rfl⟩, hrest⟩
          · exact hround.mp ⟨s₁, hr⟩
          · exact hall i hrest hi
        · intro hall i hvisits hi
          exact hall i (.head ⟨hlt, rfl⟩ hvisits) hi
    next hge => exact iff_of_true ⟨s, rfl⟩ (hdone (not_lt.mp hge))

/-- Every length the scan of a mangled name comes to fits. -/
def LengthsFit (name : List Char) : Prop :=
  "_Z".toList.isPrefixOf name = true →
    ∀ i, Visits name 2 i → i < utf8Len name → LengthFits name i

theorem scan_ok_iff :
    (∃ s, scan table name = .ok s) ↔
      ∀ i, Visits name 2 i → i < utf8Len name → LengthFits name i := by
  apply scanLoop_ok_iff
  rw [Utf8.length_bytes]
  exact Nat.le_add_left _ _

/-- A scan reads the whole name. -/
theorem scan_end {s : Scan} (h : scan table name = .ok s) : utf8Len name ≤ s.i := by
  refine scanLoop_end ?_ h
  rw [Utf8.length_bytes]
  exact Nat.le_add_left _ _

theorem demangle_ok_iff : (∃ r, demangle table name = .ok r) ↔ LengthsFit name := by
  unfold demangle LengthsFit
  split
  next hmangled =>
    simp only [hmangled, forall_const]
    rw [← @scan_ok_iff table name]
    cases scan table name with
    | error e => simp [bind, Except.bind]
    | ok s => exact iff_of_true ⟨_, rfl⟩ ⟨s, rfl⟩
  next hplain => exact iff_of_true ⟨name, rfl⟩ fun h => absurd h hplain

end Scanning

/-! ## The whole function -/

/-- The stages after the scan cannot fail, whatever it finds. -/
theorem normalizeKernelName_of_demangle (table : CharTable) {raw : String}
    (h : demangle table raw.toList = .ok name) :
    ∃ result, normalizeKernelName table raw = .ok result ∧ result.utf8ByteSize ≤ 64 ∧
      (raw ≠ "" → result ≠ "") := by
  obtain ⟨cut, hcut, -⟩ := stripArgs_eq (stripTemplates 0 name)
  have hfinal := stripNumericSuffix_eq (trimEnd cut)
  obtain ⟨truncated, htruncated, -, hlen, -⟩ :=
    truncateUtf8Bytes_spec ((numericStem (trimEnd cut)).getD (trimEnd cut))
      (show 4 ≤ 64 by decide)
  obtain ⟨short, hshort, -, hlen', hnil⟩ :=
    truncateUtf8Bytes_spec raw.toList (show 4 ≤ 64 by decide)
  simp only [normalizeKernelName, h, hcut, hfinal, htruncated, hshort, bind, Except.bind]
  split
  · refine ⟨String.ofList short, rfl, by rwa [String.utf8ByteSize_ofList], ?_⟩
    -- nothing is left: the name itself is cut to the limit instead
    intro hraw hempty
    apply hraw
    have hlist : short = [] := by simpa using congrArg String.toList hempty
    simpa using congrArg String.ofList (hnil hlist)
  next hsome =>
    refine ⟨String.ofList truncated, rfl, by rwa [String.utf8ByteSize_ofList], fun _ hempty => ?_⟩
    apply hsome
    have hlist : truncated = [] := by simpa using congrArg String.toList hempty
    rw [hlist]
    rfl

/-- The normalization succeeds on exactly the names whose lengths fit. The result has at most 64
    bytes and is not empty unless the name is, and a scan has then read the whole name. -/
theorem normalizeKernelName_ok_iff (table : CharTable) (raw : String) :
    (∃ result, normalizeKernelName table raw = .ok result ∧ result.utf8ByteSize ≤ 64 ∧
        (raw ≠ "" → result ≠ "") ∧
        ("_Z".toList.isPrefixOf raw.toList = true →
          ∃ s, scan table raw.toList = .ok s ∧ utf8Len raw.toList ≤ s.i)) ↔
      LengthsFit raw.toList := by
  constructor
  · rintro ⟨result, hresult, -, -, -⟩
    apply (@demangle_ok_iff table raw.toList).mp
    cases h : demangle table raw.toList with
    | ok name => exact ⟨name, rfl⟩
    | error e =>
      rw [normalizeKernelName, h] at hresult
      cases hresult
  · intro hfit
    obtain ⟨name, hname⟩ := (@demangle_ok_iff table raw.toList).mpr hfit
    obtain ⟨result, hresult, hlen, hne⟩ := normalizeKernelName_of_demangle table hname
    refine ⟨result, hresult, hlen, hne, fun hmangled => ?_⟩
    obtain ⟨s, hs⟩ := (@scan_ok_iff table raw.toList).mpr (hfit hmangled)
    exact ⟨s, hs, scan_end hs⟩

/-- The table of a machine that knows no letters but those of ASCII. -/
def CharTable.asciiOnly : CharTable := ⟨Char.isAlphanum, fun _ _ => rfl⟩

/-- A length that ends inside a character and one that is the greatest `usize`. -/
theorem normalizeKernelName_panics :
    normalizeKernelName .asciiOnly "_Z1é" = .error .slice ∧
      normalizeKernelName .asciiOnly "_Z18446744073709551615" = .error .overflow := by
  decide +kernel

/-! ## Nested names -/

/-- An identifier of a mangled name: ASCII letters, digits and underscores, no digit first. -/
structure Ident where
  chars : List Char
  valid : ∀ c ∈ chars, c.isAlphanum = true ∨ c = '_'
  head : chars.head?.any Char.isDigit = false

namespace Ident

/-- The identifier behind its decimal length. -/
def encode (ident : Ident) : List Char := Nat.toDigits 10 ident.chars.length ++ ident.chars

theorem ascii (ident : Ident) {c : Char} (hc : c ∈ ident.chars) : c.val.toNat ≤ 127 := by
  rcases ident.valid c hc with h | rfl
  · simp only [Char.isAlphanum, Char.isAlpha, Char.isUpper, Char.isLower, Char.isDigit,
      Bool.or_eq_true, Bool.and_eq_true, decide_eq_true_eq] at h
    rcases h with (⟨-, h⟩ | ⟨-, h⟩) | ⟨-, h⟩
    · exact h.trans (by decide)
    · exact h.trans (by decide)
    · exact h.trans (by decide)
  · decide

theorem utf8Len_chars (ident : Ident) : utf8Len ident.chars = ident.chars.length :=
  Utf8.utf8Len_ascii fun _ => ident.ascii

/-- Nothing in an identifier is skipped, cut off or trimmed. -/
theorem plain (ident : Ident) {c : Char} (hc : c ∈ ident.chars) :
    c ≠ '<' ∧ c ≠ '>' ∧ c ≠ '(' ∧ isWhitespace c = false := by
  have hv : (48 ≤ c.val.toNat ∧ c.val.toNat ≤ 57) ∨ (65 ≤ c.val.toNat ∧ c.val.toNat ≤ 90) ∨
      c.val.toNat = 95 ∨ (97 ≤ c.val.toNat ∧ c.val.toNat ≤ 122) := by
    -- letters, digits and the underscore, by their numbers
    rcases ident.valid c hc with h | rfl
    · simp only [Char.isAlphanum, Char.isAlpha, Char.isUpper, Char.isLower, Char.isDigit,
        Bool.or_eq_true, Bool.and_eq_true, decide_eq_true_eq, ge_iff_le,
        UInt32.le_iff_toNat_le] at h
      have h0 : 'A'.val.toNat = 65 := rfl
      have h1 : 'Z'.val.toNat = 90 := rfl
      have h2 : 'a'.val.toNat = 97 := rfl
      have h3 : 'z'.val.toNat = 122 := rfl
      have h4 : '0'.val.toNat = 48 := rfl
      have h5 : '9'.val.toNat = 57 := rfl
      omega
    · exact .inr (.inr (.inl rfl))
  refine ⟨?_, ?_, ?_, ?_⟩
  · rintro rfl
    exact absurd hv (by decide)
  · rintro rfl
    exact absurd hv (by decide)
  · rintro rfl
    exact absurd hv (by decide)
  · simp only [isWhitespace, Bool.or_eq_false_iff, Bool.and_eq_false_iff, decide_eq_false_iff_not,
      beq_eq_false_iff_ne]
    omega

end Ident

/-- `_ZN<len><ident>..E<suffix>`. -/
def mangledName (idents : List Ident) (suffix : List Char) : List Char :=
  "_ZN".toList ++ idents.flatMap Ident.encode ++ 'E' :: suffix

section Nested

variable {table : CharTable}

/-- The longer one of two identifiers, the first one if they are equally long. -/
def longer (best : List Char) (ident : Ident) : List Char :=
  if utf8Len best < utf8Len ident.chars then ident.chars else best

theorem betterIdent_chars (best : List Char) (ident : Ident) :
    betterIdent table best ident.chars = longer best ident := by
  have hall : ident.chars.all (fun c => table.isAlphanumeric c || c == '_') = true := by
    rw [List.all_eq_true]
    intro c hc
    rw [table.ascii c (ident.ascii hc)]
    rcases ident.valid c hc with h | rfl
    · rw [h, Bool.true_or]
    · rw [beq_self_eq_true, Bool.or_true]
  unfold betterIdent longer
  simp only [hall, and_true, gt_iff_lt]

/-- The first longest identifier is what is left when the identifiers are compared in order. -/
theorem foldl_longer (idents : List Ident) :
    idents.foldl longer [] =
      ((idents.argmax fun ident => ident.chars.length).map Ident.chars).getD [] := by
  induction idents using List.reverseRecOn with
  | nil => rfl
  | append_singleton idents ident ih =>
    rw [List.foldl_append, List.argmax_concat, ih]
    show longer _ ident = _
    unfold longer
    cases idents.argmax fun ident => ident.chars.length with
    | none =>
      cases hchars : ident.chars with
      | nil => simp [hchars]
      | cons c t => simp [hchars, String.utf8Len_cons, c.utf8Size_pos]
    | some best =>
      simp only [Option.map_some, Option.getD_some, Ident.utf8Len_chars]
      split_ifs <;> rfl

/-- Behind the last digit of a name nothing is found any more. -/
theorem scanLoop_rest {name : List Char} (best : List Char) {fuel i : ℕ}
    (h : ∀ k, i ≤ k → digitAt name k = false) :
    ∃ j, scanLoop table name fuel ⟨i, best⟩ = .ok ⟨j, best⟩ := by
  induction fuel generalizing i with
  | zero => exact ⟨i, rfl⟩
  | succ fuel ih =>
    rw [scanLoop, scanRound_other table name (h i le_rfl)]
    split
    · exact @ih (i + 1) fun k hk => h k (by omega)
    · exact ⟨i, rfl⟩

theorem digitAt_rest {p t : List Char} (ht : ∀ c ∈ t, c.isDigit = false) {k : ℕ}
    (hk : utf8Len p ≤ k) : digitAt (p ++ t) k = false := by
  rw [← Bool.not_eq_true]
  intro hdigit
  obtain ⟨q, r, heq, rfl⟩ := exists_of_digitAt hdigit
  rw [heq, digitAt_append] at hdigit
  -- what starts at the digit is a part of `t`
  have hr : ∀ c ∈ r, c ∈ t := by
    rcases List.append_eq_append_iff.mp heq with ⟨mid, rfl, rfl⟩ | ⟨mid, rfl, rfl⟩
    · exact fun c hc => List.mem_append_right mid hc
    · rw [String.utf8Len_append] at hk
      cases mid with
      | nil => exact fun c hc => hc
      | cons c mid =>
        rw [String.utf8Len_cons] at hk
        exact absurd hk (by have := c.utf8Size_pos; omega)
  cases r with
  | nil => cases hdigit
  | cons c r => exact absurd hdigit (by simp [ht c (hr c List.mem_cons_self)])

theorem digits_zeros (k n : ℕ) :
    (List.replicate k '0' ++ Nat.toDigits 10 n).all Char.isDigit = true := by
  rw [List.all_eq_true]
  intro c hc
  rcases List.mem_append.mp hc with hzero | hdigit
  · rw [List.eq_of_mem_replicate hzero]
    rfl
  · exact Nat.isDigit_of_mem_toDigits (by decide) le_rfl hdigit

/-- Leading zeros, as empty identifiers leave them, do not change a length. -/
theorem parseUsize_zeros {k n : ℕ} (hn : n < 2 ^ 64) :
    parseUsize (List.replicate k '0' ++ Nat.toDigits 10 n) = some n := by
  unfold parseUsize
  rw [Nat.ofDigitChars_append, Nat.ofDigitChars_replicate_zero, Nat.mul_zero,
    Nat.ofDigitChars_ten_toDigits]
  exact if_pos hn

theorem takeWhile_digits {digits t : List Char} (hdigits : digits.all Char.isDigit = true)
    (ht : t.head?.any Char.isDigit = false) : (digits ++ t).takeWhile Char.isDigit = digits := by
  rw [List.takeWhile_append_of_pos fun c hc => List.all_eq_true.mp hdigits c hc]
  cases t with
  | nil => simp
  | cons c t =>
    have hc : c.isDigit = false := by simpa using ht
    rw [List.takeWhile_cons, hc]
    simp

/-- The round that reads an identifier. -/
theorem scanRound_ident (p rest best : List Char) (k : ℕ) (ident : Ident)
    (hne : ident.chars ≠ [])
    (hlen : utf8Len (p ++ (List.replicate k '0' ++ ident.encode ++ rest)) < 2 ^ 64) :
    scanRound table (p ++ (List.replicate k '0' ++ ident.encode ++ rest)) ⟨utf8Len p, best⟩ =
      .ok ⟨utf8Len (p ++ (List.replicate k '0' ++ ident.encode)), longer best ident⟩ := by
  have hdigits := digits_zeros k ident.chars.length
  -- the zeros and the length are one run of digits
  generalize hds : List.replicate k '0' ++ Nat.toDigits 10 ident.chars.length = digits at hdigits
  have hsplit : List.replicate k '0' ++ ident.encode = digits ++ ident.chars := by
    rw [← hds, Ident.encode, List.append_assoc]
  have hnonempty : digits ≠ [] := by
    rw [← hds]
    exact List.append_ne_nil_of_right_ne_nil _ Nat.toDigits_ne_nil
  rw [hsplit] at hlen ⊢
  have hlt : ident.chars.length < 2 ^ 64 := by
    rw [← ident.utf8Len_chars]
    simp only [String.utf8Len_append] at hlen
    omega
  -- the run ends there: an identifier does not start with a digit
  have hhead : (ident.chars ++ rest).head?.any Char.isDigit = false := by
    rw [List.head?_append_of_ne_nil _ hne]
    exact ident.head
  have htake : ((digits ++ ident.chars ++ rest).takeWhile Char.isDigit) = digits := by
    rw [List.append_assoc]
    exact takeWhile_digits hdigits hhead
  have hdigit : digitAt (p ++ (digits ++ ident.chars ++ rest)) (utf8Len p) = true := by
    rw [digitAt_append]
    cases digits with
    | nil => exact absurd rfl hnonempty
    | cons d digits => simpa using (List.all_eq_true.mp hdigits) d List.mem_cons_self
  have hlength : lengthAt (p ++ (digits ++ ident.chars ++ rest)) (utf8Len p) =
      ident.chars.length := by
    rw [lengthAt_append, htake, ← hds, parseUsize_zeros hlt]
    rfl
  have hend : digitsEnd (p ++ (digits ++ ident.chars ++ rest)) (utf8Len p) =
      utf8Len (p ++ digits) := by
    rw [digitsEnd_append, htake, String.utf8Len_append]
  have hstop : utf8Len (p ++ digits) + ident.chars.length =
      utf8Len (p ++ (digits ++ ident.chars)) := by
    rw [← ident.utf8Len_chars, ← String.utf8Len_append, List.append_assoc]
  have hle : utf8Len (p ++ (digits ++ ident.chars)) ≤
      utf8Len (p ++ (digits ++ ident.chars ++ rest)) := by
    simp only [String.utf8Len_append]
    omega
  -- which decides all branches of the round
  rw [scanRound_digit table _ hdigit, hlength, hend, usizeAdd, hstop,
    if_pos (List.length_pos_iff.mpr hne), if_pos (hle.trans_lt hlen)]
  show (if utf8Len (p ++ (digits ++ ident.chars)) ≤ _ then _ else _) = _
  rw [if_pos hle, ← @betterIdent_chars table]
  rw [show p ++ (digits ++ ident.chars ++ rest) = (p ++ digits) ++ ident.chars ++ rest by simp,
    strSlice_append (p ++ digits) ident.chars rest rfl]
  · rfl
  · rw [← String.utf8Len_append, List.append_assoc]

/-- One round of the loop. -/
theorem scanLoop_round {name : List Char} {fuel : ℕ} {s s' : Scan} (hlt : s.i < utf8Len name)
    (h : scanRound table name s = .ok s') :
    scanLoop table name (fuel + 1) s = scanLoop table name fuel s' := by
  rw [scanLoop, Utf8.length_bytes, if_pos hlt, h]
  rfl

/-- What the scan still has to read: zeros of empty identifiers it has come by, the encoded
    identifiers, and the end of the name. -/
def nestedRest (zeros : ℕ) (idents : List Ident) (suffix : List Char) : List Char :=
  List.replicate zeros '0' ++ (idents.flatMap Ident.encode ++ 'E' :: suffix)

theorem nestedRest_cons (zeros : ℕ) (ident : Ident) (idents : List Ident) (suffix : List Char) :
    nestedRest zeros (ident :: idents) suffix =
      List.replicate zeros '0' ++ ident.encode ++ nestedRest 0 idents suffix := by
  simp [nestedRest]

/-- The length of an empty identifier is read together with the next one. -/
theorem nestedRest_empty (zeros : ℕ) {ident : Ident} (h : ident.chars = []) (idents : List Ident)
    (suffix : List Char) :
    nestedRest zeros (ident :: idents) suffix = nestedRest (zeros + 1) idents suffix := by
  have hencode : ident.encode = ['0'] := by
    rw [Ident.encode, h]
    rfl
  simp [nestedRest, hencode, List.replicate_succ']

theorem scanLoop_nestedRest_nil {suffix : List Char} (hsuffix : ∀ c ∈ suffix, c.isDigit = false)
    (p best : List Char) (zeros fuel : ℕ)
    (hfuel : utf8Len (p ++ nestedRest zeros [] suffix) ≤ utf8Len p + fuel) :
    ∃ j, scanLoop table (p ++ nestedRest zeros [] suffix) fuel ⟨utf8Len p, best⟩ =
      .ok ⟨j, best⟩ := by
  have hrest : ∀ c ∈ 'E' :: suffix, c.isDigit = false :=
    List.forall_mem_cons.mpr ⟨rfl, hsuffix⟩
  have hname : p ++ nestedRest zeros [] suffix =
      p ++ List.replicate zeros '0' ++ 'E' :: suffix := by
    simp [nestedRest]
  cases zeros with
  | zero =>
    apply scanLoop_rest
    intro i hi
    exact digitAt_rest hrest hi
  | succ zeros =>
    -- the zeros are a length of their own, and the scan goes on behind the `E`
    have hdigit : digitAt (p ++ nestedRest (zeros + 1) [] suffix) (utf8Len p) = true := by
      rw [digitAt_append, nestedRest, List.replicate_succ]
      rfl
    have htake : (nestedRest (zeros + 1) [] suffix).takeWhile Char.isDigit =
        List.replicate (zeros + 1) '0' :=
      takeWhile_digits (List.all_eq_true.mpr fun c hc => by rw [List.eq_of_mem_replicate hc]; rfl)
        rfl
    have hzero : lengthAt (p ++ nestedRest (zeros + 1) [] suffix) (utf8Len p) = 0 := by
      rw [lengthAt_append, htake, parseUsize, Nat.ofDigitChars_replicate_zero]
      rfl
    have hround := scanRound_digit table (p ++ nestedRest (zeros + 1) [] suffix)
      (s := ⟨utf8Len p, best⟩) hdigit
    rw [hzero, if_neg (lt_irrefl 0), digitsEnd_append, htake, ← String.utf8Len_append] at hround
    have hpos : 0 < utf8Len (nestedRest (zeros + 1) [] suffix) := by
      simp [nestedRest, String.utf8Len_append, String.utf8Len_cons, Char.utf8Size_pos]
    rw [String.utf8Len_append] at hfuel
    obtain ⟨fuel, rfl⟩ : ∃ f, fuel = f + 1 := Nat.exists_eq_succ_of_ne_zero (by omega)
    rw [scanLoop_round (by rw [String.utf8Len_append]; exact Nat.lt_add_of_pos_right hpos) hround,
      hname]
    apply scanLoop_rest
    intro i hi
    exact digitAt_rest hrest (by omega)

/-- The scan stays in step with the encoding. -/
theorem scanLoop_nestedRest {suffix : List Char} (hsuffix : ∀ c ∈ suffix, c.isDigit = false)
    (idents : List Ident) (p best : List Char) (zeros fuel : ℕ)
    (hlen : utf8Len (p ++ nestedRest zeros idents suffix) < 2 ^ 64)
    (hfuel : utf8Len (p ++ nestedRest zeros idents suffix) ≤ utf8Len p + fuel) :
    ∃ j, scanLoop table (p ++ nestedRest zeros idents suffix) fuel ⟨utf8Len p, best⟩ =
      .ok ⟨j, idents.foldl longer best⟩ := by
  induction idents generalizing p best zeros fuel with
  | nil => exact scanLoop_nestedRest_nil hsuffix p best zeros fuel hfuel
  | cons ident idents ih =>
    by_cases hempty : ident.chars = []
    · -- an empty identifier is one more zero in front of the next length
      have hbest : longer best ident = best := by
        rw [longer, hempty]
        exact if_neg (Nat.not_lt_zero _)
      rw [nestedRest_empty zeros hempty] at hlen hfuel ⊢
      rw [List.foldl_cons, hbest]
      exact ih p best (zeros + 1) fuel hlen hfuel
    · -- one round reads the identifier, and needs one unit of fuel
      rw [nestedRest_cons] at hlen hfuel ⊢
      have hround := @scanRound_ident table p (nestedRest 0 idents suffix) best zeros ident
        hempty hlen
      have hlt : utf8Len p < utf8Len (p ++ (List.replicate zeros '0' ++ ident.encode)) := by
        have hpos : 0 < utf8Len ident.chars := by
          rw [ident.utf8Len_chars]
          exact List.length_pos_iff.mpr hempty
        simp only [Ident.encode, String.utf8Len_append]
        omega
      rw [← List.append_assoc] at hround hlen hfuel ⊢
      rw [String.utf8Len_append] at hfuel
      obtain ⟨fuel, rfl⟩ : ∃ f, fuel = f + 1 := Nat.exists_eq_succ_of_ne_zero (by omega)
      rw [scanLoop_round (by rw [String.utf8Len_append]; exact hlt.trans_le (Nat.le_add_right _ _))
        hround, List.foldl_cons]
      apply ih _ _ 0 fuel hlen
      rw [String.utf8Len_append]
      omega

end Nested

theorem stripTemplates_plain {s : List Char} (h : ∀ c ∈ s, c ≠ '<' ∧ c ≠ '>') :
    stripTemplates 0 s = s := by
  induction s with
  | nil => rfl
  | cons c s ih =>
    obtain ⟨hopen, hclose⟩ := h c List.mem_cons_self
    rw [stripTemplates, if_neg hopen, if_neg fun h => hclose h.1, if_pos rfl,
      ih fun d hd => h d (List.mem_cons_of_mem c hd)]

theorem stripTemplates_ident (ident : Ident) : stripTemplates 0 ident.chars = ident.chars :=
  stripTemplates_plain fun _ hc => ⟨(ident.plain hc).1, (ident.plain hc).2.1⟩

theorem trimEnd_ident (ident : Ident) : trimEnd ident.chars = ident.chars := by
  unfold trimEnd
  rw [List.rdropWhile_eq_self_iff]
  intro hne
  rw [Bool.not_eq_true]
  exact (ident.plain (List.getLast_mem hne)).2.2.2

/-- An ASCII text is cut to its first `n` characters. -/
theorem truncateUtf8Bytes_ascii {s : List Char} (hs : ∀ c ∈ s, c.val.toNat ≤ 127) (n : ℕ) :
    truncateUtf8Bytes s n = .ok (s.take n) := by
  have hlen : utf8Len (s.take n) = min n s.length := by
    rw [Utf8.utf8Len_ascii fun c hc => hs c (List.mem_of_mem_take hc), List.length_take]
  apply truncateUtf8Bytes_eq_ok_iff.mpr
  refine ⟨hlen.trans_le (min_le_left _ _), ?_⟩
  rcases le_or_gt s.length n with hle | hlt
  · exact .inl (List.take_of_length_le hle).symm
  · refine .inr ⟨s[n], s.drop (n + 1), ?_, ?_⟩
    · rw [List.getElem_cons_drop, List.take_append_drop]
    · have hpos := s[n].utf8Size_pos
      omega

/-- The scan of a nested name finds its first longest identifier. -/
theorem scan_mangledName (table : CharTable) {idents : List Ident} {suffix : List Char}
    (hsuffix : ∀ c ∈ suffix, c.isDigit = false)
    (hlen : utf8Len (mangledName idents suffix) < 2 ^ 64) :
    ∃ j, scan table (mangledName idents suffix) = .ok ⟨j, idents.foldl longer []⟩ := by
  have hname : mangledName idents suffix = "_ZN".toList ++ nestedRest 0 idents suffix := by
    simp [mangledName, nestedRest]
  rw [hname] at hlen ⊢
  -- the `N` at position two is skipped
  have hround : scanRound table ("_ZN".toList ++ nestedRest 0 idents suffix) ⟨2, []⟩ =
      .ok ⟨3, []⟩ :=
    scanRound_other table _ (digitAt_append "_Z".toList ('N' :: nestedRest 0 idents suffix))
  have hsize : utf8Len ("_ZN".toList ++ nestedRest 0 idents suffix) =
      3 + utf8Len (nestedRest 0 idents suffix) := by
    rw [String.utf8Len_append]
    rfl
  unfold scan
  rw [Utf8.length_bytes]
  obtain ⟨fuel, hfuel⟩ : ∃ f, utf8Len ("_ZN".toList ++ nestedRest 0 idents suffix) = f + 1 :=
    Nat.exists_eq_succ_of_ne_zero (by omega)
  rw [hfuel, scanLoop_round (by show 2 < _; omega) hround]
  apply scanLoop_nestedRest hsuffix idents "_ZN".toList [] 0 fuel hlen
  show _ ≤ 3 + fuel
  omega

/-- A nested name becomes the first longest of its identifiers, without a number behind the last
    underscore and cut to 64 characters, unless nothing is left of it then. -/
theorem normalizeKernelName_mangledName (table : CharTable) {idents : List Ident}
    (hne : idents ≠ []) {suffix : List Char} (hsuffix : ∀ c ∈ suffix, c.isDigit = false)
    (hlen : utf8Len (mangledName idents suffix) < 2 ^ 64) :
    ∃ ident, (idents.argmax fun ident => ident.chars.length) = some ident ∧
      let short := ((numericStem ident.chars).getD ident.chars).take 64
      (short ≠ [] →
        normalizeKernelName table (String.ofList (mangledName idents suffix)) =
          .ok (String.ofList short)) := by
  cases hmax : idents.argmax fun ident => ident.chars.length with
  | none => exact absurd (List.argmax_eq_none.mp hmax) hne
  | some ident =>
    refine ⟨ident, rfl, ?_⟩
    intro short hshort
    have hchars : ident.chars ≠ [] := by
      intro hnil
      apply hshort
      simp [short, hnil, numericStem]
    have hbest : idents.foldl longer [] = ident.chars := by
      rw [foldl_longer, hmax]
      rfl
    obtain ⟨j, hscan⟩ := scan_mangledName table hsuffix hlen
    -- the scan has kept the first longest identifier
    have hdemangle : demangle table (mangledName idents suffix) = .ok ident.chars := by
      unfold demangle
      rw [if_pos (show "_Z".toList.isPrefixOf (mangledName idents suffix) = true from rfl), hscan,
        hbest]
      show Except.ok (if ident.chars.isEmpty then _ else ident.chars) = _
      rw [if_neg (by simpa using hchars)]
    -- of the later stages only the numeric suffix and the cut can find something
    have hargs : stripArgs ident.chars = .ok ident.chars :=
      stripArgs_of_notMem fun hmem => (ident.plain hmem).2.2.1 rfl
    have hascii : ∀ c ∈ (numericStem ident.chars).getD ident.chars, c.val.toNat ≤ 127 := by
      intro c hc
      cases hstem : numericStem ident.chars with
      | none =>
        rw [hstem] at hc
        exact ident.ascii hc
      | some stem =>
        rw [hstem] at hc
        obtain ⟨digits, -, -, heq⟩ := numericStem_eq_some hstem
        exact ident.ascii (heq ▸ List.mem_append_left _ hc)
    simp only [normalizeKernelName, String.toList_ofList, hdemangle, stripTemplates_ident, hargs,
      trimEnd_ident, stripNumericSuffix_eq, truncateUtf8Bytes_ascii hascii, bind, Except.bind]
    exact if_neg fun hempty => hshort (List.isEmpty_iff.mp hempty)

/-- The identifiers of `cuda::detail::softmax_warp_forward_2`. -/
def softmaxIdents : List Ident :=
  [⟨"cuda".toList, by simp, by simp⟩, ⟨"detail".toList, by simp, by simp⟩,
    ⟨"softmax_warp_forward_2".toList, by simp, by simp⟩]

theorem normalizeKernelName_softmax :
    normalizeKernelName .asciiOnly "_ZN4cuda6detail22softmax_warp_forward_2EvPT_" =
      .ok "softmax_warp_forward" := by
  obtain ⟨ident, hident, h⟩ :=
    normalizeKernelName_mangledName .asciiOnly
      (show softmaxIdents ≠ [] by simp [softmaxIdents])
      (show ∀ c ∈ "vPT_".toList, c.isDigit = false by simp)
      (by decide +kernel)
  have hlongest : ident.chars = "softmax_warp_forward_2".toList := by
    rw [← Option.some.inj hident]
  rw [hlongest] at h
  exact h (by decide +kernel)

end Profi
