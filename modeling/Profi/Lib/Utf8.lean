import Mathlib

/-!
# Byte Positions in UTF-8 Texts

A text is a list of characters. Programs address it by the position of a byte, and a position
inside a character is not the end of any slice. `splitAt` cuts a text at a position, if it can be
cut there; slices, boundaries and searches are described through it (`splitAt_eq_some_iff`,
`slice_eq_some_iff`).

The bytes below 128 of an encoded text are its ASCII characters (`exists_of_ascii`), so a loop
over the bytes that stops at one of them has stopped at a boundary.
-/

namespace Utf8

/-! ## Bytes -/

/-- The encoded text. -/
def bytes (s : List Char) : List UInt8 := s.flatMap String.utf8EncodeChar

@[simp] theorem bytes_nil : bytes [] = [] := rfl

theorem bytes_cons (c : Char) (s : List Char) :
    bytes (c :: s) = String.utf8EncodeChar c ++ bytes s := rfl

theorem bytes_append (s t : List Char) : bytes (s ++ t) = bytes s ++ bytes t :=
  List.flatMap_append

@[simp] theorem utf8Len_nil : String.utf8Len [] = 0 := rfl

@[simp] theorem length_bytes (s : List Char) : (bytes s).length = String.utf8Len s := by
  induction s with
  | nil => rfl
  | cons c s ih =>
    rw [bytes_cons, List.length_append, String.length_utf8EncodeChar, ih, String.utf8Len_cons,
      Nat.add_comm]

theorem drop_bytes (s t : List Char) : (bytes (s ++ t)).drop (String.utf8Len s) = bytes t := by
  rw [bytes_append, ← length_bytes, List.drop_left]

variable {s : List Char} {n : ℕ} {c : Char} {p : Char → Bool}

/-- A character of one byte is encoded as itself. -/
theorem encode_ascii (hc : c.val.toNat ≤ 127) :
    String.utf8EncodeChar c = [UInt8.ofNat c.val.toNat] := by
  exact if_pos hc

theorem utf8Size_ascii (hc : c.val.toNat ≤ 127) : c.utf8Size = 1 := by
  rw [← String.length_utf8EncodeChar, encode_ascii hc]
  rfl

theorem utf8Len_eq_length (hs : ∀ c ∈ s, c.utf8Size = 1) : String.utf8Len s = s.length := by
  induction s with
  | nil => rfl
  | cons c s ih =>
    rw [String.utf8Len_cons, ih fun d hd => hs d (List.mem_cons_of_mem c hd),
      hs c List.mem_cons_self, List.length_cons]

theorem utf8Len_ascii (hs : ∀ c ∈ s, c.val.toNat ≤ 127) : String.utf8Len s = s.length :=
  utf8Len_eq_length fun c hc => utf8Size_ascii (hs c hc)

theorem length_le_utf8Len (s : List Char) : s.length ≤ String.utf8Len s := by
  induction s with
  | nil => exact le_rfl
  | cons c s ih =>
    have hpos := c.utf8Size_pos
    rw [List.length_cons, String.utf8Len_cons]
    omega

theorem byte_ge {k : ℕ} (hk : 128 ≤ k) (hlt : k < 256) : 128 ≤ (UInt8.ofNat k).toNat := by
  rw [UInt8.toNat_ofNat', Nat.mod_eq_of_lt hlt]
  exact hk

/-- The bytes of a longer character are no ASCII bytes. -/
theorem encode_not_ascii (hc : ¬c.val.toNat ≤ 127) {b : UInt8} (hb : b ∈ String.utf8EncodeChar c) :
    128 ≤ b.toNat := by
  unfold String.utf8EncodeChar at hb
  simp only [if_neg hc] at hb
  split_ifs at hb
  · rcases List.mem_pair.mp hb with rfl | rfl <;> apply byte_ge <;> omega
  · simp only [List.mem_cons, List.not_mem_nil, or_false] at hb
    rcases hb with rfl | rfl | rfl <;> apply byte_ge <;> omega
  · simp only [List.mem_cons, List.not_mem_nil, or_false] at hb
    rcases hb with rfl | rfl | rfl | rfl <;> apply byte_ge <;> omega

/-- An ASCII byte is an ASCII character, at a boundary of the text. -/
theorem exists_of_ascii {i : ℕ} {b : UInt8} (h : (bytes s)[i]? = some b) (hb : b.toNat ≤ 127) :
    ∃ p c t, s = p ++ c :: t ∧ String.utf8Len p = i ∧ c.val.toNat = b.toNat := by
  induction s generalizing i with
  | nil => cases h
  | cons c s ih =>
    rw [bytes_cons] at h
    by_cases hi : i < (String.utf8EncodeChar c).length
    · -- the byte is one of the first character, which then is a single byte
      rw [List.getElem?_append_left hi] at h
      have hmem : b ∈ String.utf8EncodeChar c := List.mem_of_getElem? h
      have hc : c.val.toNat ≤ 127 := by
        by_contra hc
        exact absurd (encode_not_ascii hc hmem) (by omega)
      rw [encode_ascii hc] at h hi
      have hzero : i = 0 := by simpa using hi
      subst hzero
      refine ⟨[], c, s, rfl, rfl, ?_⟩
      have hbyte : UInt8.ofNat c.val.toNat = b := by simpa using h
      rw [← hbyte, UInt8.toNat_ofNat', Nat.mod_eq_of_lt (by omega)]
    · rw [List.getElem?_append_right (not_lt.mp hi)] at h
      obtain ⟨p, d, t, rfl, hp, hd⟩ := ih h
      refine ⟨c :: p, d, t, rfl, ?_, hd⟩
      rw [String.utf8Len_cons, hp, ← String.length_utf8EncodeChar]
      omega

/-! ## Splitting at a position -/

/-- The two parts of a text at a byte position, if no character is cut in two. -/
def splitAt : List Char → ℕ → Option (List Char × List Char)
  | s, 0 => some ([], s)
  | [], _ + 1 => none
  | c :: s, n + 1 =>
    if c.utf8Size ≤ n + 1 then
      (splitAt s (n + 1 - c.utf8Size)).map fun parts => (c :: parts.1, parts.2)
    else none

theorem splitAt_append (p t : List Char) : splitAt (p ++ t) (String.utf8Len p) = some (p, t) := by
  induction p with
  | nil => cases t <;> rfl
  | cons c p ih =>
    have hpos : 0 < c.utf8Size := c.utf8Size_pos
    obtain ⟨k, hk⟩ : ∃ k, String.utf8Len (c :: p) = k + 1 :=
      Nat.exists_eq_succ_of_ne_zero (by rw [String.utf8Len_cons]; omega)
    rw [hk, List.cons_append, splitAt]
    rw [String.utf8Len_cons] at hk
    rw [if_pos (by omega), show k + 1 - c.utf8Size = String.utf8Len p by omega, ih]
    rfl

theorem splitAt_eq_some_iff {s p t : List Char} :
    splitAt s n = some (p, t) ↔ s = p ++ t ∧ String.utf8Len p = n := by
  constructor
  · intro h
    induction s generalizing n p with
    | nil =>
      cases n with
      | zero => cases h; exact ⟨rfl, rfl⟩
      | succ n => cases h
    | cons c s ih =>
      cases n with
      | zero => cases h; exact ⟨rfl, rfl⟩
      | succ n =>
        rw [splitAt] at h
        split at h
        next hfits =>
          obtain ⟨⟨q, t'⟩, hq, heq⟩ := Option.map_eq_some_iff.mp h
          cases heq
          obtain ⟨rfl, hlen⟩ := ih hq
          refine ⟨rfl, ?_⟩
          rw [String.utf8Len_cons, hlen]
          omega
        · cases h
  · rintro ⟨rfl, rfl⟩
    exact splitAt_append p t

/-- A text of single bytes is cut anywhere. -/
theorem splitAt_eq_take (hs : ∀ c ∈ s, c.utf8Size = 1) (hn : n ≤ s.length) :
    splitAt s n = some (s.take n, s.drop n) := by
  apply splitAt_eq_some_iff.mpr
  refine ⟨(List.take_append_drop n s).symm, ?_⟩
  rw [utf8Len_eq_length fun c hc => hs c (List.mem_of_mem_take hc), List.length_take,
    Nat.min_eq_left hn]

/-- `s[start..stop]`. -/
def slice (s : List Char) (start stop : ℕ) : Option (List Char) :=
  if start ≤ stop then do
    let (upto, _) ← splitAt s stop
    let (_, mid) ← splitAt upto start
    return mid
  else none

theorem slice_append (p mid t : List Char) :
    slice (p ++ mid ++ t) (String.utf8Len p) (String.utf8Len p + String.utf8Len mid) =
      some mid := by
  unfold slice
  rw [if_pos (Nat.le_add_right _ _), ← String.utf8Len_append, splitAt_append]
  show (splitAt (p ++ mid) (String.utf8Len p)).bind _ = _
  rw [splitAt_append]
  rfl

theorem slice_eq_some_iff {s mid : List Char} {start stop : ℕ} :
    slice s start stop = some mid ↔
      ∃ p t, s = p ++ mid ++ t ∧ String.utf8Len p = start ∧
        String.utf8Len p + String.utf8Len mid = stop := by
  constructor
  · intro h
    unfold slice at h
    split at h
    · obtain ⟨⟨upto, t⟩, hupto, h⟩ := Option.bind_eq_some_iff.mp h
      obtain ⟨⟨p, mid'⟩, hmid, h⟩ := Option.bind_eq_some_iff.mp h
      cases h
      obtain ⟨rfl, hstop⟩ := splitAt_eq_some_iff.mp hupto
      obtain ⟨rfl, hstart⟩ := splitAt_eq_some_iff.mp hmid
      rw [String.utf8Len_append] at hstop
      exact ⟨p, t, rfl, hstart, hstop⟩
    · cases h
  · rintro ⟨p, t, rfl, rfl, rfl⟩
    exact slice_append p mid t

/-! ## Boundaries -/

/-- `s.is_char_boundary(n)`. -/
def isCharBoundary (s : List Char) (n : ℕ) : Bool := (splitAt s n).isSome

theorem isCharBoundary_iff :
    isCharBoundary s n = true ↔ ∃ p t, s = p ++ t ∧ String.utf8Len p = n := by
  unfold isCharBoundary
  rw [Option.isSome_iff_exists]
  constructor
  · rintro ⟨⟨p, t⟩, h⟩
    exact ⟨p, t, splitAt_eq_some_iff.mp h⟩
  · rintro ⟨p, t, h⟩
    exact ⟨(p, t), splitAt_eq_some_iff.mpr h⟩

theorem isCharBoundary_append (p t : List Char) :
    isCharBoundary (p ++ t) (String.utf8Len p) = true :=
  isCharBoundary_iff.mpr ⟨p, t, rfl, rfl⟩

/-- Past a prefix, boundaries are those of the rest. -/
theorem exists_slice_of_isCharBoundary {p t : List Char} {k : ℕ}
    (h : isCharBoundary (p ++ t) (String.utf8Len p + k) = true) :
    ∃ mid rest, t = mid ++ rest ∧ String.utf8Len mid = k := by
  obtain ⟨q, r, heq, hlen⟩ := isCharBoundary_iff.mp h
  -- both prefixes are prefixes of one text, and `q` is the longer one
  rcases List.append_eq_append_iff.mp heq with ⟨mid, rfl, rfl⟩ | ⟨mid, rfl, rfl⟩
  · rw [String.utf8Len_append] at hlen
    exact ⟨mid, r, rfl, by omega⟩
  · rw [String.utf8Len_append] at hlen
    exact ⟨[], t, rfl, by rw [utf8Len_nil]; omega⟩

/-- The greatest boundary up to a position. -/
def floorBoundary (s : List Char) : ℕ → ℕ
  | 0 => 0
  | n + 1 => if isCharBoundary s (n + 1) then n + 1 else floorBoundary s n

theorem floorBoundary_le (s : List Char) (n : ℕ) : floorBoundary s n ≤ n := by
  induction n with
  | zero => exact le_rfl
  | succ n ih =>
    unfold floorBoundary
    split
    · exact le_rfl
    · exact ih.trans n.le_succ

theorem isCharBoundary_floorBoundary (s : List Char) (n : ℕ) :
    isCharBoundary s (floorBoundary s n) = true := by
  induction n with
  | zero => cases s <;> rfl
  | succ n ih =>
    unfold floorBoundary
    split
    · assumption
    · exact ih

theorem le_floorBoundary {k n : ℕ} (hk : isCharBoundary s k = true) (hkn : k ≤ n) :
    k ≤ floorBoundary s n := by
  induction n with
  | zero => exact hkn
  | succ n ih =>
    unfold floorBoundary
    split
    · exact hkn
    next hn =>
      refine ih (Nat.le_of_lt_succ (lt_of_le_of_ne hkn ?_))
      rintro rfl
      exact hn hk

/-- There is no boundary inside a character. -/
theorem le_or_le_of_isCharBoundary {p t : List Char} {n : ℕ}
    (h : isCharBoundary (p ++ c :: t) n = true) :
    n ≤ String.utf8Len p ∨ String.utf8Len p + c.utf8Size ≤ n := by
  obtain ⟨q, u, heq, rfl⟩ := isCharBoundary_iff.mp h
  rcases List.append_eq_append_iff.mp heq with ⟨mid, rfl, hmid⟩ | ⟨mid, rfl, -⟩
  · cases mid with
    | nil =>
      rw [List.append_nil]
      exact .inl le_rfl
    | cons d mid =>
      obtain ⟨rfl, -⟩ := List.cons.inj hmid
      rw [String.utf8Len_append, String.utf8Len_cons]
      exact .inr (by omega)
  · rw [String.utf8Len_append]
    exact .inl (Nat.le_add_right _ _)

/-- A text is cut in front of the first character that does not fit. -/
theorem floorBoundary_append_cons_iff {p t : List Char} {n : ℕ} :
    floorBoundary (p ++ c :: t) n = String.utf8Len p ↔
      String.utf8Len p ≤ n ∧ n < String.utf8Len p + c.utf8Size := by
  have hle := floorBoundary_le (p ++ c :: t) n
  constructor
  · intro h
    refine ⟨h ▸ hle, ?_⟩
    -- the end of the next character is a boundary, so it is beyond the limit
    have hnext : isCharBoundary (p ++ c :: t) (String.utf8Len p + c.utf8Size) = true :=
      isCharBoundary_iff.mpr ⟨p ++ [c], t, List.append_cons p c t, by
        rw [String.utf8Len_append, String.utf8Len_cons, utf8Len_nil, Nat.zero_add]⟩
    by_contra hroom
    have hbelow := le_floorBoundary hnext (not_lt.mp hroom)
    have hpos := c.utf8Size_pos
    omega
  · rintro ⟨hfits, hfull⟩
    have hge := le_floorBoundary (isCharBoundary_append p (c :: t)) hfits
    rcases le_or_le_of_isCharBoundary (isCharBoundary_floorBoundary (p ++ c :: t) n) with h | h
    · exact le_antisymm h hge
    · omega

/-! ## Searching -/

/-- The position of the first character with a property. -/
def find (p : Char → Bool) : List Char → Option ℕ
  | [] => none
  | c :: s => if p c then some 0 else (find p s).map (· + c.utf8Size)

theorem find_eq_some {s : List Char} {n : ℕ} (h : find p s = some n) :
    ∃ q c t, s = q ++ c :: t ∧ String.utf8Len q = n ∧ p c = true := by
  induction s generalizing n with
  | nil => cases h
  | cons c s ih =>
    rw [find] at h
    split at h
    next hc =>
      cases h
      exact ⟨[], c, s, rfl, rfl, hc⟩
    · obtain ⟨m, hm, rfl⟩ := Option.map_eq_some_iff.mp h
      obtain ⟨q, d, t, rfl, rfl, hd⟩ := ih hm
      exact ⟨c :: q, d, t, rfl, String.utf8Len_cons c q, hd⟩

theorem find_eq_none {s : List Char} (h : ∀ c ∈ s, p c = false) : find p s = none := by
  induction s with
  | nil => rfl
  | cons c s ih =>
    rw [find, h c List.mem_cons_self, ih fun d hd => h d (List.mem_cons_of_mem c hd)]
    rfl

theorem find_append {s : List Char} {c : Char} (t : List Char) (hc : p c = true)
    (h : ∀ d ∈ s, p d = false) : find p (s ++ c :: t) = some (String.utf8Len s) := by
  induction s with
  | nil => exact if_pos hc
  | cons d s ih =>
    rw [List.cons_append, find, h d List.mem_cons_self,
      ih fun e he => h e (List.mem_cons_of_mem d he), String.utf8Len_cons]
    rfl

/-- The position of the last character with a property. -/
def rfind (p : Char → Bool) : List Char → Option ℕ
  | [] => none
  | c :: s =>
    match rfind p s with
    | some n => some (n + c.utf8Size)
    | none => if p c then some 0 else none

theorem rfind_eq_none_iff {s : List Char} : rfind p s = none ↔ ∀ c ∈ s, p c = false := by
  induction s with
  | nil => simp [rfind]
  | cons c s ih =>
    rw [rfind, List.forall_mem_cons]
    cases hs : rfind p s with
    | none =>
      have hrest := ih.mp hs
      by_cases hc : p c = true
      · simp [hc]
      · simp only [hc, Bool.not_eq_true] at hc ⊢
        simpa using hrest
    | some n =>
      refine iff_of_false (by simp) ?_
      rintro ⟨-, hrest⟩
      rw [ih.mpr hrest] at hs
      cases hs

/-- The last character with `p`, by the bytes before it. -/
theorem rfind_eq_some_iff {s : List Char} {n : ℕ} :
    rfind p s = some n ↔
      ∃ q c t, s = q ++ c :: t ∧ String.utf8Len q = n ∧ p c = true ∧ ∀ d ∈ t, p d = false := by
  induction s generalizing n with
  | nil => simp [rfind]
  | cons c s ih =>
    rw [rfind]
    cases hs : rfind p s with
    -- a match further on is the last, whatever the first character is
    | some m =>
      obtain ⟨q, d, t, rfl, rfl, hd, ht⟩ := ih.mp hs
      constructor
      · intro h
        cases h
        exact ⟨c :: q, d, t, rfl, String.utf8Len_cons c q, hd, ht⟩
      · rintro ⟨q', d', t', heq, rfl, hd', ht'⟩
        cases q' with
        | nil =>
          obtain ⟨rfl, rfl⟩ := List.cons.inj heq
          exact absurd (ht' d (by simp)) (by simp [hd])
        | cons c' q' =>
          obtain ⟨rfl, hrest⟩ := List.cons.inj heq
          have hn := ih.mpr ⟨q', d', t', hrest, rfl, hd', ht'⟩
          rw [hs] at hn
          rw [String.utf8Len_cons, ← Option.some.inj hn]
    -- none further on: it is the first character or there is none
    | none =>
      have hnone := rfind_eq_none_iff.mp hs
      constructor
      · intro h
        by_cases hc : p c = true
        · simp only [hc, ↓reduceIte, Option.some.injEq] at h
          subst h
          exact ⟨[], c, s, rfl, rfl, hc, hnone⟩
        · simp only [hc, Bool.false_eq_true, ↓reduceIte, reduceCtorEq] at h
      · rintro ⟨q', d', t', heq, rfl, hd', ht'⟩
        cases q' with
        | nil =>
          obtain ⟨rfl, rfl⟩ := List.cons.inj heq
          exact if_pos hd'
        | cons c' q' =>
          obtain ⟨rfl, rfl⟩ := List.cons.inj heq
          exact absurd (hnone d' (by simp)) (by simp [hd'])

end Utf8
