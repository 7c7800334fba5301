import Profi.HttpSecurity

/-!
# Key-Value Options

`parse_kv_list` of `src/otlp.rs`, which reads the headers and the resource attributes from the
command line: `k1=v1,k2=v2`, with blanks where the user likes and malformed segments left out.

What was written is what is read. A text is a list of segments (`KvSegment`): pairs in any amount of
blanks, and segments that are not pairs. Reading the segments joined by commas gives back the pairs,
in their order (`parseKvList_join`).
-/

namespace Profi

open Text

/-! ## The parser -/

/-- The closure of `parse_kv_list`. -/
def parseKv (kv : List Char) : Option (String × String) := do
  let parts := splitn2 '=' kv
  let k := trim parts.1
  let v := trim (← parts.2)
  if k = [] then none else some (String.ofList k, String.ofList v)

/-- `parse_kv_list`. -/
def parseKvList (raw : String) : List (String × String) :=
  (raw.toList.splitOn ',').filterMap parseKv

/-! ## Texts -/

/-- Blanks around a key or a value. -/
def Blanks := {s : List Char // s.all isWhitespace = true}

/-- The text neither starts nor ends with a blank. -/
structure Trimmed (s : List Char) : Prop where
  first : ∀ c ∈ s.head?, isWhitespace c = false
  last : ∀ c ∈ s.getLast?, isWhitespace c = false

/-- A pair that can be written down. -/
structure KvPair where
  key : List Char
  value : List Char
  key_ne_nil : key ≠ []
  key_comma : ',' ∉ key
  key_equals : '=' ∉ key
  value_comma : ',' ∉ value
  key_trimmed : Trimmed key
  value_trimmed : Trimmed value

/-- What is no pair: there is no equals sign, or nothing but blanks before it. -/
def Malformed (s : List Char) : Prop :=
  '=' ∉ s ∨ ∃ (blanks : Blanks) (rest : List Char), s = blanks.1 ++ '=' :: rest

inductive KvSegment where
  | pair (kv : KvPair) (beforeKey afterKey beforeValue afterValue : Blanks)
  | malformed (text : List Char) (comma : ',' ∉ text) (h : Malformed text)

namespace KvSegment

def text : KvSegment → List Char
  | pair kv beforeKey afterKey beforeValue afterValue =>
    beforeKey.1 ++ kv.key ++ afterKey.1 ++ '=' :: (beforeValue.1 ++ kv.value ++ afterValue.1)
  | malformed text _ _ => text

/-- The pair a segment is meant for. -/
def kv? : KvSegment → Option (String × String)
  | pair kv _ _ _ _ => some (String.ofList kv.key, String.ofList kv.value)
  | malformed _ _ _ => none

/-- The segments, joined by commas. -/
def join (segments : List KvSegment) : String :=
  String.ofList ([','].intercalate (segments.map text))

end KvSegment

/-! ## Trimming -/

theorem Blanks.isWhitespace_of_mem {blanks : Blanks} {c : Char} (h : c ∈ blanks.1) :
    isWhitespace c = true :=
  List.all_eq_true.mp blanks.2 c h

theorem Blanks.notMem {blanks : Blanks} {c : Char} (h : isWhitespace c = false) :
    c ∉ blanks.1 := by
  intro hmem
  rw [blanks.isWhitespace_of_mem hmem] at h
  cases h

theorem trimEnd_append_blanks (s : List Char) (blanks : Blanks) :
    trimEnd (s ++ blanks.1) = trimEnd s := by
  have hall : ∀ c ∈ blanks.1.reverse, isWhitespace c = true := by
    intro c hc
    exact blanks.isWhitespace_of_mem (List.mem_reverse.mp hc)
  unfold trimEnd List.rdropWhile
  rw [List.reverse_append, List.dropWhile_append_of_pos hall]

theorem trimEnd_of_trimmed {s : List Char} (h : Trimmed s) : trimEnd s = s := by
  unfold trimEnd
  rw [List.rdropWhile_eq_self_iff]
  intro hne hblank
  have hlast := h.last (s.getLast hne) (List.getLast?_eq_some_getLast hne)
  rw [hlast] at hblank
  cases hblank

/-- Trimming takes the blanks off a text that has none of its own at its ends. -/
theorem trim_blanks {s : List Char} (h : Trimmed s) (before after : Blanks) :
    trim (before.1 ++ s ++ after.1) = s := by
  unfold trim
  rw [List.append_assoc, List.dropWhile_append_of_pos fun c hc => before.isWhitespace_of_mem hc]
  cases s with
  | nil =>
    -- the blanks of both sides go at once
    have hnil : after.1.dropWhile isWhitespace = [] :=
      List.dropWhile_eq_nil_iff.mpr fun c hc => after.isWhitespace_of_mem hc
    rw [List.nil_append, hnil]
    rfl
  | cons c s =>
    have hc : isWhitespace c = false := h.first c rfl
    rw [List.cons_append, List.dropWhile_cons_of_neg (by simp [hc]), ← List.cons_append,
      trimEnd_append_blanks, trimEnd_of_trimmed h]

theorem trim_allBlank (blanks : Blanks) : trim blanks.1 = [] := by
  have htrim := trim_blanks (s := []) ⟨by simp, by simp⟩ blanks ⟨[], rfl⟩
  simpa using htrim

/-! ## One segment -/

/-- A segment is read as the pair it is meant for. -/
theorem parseKv_text (segment : KvSegment) : parseKv segment.text = segment.kv? := by
  have hequals : isWhitespace '=' = false := by decide
  cases segment with
  | pair kv beforeKey afterKey beforeValue afterValue =>
    have hkey : '=' ∉ beforeKey.1 ++ kv.key ++ afterKey.1 := by
      simp only [List.mem_append, not_or]
      exact ⟨⟨Blanks.notMem hequals, kv.key_equals⟩, Blanks.notMem hequals⟩
    unfold parseKv KvSegment.text KvSegment.kv?
    simp only [splitn2_append hkey, trim_blanks kv.key_trimmed, trim_blanks kv.value_trimmed,
      Option.bind_eq_bind, Option.bind_some, if_neg kv.key_ne_nil]
  | malformed text comma h =>
    unfold parseKv KvSegment.text KvSegment.kv?
    -- no second part, or a key of blanks that is trimmed to nothing
    rcases h with hnone | ⟨blanks, rest, rfl⟩
    · simp only [splitn2_of_notMem hnone, Option.bind_eq_bind, Option.bind_none]
    · simp only [splitn2_append (Blanks.notMem hequals), trim_allBlank, Option.bind_eq_bind,
        Option.bind_some, ↓reduceIte]

theorem KvSegment.comma_notMem (segment : KvSegment) : ',' ∉ segment.text := by
  have hcomma : isWhitespace ',' = false := by decide
  cases segment with
  | pair kv beforeKey afterKey beforeValue afterValue =>
    simp only [text, List.mem_append, List.mem_cons, not_or]
    exact ⟨⟨⟨Blanks.notMem hcomma, kv.key_comma⟩, Blanks.notMem hcomma⟩, by decide,
      ⟨Blanks.notMem hcomma, kv.value_comma⟩, Blanks.notMem hcomma⟩
  | malformed text comma h => exact comma

/-! ## The whole text -/

/-- The pairs are read back in order, whatever blanks are around them and whatever malformed
    segments stand between them. -/
theorem parseKvList_join (segments : List KvSegment) :
    parseKvList (KvSegment.join segments) = segments.filterMap KvSegment.kv? := by
  unfold parseKvList KvSegment.join
  rw [String.toList_ofList]
  by_cases hempty : segments = []
  · -- no segments are read as one that is empty
    rw [hempty]
    rfl
  · have hcommas : ∀ text ∈ segments.map KvSegment.text, ',' ∉ text := by
      intro text htext
      obtain ⟨segment, -, rfl⟩ := List.mem_map.mp htext
      exact segment.comma_notMem
    have hne : segments.map KvSegment.text ≠ [] := by simpa using hempty
    rw [List.splitOn_intercalate _ hcommas hne, List.filterMap_map]
    apply List.filterMap_congr
    intro segment _
    exact parseKv_text segment

example : parseKvList "a=1, b = 2 ,, c=x=y,=bad" = [("a", "1"), ("b", "2"), ("c", "x=y")] := by
  decide

end Profi
