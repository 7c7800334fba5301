import Profi.KernelNames

/-!
# Demangled Signatures

`normalize_kernel_name` on names that are not mangled: a base name, perhaps behind a return type,
with template arguments and function arguments behind it. Template arguments are skipped by a depth
counter, so they may be nested; function arguments are cut off at the first parenthesis that is
left, so nothing is asked of them.

The arguments have no influence on the result (`normalizeKernelName_signature`). A return type is
never taken off: it stays in front of the name (`normalizeKernelName_returnType_iff`).
-/

namespace Profi

open String (utf8Len)
open Text

/-! ## Balanced Text -/

/-- Text with matching angle brackets. -/
inductive Balanced : List Char → Prop where
  | nil : Balanced []
  | char {c : Char} (hopen : c ≠ '<') (hclose : c ≠ '>') : Balanced [c]
  | append {s t : List Char} (hs : Balanced s) (ht : Balanced t) : Balanced (s ++ t)
  | nest {s : List Char} (hs : Balanced s) : Balanced ('<' :: s ++ ['>'])

/-- Text without brackets is balanced. -/
theorem Balanced.of_plain {s : List Char} (h : ∀ c ∈ s, c ≠ '<' ∧ c ≠ '>') : Balanced s := by
  induction s with
  | nil => exact .nil
  | cons c s ih =>
    obtain ⟨hopen, hclose⟩ := h c List.mem_cons_self
    exact .append (.char hopen hclose) (ih fun d hd => h d (List.mem_cons_of_mem c hd))

/-- Inside of template arguments a balanced text is skipped, as long as the counter has room for its
    depth. -/
theorem stripTemplates_skip {s : List Char} (hs : Balanced s) {depth : BitVec 32}
    (hdepth : 0 < depth.toNat) (hroom : depth.toNat + s.length < 2 ^ 32) (t : List Char) :
    stripTemplates depth (s ++ t) = stripTemplates depth t := by
  induction hs generalizing depth t with
  | nil => rfl
  | @char c hopen hclose =>
    have hne : depth ≠ 0 := by
      rintro rfl
      exact absurd hdepth (by decide)
    show stripTemplates depth (c :: t) = _
    rw [stripTemplates, if_neg hopen, if_neg fun h => hclose h.1, if_neg hne]
  | @append s₁ s₂ _ _ ih₁ ih₂ =>
    rw [List.length_append] at hroom
    rw [List.append_assoc, ih₁ hdepth (by omega), ih₂ hdepth (by omega)]
  | @nest s _ ih =>
    rw [List.length_append, List.length_cons, List.length_singleton] at hroom
    -- one level deeper the counter has not wrapped around
    have hnext : (depth + 1).toNat = depth.toNat + 1 := by
      exact Nat.mod_eq_of_lt (by show depth.toNat + 1 < 2 ^ 32; omega)
    have hback : depth + 1 - 1 = depth := by simp
    show stripTemplates depth ('<' :: (s ++ ['>'] ++ t)) = _
    rw [stripTemplates, if_pos rfl, List.append_assoc, ih (by omega) (by omega)]
    show stripTemplates (depth + 1) ('>' :: t) = _
    rw [stripTemplates, if_neg (by decide),
      if_pos ⟨rfl, BitVec.lt_def.mpr (by rw [hnext]; exact Nat.succ_pos _)⟩, hback]

/-- Template arguments with balanced text between the brackets are taken out. -/
theorem stripTemplates_args {s : List Char} (hs : Balanced s) (hroom : s.length + 1 < 2 ^ 32)
    (t : List Char) : stripTemplates 0 ('<' :: s ++ '>' :: t) = stripTemplates 0 t := by
  show stripTemplates 0 ('<' :: (s ++ '>' :: t)) = _
  rw [stripTemplates, if_pos rfl, stripTemplates_skip hs (by decide) (by
    show 1 + s.length < 2 ^ 32
    omega)]
  show stripTemplates 1 ('>' :: t) = _
  rw [stripTemplates, if_neg (by decide), if_pos ⟨rfl, by decide⟩]
  rfl

/-- What is left of a balanced text does not depend on what follows. -/
theorem stripTemplates_append {s : List Char} (hs : Balanced s) (hroom : s.length < 2 ^ 32)
    (t : List Char) : stripTemplates 0 (s ++ t) = stripTemplates 0 s ++ stripTemplates 0 t := by
  induction hs generalizing t with
  | nil => rfl
  | @char c hopen hclose =>
    have hkeep : ∀ u, stripTemplates 0 (c :: u) = c :: stripTemplates 0 u := by
      intro u
      rw [stripTemplates, if_neg hopen, if_neg fun h => hclose h.1, if_pos rfl]
    show stripTemplates 0 (c :: t) = stripTemplates 0 [c] ++ _
    rw [hkeep, hkeep]
    rfl
  | @append s₁ s₂ _ _ ih₁ ih₂ =>
    rw [List.length_append] at hroom
    rw [List.append_assoc, ih₁ (by omega), ih₂ (by omega), ih₁ (by omega), List.append_assoc]
  | @nest s hs _ =>
    rw [List.length_append, List.length_cons, List.length_singleton] at hroom
    have hargs := stripTemplates_args hs (by omega)
    have hnone : stripTemplates 0 ('<' :: s ++ ['>']) = [] := hargs []
    rw [hnone, List.append_assoc]
    exact hargs t

theorem stripTemplates_subset (depth : BitVec 32) (s : List Char) : stripTemplates depth s ⊆ s := by
  induction s generalizing depth with
  | nil => exact List.Subset.refl _
  | cons c s ih =>
    have hskip : ∀ d, stripTemplates d s ⊆ c :: s :=
      fun d => List.subset_cons_of_subset c (ih d)
    unfold stripTemplates
    split
    · exact hskip _
    · split
      · exact hskip _
      · split
        · exact List.cons_subset_cons c (ih depth)
        · exact hskip _

/-- A text is cut at the first parenthesis. -/
theorem stripArgs_append {s : List Char} (h : '(' ∉ s) (t : List Char) :
    stripArgs (s ++ '(' :: t) = .ok s := by
  have hfind : Utf8.find (· == '(') (s ++ '(' :: t) = some (utf8Len s) := by
    apply Utf8.find_append _ rfl
    intro c hc
    exact beq_eq_false_iff_ne.mpr fun heq => h (heq ▸ hc)
  unfold stripArgs
  rw [hfind]
  exact strSlice_append [] s ('(' :: t) rfl (by simp)

/-! ## Arguments Do Not Matter -/

/-- What all stages leave of a name, before an empty one is replaced. -/
def shortName (table : CharTable) (raw : String) : Except NameFault (List Char) := do
  let name ← demangle table raw.toList
  let result ← stripArgs (stripTemplates 0 name)
  let finalName ← stripNumericSuffix (trimEnd result)
  truncateUtf8Bytes finalName 64

/-- The result is the beginning of the name itself, because nothing else is left. -/
def FallsBack (table : CharTable) (raw : String) : Prop := shortName table raw = .ok []

theorem normalizeKernelName_eq (table : CharTable) (raw : String) :
    normalizeKernelName table raw = (do
      let truncated ← shortName table raw
      if truncated.isEmpty then do
        let short ← truncateUtf8Bytes raw.toList 64
        return String.ofList short
      else return String.ofList truncated) := by
  simp only [normalizeKernelName, shortName, bind_assoc]

/-- Unless the fallback is taken, the result is what the stages leave. -/
theorem normalizeKernelName_of_shortName {table : CharTable} {raw : String} {short : List Char}
    (h : shortName table raw = .ok short) (hne : short ≠ []) :
    normalizeKernelName table raw = .ok (String.ofList short) := by
  rw [normalizeKernelName_eq, h]
  exact if_neg fun hempty => hne (List.isEmpty_iff.mp hempty)

theorem demangle_of_not_mangled (table : CharTable) {name : List Char}
    (h : ¬ "_Z".toList <+: name) : demangle table name = .ok name :=
  if_neg fun hmangled => h (List.isPrefixOf_iff_prefix.mp hmangled)

/-- The last two stages, on a name that is not mangled, its templates and arguments gone. -/
theorem shortName_of_stripArgs {table : CharTable} {raw : String} {base : List Char}
    (hplain : ¬ "_Z".toList <+: raw.toList)
    (hbase : stripArgs (stripTemplates 0 raw.toList) = .ok base) :
    shortName table raw =
      truncateUtf8Bytes ((numericStem (trimEnd base)).getD (trimEnd base)) 64 := by
  unfold shortName
  rw [demangle_of_not_mangled table hplain]
  show (stripArgs (stripTemplates 0 raw.toList) >>= fun result => _) = _
  rw [hbase]
  show (stripNumericSuffix (trimEnd base) >>= fun finalName => _) = _
  rw [stripNumericSuffix_eq]
  rfl

/-- A base name and template arguments leave the base name, whatever follows. -/
theorem stripTemplates_base {b T : List Char} (hb : ∀ c ∈ b, c ≠ '<' ∧ c ≠ '>') (hT : Balanced T)
    (hroom : b.length + T.length + 1 < 2 ^ 32) (t : List Char) :
    stripTemplates 0 (b ++ '<' :: T ++ '>' :: t) = b ++ stripTemplates 0 t := by
  rw [List.append_assoc, stripTemplates_append (.of_plain hb) (by omega), stripTemplates_plain hb,
    stripTemplates_args hT (by omega)]

/-- The same with nothing or the function's arguments behind the brackets. -/
theorem stripArgs_base {b T t : List Char} (hb : ∀ c ∈ b, c ≠ '<' ∧ c ≠ '>') (hparen : '(' ∉ b)
    (hT : Balanced T) (hroom : b.length + T.length + 1 < 2 ^ 32) (ht : t = [] ∨ ∃ u, t = '(' :: u) :
    stripArgs (stripTemplates 0 (b ++ '<' :: T ++ '>' :: t)) = .ok b := by
  rw [stripTemplates_base hb hT hroom]
  rcases ht with rfl | ⟨u, rfl⟩
  · rw [stripTemplates, List.append_nil]
    exact stripArgs_of_notMem hparen
  · exact stripArgs_append hparen (stripTemplates 0 u)

/-- Texts with the same base have the same name, unless the fallback is taken. -/
theorem normalizeKernelName_eq_of_stripArgs {table : CharTable} {raw b : String} {base : List Char}
    (hraw : ¬ "_Z".toList <+: raw.toList) (hplain : ¬ "_Z".toList <+: b.toList)
    (hstrip : stripArgs (stripTemplates 0 raw.toList) = .ok base)
    (hbare : stripArgs (stripTemplates 0 b.toList) = .ok base) (hname : ¬ FallsBack table b) :
    normalizeKernelName table raw = normalizeKernelName table b := by
  obtain ⟨short, htruncate, -, -, -⟩ := truncateUtf8Bytes_spec
    ((numericStem (trimEnd base)).getD (trimEnd base)) (show 4 ≤ 64 by decide)
  have hshort : shortName table b = .ok short :=
    (shortName_of_stripArgs hplain hbare).trans htruncate
  have hne : short ≠ [] := by
    rintro rfl
    exact hname hshort
  have hshort' : shortName table raw = .ok short :=
    (shortName_of_stripArgs hraw hstrip).trans htruncate
  rw [normalizeKernelName_of_shortName hshort hne, normalizeKernelName_of_shortName hshort' hne]

/-- A name that is not mangled is not mangled either with template arguments behind it. -/
theorem not_mangled_append {b : List Char} (hb : ¬ "_Z".toList <+: b) {c : Char} (hc : c ≠ '_')
    (hc' : c ≠ 'Z') (t : List Char) : ¬ "_Z".toList <+: b ++ c :: t := by
  match b with
  | [] => simpa [List.cons_prefix_cons] using fun h : '_' = c => absurd h.symm hc
  | [d] => simpa [List.cons_prefix_cons] using fun _ (h : 'Z' = c) => absurd h.symm hc'
  | d :: e :: b =>
    simp only [String.reduceToList, List.cons_append, List.cons_prefix_cons, List.nil_prefix,
      and_true] at hb ⊢
    exact hb

/-- Template arguments and function arguments have no influence on the name. The brackets in the
    template arguments match; the function arguments may be anything. The bound keeps the depth
    counter from overflowing. -/
theorem normalizeKernelName_signature (table : CharTable) (b T A : String)
    (hb : ∀ c ∈ b.toList, c ≠ '<' ∧ c ≠ '>' ∧ c ≠ '(') (hplain : ¬ "_Z".toList <+: b.toList)
    (hT : Balanced T.toList)
    (hlen : (b ++ "<" ++ T ++ ">" ++ "(" ++ A ++ ")").utf8ByteSize < 2 ^ 32)
    (hname : ¬ FallsBack table b) :
    normalizeKernelName table (b ++ "<" ++ T ++ ">" ++ "(" ++ A ++ ")") =
        normalizeKernelName table (b ++ "<" ++ T ++ ">") ∧
      normalizeKernelName table (b ++ "<" ++ T ++ ">") = normalizeKernelName table b := by
  have hbrackets : ∀ c ∈ b.toList, c ≠ '<' ∧ c ≠ '>' := fun c hc => ⟨(hb c hc).1, (hb c hc).2.1⟩
  have hparen : '(' ∉ b.toList := fun hmem => (hb '(' hmem).2.2 rfl
  have hroom : b.toList.length + T.toList.length + 1 < 2 ^ 32 := by
    have hb' := Utf8.length_le_utf8Len b.toList
    have hT' := Utf8.length_le_utf8Len T.toList
    rw [String.utf8Len_toList] at hb' hT'
    simp only [String.utf8ByteSize_append] at hlen
    have hone' : (">" : String).utf8ByteSize = 1 := rfl
    omega
  -- all three texts leave the base name behind the first two stages
  have hbare : stripArgs (stripTemplates 0 b.toList) = .ok b.toList := by
    rw [stripTemplates_plain hbrackets]
    exact stripArgs_of_notMem hparen
  have hsame : ∀ (raw : String) (t : List Char), t = [] ∨ (∃ u, t = '(' :: u) →
      raw.toList = b.toList ++ '<' :: T.toList ++ '>' :: t →
      normalizeKernelName table raw = normalizeKernelName table b := by
    intro raw t ht hraw
    apply normalizeKernelName_eq_of_stripArgs _ hplain _ hbare hname
    · rw [hraw, List.append_assoc]
      exact not_mangled_append hplain (by decide) (by decide) _
    · rw [hraw]
      exact stripArgs_base hbrackets hparen hT hroom ht
  have hfull := hsame (b ++ "<" ++ T ++ ">" ++ "(" ++ A ++ ")") ('(' :: (A.toList ++ [')']))
    (.inr ⟨_, rfl⟩) (by simp)
  have htemplate := hsame (b ++ "<" ++ T ++ ">") [] (.inl rfl) (by simp)
  exact ⟨hfull.trans htemplate.symm, htemplate⟩

/-- A kernel with a nested template argument list that has a parenthesis in it, and with a bracket
    among its arguments. -/
theorem normalizeKernelName_signature_gemm :
    normalizeKernelName .asciiOnly "gemm_2<tile<128>, (3)>(a < b)" =
        normalizeKernelName .asciiOnly "gemm_2<tile<128>, (3)>" ∧
      normalizeKernelName .asciiOnly "gemm_2<tile<128>, (3)>" =
        normalizeKernelName .asciiOnly "gemm_2" := by
  have hT : Balanced "tile<128>, (3)".toList :=
    .append (s := "tile".toList) (.of_plain (by simp))
      (.append (s := "<128>".toList) (.nest (s := "128".toList) (.of_plain (by simp)))
        (.of_plain (s := ", (3)".toList) (by simp)))
  exact normalizeKernelName_signature .asciiOnly "gemm_2" "tile<128>, (3)" "a < b" (by simp)
    (by decide) hT (by decide +kernel) (by unfold FallsBack; decide +kernel)

/-! ## Return Types Stay -/

/-- A word in front of the name is not taken for a part of its number. -/
theorem numericStem_behind_blank {b : List Char} (h : numericStem b = none) (p : List Char) :
    numericStem (p ++ ' ' :: b) = none := by
  cases hstem : numericStem (p ++ ' ' :: b) with
  | none => rfl
  | some stem =>
    obtain ⟨digits, hne, hdigits, heq⟩ := numericStem_eq_some hstem
    -- the blank is before the underscore, which then is one of `b`
    rcases List.append_eq_append_iff.mp heq with ⟨mid, rfl, hmid⟩ | ⟨mid, rfl, hmid⟩
    · cases mid with
      | nil => cases (List.cons.inj hmid).1
      | cons c mid =>
        obtain ⟨rfl, rfl⟩ := List.cons.inj hmid
        have hsome : numericStem (mid ++ '_' :: digits) = some mid :=
          numericStem_append hne hdigits
        exact absurd (hsome.symm.trans h) (by simp)
    · cases mid with
      | nil => cases (List.cons.inj hmid).1
      | cons c mid =>
        obtain ⟨-, hmid⟩ := List.cons.inj hmid
        have hblank : ' ' ∈ digits := hmid ▸ List.mem_append_right _ List.mem_cons_self
        exact absurd (List.all_eq_true.mp hdigits ' ' hblank) (by decide)

/-- There is nothing to trim behind an identifier. -/
theorem trimEnd_behind_blank (b : Ident) (hchars : b.chars ≠ []) (p : List Char) :
    trimEnd (p ++ ' ' :: b.chars) = p ++ ' ' :: b.chars := by
  unfold trimEnd
  rw [List.rdropWhile_eq_self_iff]
  intro hne
  rw [List.getLast_append_of_ne_nil _ (List.cons_ne_nil _ _), List.getLast_cons hchars,
    Bool.not_eq_true]
  exact (b.plain (List.getLast_mem hchars)).2.2.2

/-- A signature with a return type: a word, a blank, the name, and its arguments. -/
def withReturnType (r b T A : List Char) : String :=
  String.ofList (r ++ ' ' :: b ++ '<' :: T ++ '>' :: '(' :: A ++ [')'])

/-- The return type is in front of what the stages leave. -/
theorem shortName_withReturnType (table : CharTable) {r T A : List Char} (b : Ident)
    (hchars : b.chars ≠ []) (hstem : numericStem b.chars = none) (hparen : '(' ∉ r)
    (hbalanced : Balanced r) (hplain : ¬ "_Z".toList <+: r) (hT : Balanced T)
    (hlen : (withReturnType r b.chars T A).utf8ByteSize < 2 ^ 32) :
    shortName table (withReturnType r b.chars T A) =
      truncateUtf8Bytes (stripTemplates 0 r ++ ' ' :: b.chars) 64 := by
  have hlist : (withReturnType r b.chars T A).toList =
      r ++ (' ' :: b.chars ++ '<' :: T ++ '>' :: '(' :: (A ++ [')'])) := by
    simp [withReturnType]
  have hroom : r.length + (b.chars.length + 1) + T.length + 1 < 2 ^ 32 := by
    have hle := Utf8.length_le_utf8Len (withReturnType r b.chars T A).toList
    rw [String.utf8Len_toList, hlist] at hle
    simp only [List.length_append, List.length_cons] at hle
    omega
  have hbrackets : ∀ c ∈ ' ' :: b.chars, c ≠ '<' ∧ c ≠ '>' := by
    intro c hc
    rcases List.mem_cons.mp hc with rfl | hc
    · decide
    · exact ⟨(b.plain hc).1, (b.plain hc).2.1⟩
  -- the arguments of the templates go
  have hleft : stripTemplates 0 (withReturnType r b.chars T A).toList =
      (stripTemplates 0 r ++ ' ' :: b.chars) ++ '(' :: stripTemplates 0 (A ++ [')']) := by
    rw [hlist, stripTemplates_append hbalanced (by omega),
      stripTemplates_base hbrackets hT (by rw [List.length_cons]; omega), List.append_assoc]
    rfl
  have hcut : '(' ∉ stripTemplates 0 r ++ ' ' :: b.chars := by
    intro hmem
    rcases List.mem_append.mp hmem with hmem | hmem
    · exact hparen (stripTemplates_subset 0 r hmem)
    · rcases List.mem_cons.mp hmem with heq | hmem
      · cases heq
      · exact (b.plain hmem).2.2.1 rfl
  -- the first parenthesis that is left opens the parameters
  have hstrip : stripArgs (stripTemplates 0 (withReturnType r b.chars T A).toList) =
      .ok (stripTemplates 0 r ++ ' ' :: b.chars) := by
    rw [hleft]
    exact stripArgs_append hcut _
  have hmangled : ¬ "_Z".toList <+: (withReturnType r b.chars T A).toList := by
    rw [hlist]
    exact not_mangled_append hplain (by decide) (by decide) _
  rw [shortName_of_stripArgs hmangled hstrip, trimEnd_behind_blank b hchars,
    numericStem_behind_blank hstem]
  rfl

/-- A name behind a return type is found exactly if the return type, without its template arguments,
    begins with that very name and the 64 bytes of a result end there. The return type is a word
    without parentheses, and not a mangled one. -/
theorem normalizeKernelName_returnType_iff (table : CharTable) (r T A : List Char) (b : Ident)
    (hchars : b.chars ≠ []) (hstem : numericStem b.chars = none) (h64 : utf8Len b.chars ≤ 64)
    (hparen : '(' ∉ r) (hbalanced : Balanced r) (hplain : ¬ "_Z".toList <+: r) (hT : Balanced T)
    (hlen : (withReturnType r b.chars T A).utf8ByteSize < 2 ^ 32) :
    normalizeKernelName table (withReturnType r b.chars T A) = .ok (String.ofList b.chars) ↔
      ∃ c t, stripTemplates 0 r ++ [' '] = b.chars ++ c :: t ∧
        64 < utf8Len b.chars + c.utf8Size := by
  have hshort := shortName_withReturnType table b hchars hstem hparen hbalanced hplain hT hlen
  have hblank : ' ' ∉ b.chars := fun hmem => absurd (b.plain hmem).2.2.2 (by decide)
  obtain ⟨short, htruncate, -, -, hnil⟩ := truncateUtf8Bytes_spec
    (stripTemplates 0 r ++ ' ' :: b.chars) (show 4 ≤ 64 by decide)
  have hne : short ≠ [] := fun h => absurd (hnil h) (by simp)
  rw [normalizeKernelName_of_shortName (hshort.trans htruncate) hne]
  -- nothing but the cut to 64 bytes is left to do
  have hresult : (Except.ok (String.ofList short) : Except NameFault String) =
      .ok (String.ofList b.chars) ↔
        truncateUtf8Bytes (stripTemplates 0 r ++ ' ' :: b.chars) 64 = .ok b.chars := by
    rw [htruncate, Except.ok.injEq, Except.ok.injEq, String.ofList_inj]
  rw [hresult, truncateUtf8Bytes_eq_ok_iff]
  constructor
  · rintro ⟨-, heq | ⟨c, t, heq, hfull⟩⟩
    · exact absurd (heq ▸ List.mem_append_right _ List.mem_cons_self) hblank
    · -- the name has no blank in it, so it ends before the one behind the return type
      rcases List.append_eq_append_iff.mp heq with ⟨mid, hmid, hrest⟩ | ⟨mid, hmid, hrest⟩
      · cases mid with
        | nil =>
          obtain ⟨rfl, -⟩ := List.cons.inj hrest
          exact ⟨' ', [], by rw [hmid, List.append_nil], hfull⟩
        | cons d mid =>
          obtain ⟨rfl, -⟩ := List.cons.inj hrest
          exact absurd (hmid ▸ List.mem_append_right _ List.mem_cons_self) hblank
      · refine ⟨c, (mid ++ [' ']).tail, ?_, hfull⟩
        rw [hmid, List.append_assoc]
        cases mid with
        | nil => rw [(List.cons.inj hrest).1]; rfl
        | cons d mid => rw [(List.cons.inj hrest).1]; rfl
  · rintro ⟨c, t, heq, hfull⟩
    refine ⟨h64, .inr ⟨c, t ++ b.chars, ?_, hfull⟩⟩
    rw [List.append_cons, heq, List.append_assoc, List.cons_append]

/-- A function of 64 letters that returns a type of the same name. -/
theorem normalizeKernelName_returnType_long :
    normalizeKernelName .asciiOnly
        (withReturnType (List.replicate 64 'a') (List.replicate 64 'a') "int".toList []) =
      .ok (String.ofList (List.replicate 64 'a')) := by
  have hword : Balanced (List.replicate 64 'a') :=
    .of_plain fun c hc => by rw [List.eq_of_mem_replicate hc]; decide
  exact (normalizeKernelName_returnType_iff .asciiOnly (List.replicate 64 'a') "int".toList []
    ⟨List.replicate 64 'a', fun c hc => .inl (by rw [List.eq_of_mem_replicate hc]; decide),
      by decide⟩
    (by decide) (by decide +kernel) (by decide +kernel) (by decide +kernel) hword
    (by decide +kernel) (.of_plain (by simp)) (by decide +kernel)).mpr
      ⟨' ', [], by decide +kernel, by decide +kernel⟩

/-- The usual kernel signature keeps its return type. -/
theorem normalizeKernelName_keeps_void :
    normalizeKernelName .asciiOnly "void gemm_kernel<float, 128, 64>(float*, int)" =
      .ok "void gemm_kernel" := by
  decide +kernel

end Profi
