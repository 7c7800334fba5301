import Profi.SymbolTable

/-!
# Mapped Segments

A function address of a process is found in three steps: the line of the maps file that covers it,
the offset in the file, the symbol table. The table is by virtual addresses, though, so an offset is
looked up as if it were one. Here a symbol is followed from its segment, as the kernel lists it, to
the name that is resolved: over all processes and images with a given segment layout this is the
right name exactly if offsets and virtual addresses are the same in the segment. The table keeps one
symbol for each address, the first one listed, so a label listed before the function at its address
gives it another name.
-/

namespace Profi

open Text

/-! ## Lines of the Maps File -/

/-- A field of a maps line. -/
structure Word where
  chars : List Char
  ne_nil : chars ≠ []
  noBlank : ∀ c ∈ chars, isWhitespace c = false

theorem Word.newline_not_mem (w : Word) : '\n' ∉ w.chars :=
  fun h => absurd (w.noBlank _ h) (by decide)

theorem splitWhitespace_word_blank (w : Word) {c : Char} (hc : isWhitespace c = true)
    (rest : List Char) :
    splitWhitespace (w.chars ++ c :: rest) = w.chars :: splitWhitespace rest := by
  unfold splitWhitespace
  rw [List.splitOnP_append_cons _ _ hc, List.splitOnP_eq_singleton w.noBlank, List.singleton_append,
    List.filter_cons_of_pos (by simpa using w.ne_nil)]

theorem splitWhitespace_word (w : Word) : splitWhitespace w.chars = [w.chars] := by
  unfold splitWhitespace
  rw [List.splitOnP_eq_singleton w.noBlank, List.filter_cons_of_pos (by simpa using w.ne_nil)]
  rfl

theorem splitWhitespace_blanks (n : ℕ) (rest : List Char) :
    splitWhitespace (List.replicate n ' ' ++ rest) = splitWhitespace rest := by
  induction n with
  | zero => rfl
  | succ n ih =>
    rw [List.replicate_succ, List.cons_append, ← ih]
    unfold splitWhitespace
    rw [← List.nil_append (' ' :: _), List.splitOnP_append_cons _ _ (by decide)]
    simp

/-! ### Hexadecimal Numbers -/

/-- `%08lx`. -/
def hex8 (x : U64) : List Char :=
  List.replicate (8 - (Nat.toDigits 16 x.toNat).length) '0' ++ Nat.toDigits 16 x.toNat

/-- The sixteen digits: what they are worth, and that none is a blank, a sign or a dash. -/
theorem digitChar_hex : ∀ d < 16, toDigit 16 (Nat.digitChar d) = some d ∧
    isWhitespace (Nat.digitChar d) = false ∧ Nat.digitChar d ≠ '+' ∧ Nat.digitChar d ≠ '-' := by
  decide

theorem mem_toDigits_hex {n : ℕ} {c : Char} (hc : c ∈ Nat.toDigits 16 n) :
    ∃ d < 16, c = Nat.digitChar d := by
  induction n using Nat.strong_induction_on with
  | _ n ih =>
    rcases lt_or_ge n 16 with hlt | hge
    · rw [Nat.toDigits_of_lt_base hlt] at hc
      exact ⟨n, hlt, List.mem_singleton.mp hc⟩
    · rw [Nat.toDigits_of_base_le (by decide) hge] at hc
      rcases List.mem_append.mp hc with hc | hc
      · exact ih (n / 16) (by omega) hc
      · exact ⟨n % 16, Nat.mod_lt n (by decide), List.mem_singleton.mp hc⟩

theorem radixValue_toDigits {n : ℕ} (hn : n < 2 ^ 64) :
    radixValue 16 64 (Nat.toDigits 16 n) = some n := by
  induction n using Nat.strong_induction_on with
  | _ n ih =>
    rcases lt_or_ge n 16 with hlt | hge
    · rw [Nat.toDigits_of_lt_base hlt]
      simpa [radixValue, (digitChar_hex n hlt).1] using hn
    · -- The last digit is added to what the ones before it are worth.
      have hinit := ih (n / 16) (by omega) (by omega)
      have hlast := (digitChar_hex (n % 16) (Nat.mod_lt n (by decide))).1
      rw [Nat.toDigits_of_base_le (by decide) hge]
      unfold radixValue at hinit ⊢
      rw [List.foldlM_append, hinit]
      simpa [hlast, Nat.div_add_mod'] using hn

theorem mem_hex8 {x : U64} {c : Char} (hc : c ∈ hex8 x) : ∃ d < 16, c = Nat.digitChar d := by
  rcases List.mem_append.mp hc with hc | hc
  · exact ⟨0, by decide, List.eq_of_mem_replicate hc⟩
  · exact mem_toDigits_hex hc

theorem noBlank_hex8 {x : U64} {c : Char} (hc : c ∈ hex8 x) : isWhitespace c = false := by
  obtain ⟨d, hd, rfl⟩ := mem_hex8 hc
  exact (digitChar_hex d hd).2.1

theorem hex8_ne_nil (x : U64) : hex8 x ≠ [] :=
  List.append_ne_nil_of_right_ne_nil _ Nat.toDigits_ne_nil

/-- A number of the maps file is read as it was written. -/
theorem hexU64_hex8 (x : U64) : hexU64 (hex8 x) = some x := by
  have hzeros : ∀ k, radixValue 16 64 (List.replicate k '0') = some 0 := by
    intro k
    induction k with
    | zero => rfl
    | succ k ih =>
      exact ih
  have hvalue : radixValue 16 64 (hex8 x) = some x.toNat := by
    have hdigits := radixValue_toDigits x.isLt
    unfold hex8
    unfold radixValue at hzeros hdigits ⊢
    rw [List.foldlM_append, hzeros]
    exact hdigits
  have hsign : (hex8 x).head? ≠ some '+' := by
    intro hhead
    obtain ⟨d, hd, heq⟩ := mem_hex8 (List.mem_of_mem_head? hhead)
    exact (digitChar_hex d hd).2.2.1 heq.symm
  unfold hexU64 fromStrRadix
  simp only [if_neg hsign, if_neg (hex8_ne_nil x), hvalue]
  rw [Option.map_some, BitVec.ofNat_toNat, BitVec.setWidth_eq]

/-- A range of addresses is one field. -/
def rangeWord (start stop : U64) : Word where
  chars := hex8 start ++ '-' :: hex8 stop
  ne_nil := by simp
  noBlank := by
    intro c hc
    rcases List.mem_append.mp hc with hc | hc
    · exact noBlank_hex8 hc
    · rcases List.mem_cons.mp hc with rfl | hc
      · decide
      · exact noBlank_hex8 hc

def hexWord (x : U64) : Word where
  chars := hex8 x
  ne_nil := hex8_ne_nil x
  noBlank _ := noBlank_hex8

theorem splitOn_rangeWord (start stop : U64) :
    (rangeWord start stop).chars.splitOn '-' = [hex8 start, hex8 stop] := by
  have hdash : ∀ x : U64, '-' ∉ hex8 x := by
    intro x hmem
    obtain ⟨d, hd, heq⟩ := mem_hex8 hmem
    exact (digitChar_hex d hd).2.2.2 heq.symm
  unfold rangeWord
  rw [List.splitOn_append_cons_self_of_not_mem (hdash start),
    List.splitOn_eq_singleton (hdash stop)]

/-! ### A Segment -/

/-- What the kernel tells of an executable segment. -/
structure SegmentLine where
  start : U64
  stop : U64
  perms : Word
  executable : 'x' ∈ perms.chars
  offset : U64
  dev : Word
  inode : Word
  padding : ℕ
  path : Word

namespace SegmentLine

def text (line : SegmentLine) : List Char :=
  (rangeWord line.start line.stop).chars ++ ' ' :: (line.perms.chars ++ ' ' ::
    ((hexWord line.offset).chars ++ ' ' :: (line.dev.chars ++ ' ' ::
      (line.inode.chars ++ ' ' :: (List.replicate line.padding ' ' ++ line.path.chars)))))

/-- The path of the segment's file on the host. -/
def hostPath (line : SegmentLine) (procPath : String) (pid : U32) : String :=
  procPath ++ "/" ++ decString pid ++ "/root" ++ String.ofList line.path.chars

def entry (line : SegmentLine) (procPath : String) (pid : U32) : MapEntry where
  start := line.start
  stop := line.stop
  offset := line.offset
  hostPath := line.hostPath procPath pid

/-- A printed line is read back. -/
theorem parseMapsLine_text (line : SegmentLine) (procPath : String) (pid : U32) :
    parseMapsLine procPath pid line.text = some (line.entry procPath pid) := by
  have hblank : isWhitespace ' ' = true := by decide
  have hfields : splitWhitespace line.text =
      [(rangeWord line.start line.stop).chars, line.perms.chars, (hexWord line.offset).chars,
        line.dev.chars, line.inode.chars, line.path.chars] := by
    unfold text
    rw [splitWhitespace_word_blank _ hblank, splitWhitespace_word_blank _ hblank,
      splitWhitespace_word_blank _ hblank, splitWhitespace_word_blank _ hblank,
      splitWhitespace_word_blank _ hblank, splitWhitespace_blanks, splitWhitespace_word]
  unfold parseMapsLine
  rw [hfields]
  simp only [if_pos line.executable, splitOn_rangeWord, hexU64_hex8, Option.getD_some]
  have hoffset : hexU64 (hexWord line.offset).chars = some line.offset := hexU64_hex8 _
  rw [hoffset]
  rfl

theorem newline_not_mem_text (line : SegmentLine) : '\n' ∉ line.text := by
  unfold text
  simp [Word.newline_not_mem]

theorem text_ne_nil (line : SegmentLine) : line.text ≠ [] :=
  List.append_ne_nil_of_left_ne_nil (rangeWord line.start line.stop).ne_nil _

end SegmentLine

/-! ## A Symbol of a Mapped Segment -/

/-- A process with an executable segment of an image, and a function of it at virtual address `v`.
    No line before the segment's maps the function's address, no other symbol of the image overlaps
    the function, and what the resolver has cached is what the files say. A label has no size and so
    overlaps nothing; the function itself may be listed again, in `.symtab` and in `.dynsym`. -/
structure MappedSymbol (pOffset pVaddr v : U64) where
  r : SymbolResolver
  fs : ProcFs
  pid : U32
  line : SegmentLine
  offset_eq : line.offset = pOffset
  content : String
  read : fs.readToString (r.procPath ++ "/" ++ decString pid ++ "/maps") = some content
  before : List (List Char)
  after : List (List Char)
  lines : textLines content.toList = before ++ line.text :: after
  apart : ∀ l ∈ before, ∀ e, parseMapsLine r.procPath pid l = some e →
    e.covers (line.start + (v - pVaddr)) = false
  inside : (v - pVaddr).toNat < line.stop.toNat - line.start.toNat
  pre : List ElfSymbol
  size : U64
  name : String
  post : List ElfSymbol
  image : fs.elfSymbols (line.hostPath r.procPath pid) = some (pre ++ ⟨v, size, some name⟩ :: post)
  sized : size ≠ 0
  named : name.isEmpty = false
  alone : ∀ sym ∈ pre ++ post, sym.size = 0 ∨ sym = ⟨v, size, some name⟩ ∨
    sym.address.toNat + sym.size.toNat ≤ v.toNat ∨ v.toNat + size.toNat ≤ sym.address.toNat
  mapsCurrent : (r.mapsCache.lookup pid).getD (parseMaps r.procPath fs pid) =
    parseMaps r.procPath fs pid
  libCurrent : r.libOf fs (line.hostPath r.procPath pid) =
    parseElfSymbols fs (line.hostPath r.procPath pid)

namespace MappedSymbol

variable {pOffset pVaddr v : U64} (m : MappedSymbol pOffset pVaddr v)

/-- Where the function is in the process. -/
def address : U64 := m.line.start + (v - pVaddr)

def resolved : String := (m.r.resolveUncached m.fs m.pid m.address).1

theorem address_toNat : m.address.toNat = m.line.start.toNat + (v - pVaddr).toNat := by
  have hinside := m.inside
  unfold address
  rw [BitVec.toNat_add, Nat.mod_eq_of_lt (by omega)]

theorem covers_address : (m.line.entry m.r.procPath m.pid).covers m.address = true := by
  have hinside := m.inside
  have haddr := m.address_toNat
  unfold MapEntry.covers SegmentLine.entry
  simp only [Bool.and_eq_true, decide_eq_true_eq, BitVec.le_def, BitVec.lt_def]
  omega

/-- The address is looked up in the table of the segment's file, at its offset in the file. -/
theorem resolved_eq :
    m.resolved = (lookupName m.fs (m.line.hostPath m.r.procPath m.pid) (v - pVaddr + pOffset)).getD
      (unknownName (v - pVaddr + pOffset)) := by
  -- the line of the segment is the first that covers the address
  have hentries : parseMaps m.r.procPath m.fs m.pid =
      m.before.filterMap (parseMapsLine m.r.procPath m.pid) ++
        m.line.entry m.r.procPath m.pid ::
          m.after.filterMap (parseMapsLine m.r.procPath m.pid) := by
    unfold parseMaps
    rw [m.read]
    simp only [m.lines, List.filterMap_append,
      List.filterMap_cons_some (m.line.parseMapsLine_text m.r.procPath m.pid)]
  have hfind : (parseMaps m.r.procPath m.fs m.pid).find? (·.covers m.address) =
      some (m.line.entry m.r.procPath m.pid) := by
    have hbefore : (m.before.filterMap (parseMapsLine m.r.procPath m.pid)).find?
        (·.covers m.address) = none := by
      apply List.find?_eq_none.mpr
      intro e he
      obtain ⟨l, hl, hparse⟩ := List.mem_filterMap.mp he
      rw [Bool.not_eq_true]
      exact m.apart l hl e hparse
    rw [hentries, List.find?_append, hbefore, Option.none_or]
    exact List.find?_cons_of_pos m.covers_address
  have hoffset : (m.line.entry m.r.procPath m.pid).fileOffset m.address = v - pVaddr + pOffset := by
    unfold MapEntry.fileOffset SegmentLine.entry address
    rw [m.offset_eq]
    simp
  unfold resolved
  rw [SymbolResolver.resolveUncached_fst, m.mapsCurrent]
  unfold SymbolResolver.nameIn
  rw [hfind]
  simp only [hoffset]
  unfold symbolName lookupName
  rw [show (m.line.entry m.r.procPath m.pid).hostPath = m.line.hostPath m.r.procPath m.pid from rfl,
    m.libCurrent]

/-- The symbols of the image. -/
def listed : List ElfSymbol := m.pre ++ ⟨v, m.size, some m.name⟩ :: m.post

/-- The first symbol with a name that is listed at the function's address has its name. -/
def ListedFirst : Prop := ∀ t, (namedSymbols m.listed).find? (·.1 = v) = some t → t.2.2 = m.name

/-- A lookup of the function's virtual address consults the first symbol listed there. -/
theorem exists_nearest (hv : v ≠ 0) :
    ∃ t, (namedSymbols m.listed).find? (·.1 = v) = some t ∧ t.1 = v ∧ Nearest m.listed v t := by
  have hnamed : (⟨v, m.size, some m.name⟩ : ElfSymbol).named = some (v, m.size, m.name) :=
    ElfSymbol.named_eq_some_iff.mpr
      ⟨rfl, m.named, BitVec.lt_def.mpr (Nat.pos_of_ne_zero fun h => hv (BitVec.eq_of_toNat_eq h)),
        rfl, rfl⟩
  have hmem : (v, m.size, m.name) ∈ namedSymbols m.listed :=
    List.mem_filterMap.mpr ⟨_, List.mem_append_right _ List.mem_cons_self, hnamed⟩
  obtain ⟨t, ht⟩ : ∃ t, (namedSymbols m.listed).find? (·.1 = v) = some t := by
    rw [← Option.isSome_iff_exists, List.find?_isSome]
    exact ⟨_, hmem, by simp⟩
  have hat : t.1 = v := by simpa using List.find?_some ht
  refine ⟨t, ht, hat, hat.symm ▸ ht, hat ▸ le_rfl, ?_⟩
  -- nothing is nearer than a symbol at the address itself
  intro u _ hle
  exact hat.symm ▸ hle

/-- Where offsets are virtual addresses, a function is resolved to its name exactly if no symbol of
    another name is listed before it at its address. -/
theorem resolved_eq_name_iff (hlayout : pOffset = pVaddr) (hv : v ≠ 0) :
    m.resolved = m.name ↔ m.ListedFirst := by
  have hoff : v - pVaddr + pOffset = v := by
    rw [hlayout]
    exact BitVec.sub_add_cancel v pVaddr
  obtain ⟨t, ht, hat, hnearest⟩ := m.exists_nearest hv
  have hresolved : m.resolved = t.2.2 := by
    rw [m.resolved_eq, hoff, (lookup_of_nearest m.image hnearest).1, if_pos (.inl hat)]
    rfl
  rw [hresolved]
  constructor
  · intro hname u hu
    rw [ht, Option.some.injEq] at hu
    exact hu ▸ hname
  · intro hfirst
    exact hfirst t ht

end MappedSymbol

/-! ## One Function in One Segment -/

/-- A single word as a field. -/
def Word.ofString (s : String)
    (h : s.toList ≠ [] ∧ s.toList.all (fun c => !isWhitespace c) = true) : Word where
  chars := s.toList
  ne_nil := h.1
  noBlank := by
    intro c hc
    simpa using List.all_eq_true.mp h.2 c hc

/-- The first segment of a process, as long as needed. -/
def segmentTo (offset stop : U64) : SegmentLine where
  start := 0
  stop
  perms := .ofString "r-xp" (by decide)
  executable := by decide
  offset
  dev := .ofString "08:01" (by decide)
  inode := .ofString "131" (by decide)
  padding := 0
  path := .ofString "/lib.so" (by decide)

/-- A function of one byte with other symbols around it, mapped by a process. -/
def functionAmong (pOffset pVaddr v : U64) (hroom : (v - pVaddr).toNat + 1 < 2 ^ 64)
    (pre post : List ElfSymbol)
    (halone : ∀ sym ∈ pre ++ post, sym.size = 0 ∨ sym = ⟨v, 1, some "f"⟩ ∨
      sym.address.toNat + sym.size.toNat ≤ v.toNat ∨ v.toNat + 1 ≤ sym.address.toNat) :
    MappedSymbol pOffset pVaddr v where
  r := .new "/proc"
  fs := uniformFs (some (String.ofList (segmentTo pOffset (v - pVaddr + 1)).text))
    (pre ++ ⟨v, 1, some "f"⟩ :: post)
  pid := 1
  line := segmentTo pOffset (v - pVaddr + 1)
  offset_eq := rfl
  content := String.ofList (segmentTo pOffset (v - pVaddr + 1)).text
  read := rfl
  before := []
  after := []
  lines := by
    rw [String.toList_ofList]
    exact textLines_singleton (SegmentLine.text_ne_nil _) (SegmentLine.newline_not_mem_text _)
  apart := by simp
  inside := by
    have hstop : (v - pVaddr + 1).toNat = (v - pVaddr).toNat + 1 := by
      rw [BitVec.toNat_add]
      exact Nat.mod_eq_of_lt hroom
    show (v - pVaddr).toNat < (v - pVaddr + 1).toNat - 0
    omega
  pre
  size := 1
  name := "f"
  post
  image := rfl
  sized := by decide
  named := by decide
  alone := halone
  mapsCurrent := by
    -- nothing is cached yet, and the maps file need not be parsed to see that
    have hnone : (SymbolResolver.new "/proc").mapsCache.lookup 1 = none := rfl
    rw [hnone, Option.getD_none]
  libCurrent := rfl

/-- An image with that function only. -/
def oneFunction (pOffset pVaddr v : U64) (hroom : (v - pVaddr).toNat + 1 < 2 ^ 64) :
    MappedSymbol pOffset pVaddr v :=
  functionAmong pOffset pVaddr v hroom [] [] (by simp)

theorem namedSymbols_oneFunction {v : U64} {t : NamedSymbol}
    (ht : t ∈ namedSymbols [⟨v, 1, some "f"⟩]) : t = (v, 1, "f") ∧ v ≠ 0 := by
  obtain ⟨sym, hsym, hnamed⟩ := List.mem_filterMap.mp ht
  rw [List.mem_singleton] at hsym
  subst hsym
  obtain ⟨hname, -, hpos, haddr, hsize⟩ := ElfSymbol.named_eq_some_iff.mp hnamed
  refine ⟨Prod.ext haddr.symm (Prod.ext hsize.symm (Option.some.inj hname).symm), ?_⟩
  rintro rfl
  exact absurd hpos (by decide)

theorem oneFunction_listedFirst {pOffset pVaddr v : U64}
    (hroom : (v - pVaddr).toNat + 1 < 2 ^ 64) :
    (oneFunction pOffset pVaddr v hroom).ListedFirst := by
  intro t ht
  exact (namedSymbols_oneFunction (List.mem_of_find?_eq_some ht)).1 ▸ rfl

theorem unknownName_ne_f (x : U64) : unknownName x ≠ "f" := by
  intro h
  have hlist := congrArg String.toList h
  unfold unknownName at hlist
  rw [String.toList_append] at hlist
  exact absurd (List.cons.inj hlist).1 (by decide)

/-- At an address other than its own a function of one byte is not found, and at address zero not
    at all. -/
theorem lookupName_oneFunction {fs : ProcFs} {path : String} {v off : U64}
    (hlisted : fs.elfSymbols path = some [⟨v, 1, some "f"⟩]) (h : off ≠ v ∨ v = 0) :
    lookupName fs path off = none := by
  rcases Nearest.exists_or_forall_lt [⟨v, 1, some "f"⟩] off with ⟨s, hs⟩ | hbehind
  · obtain ⟨rfl, hv⟩ := namedSymbols_oneFunction (List.mem_of_find?_eq_some hs.first)
    have hlt : v.toNat < off.toNat :=
      lt_of_le_of_ne hs.below fun heq => (h.resolve_right hv) (BitVec.eq_of_toNat_eq heq.symm)
    have hend : v.toNat + (1 : U64).toNat < 2 ^ 64 := lt_of_le_of_lt hlt off.isLt
    rw [(lookup_of_nearest hlisted hs).1, if_neg]
    rw [answers_iff (show (1 : U64) ≠ 0 by decide) (.inr hend), not_lt]
    exact hlt
  · exact (lookup_of_none hlisted hbehind).1

/-- Elsewhere than where offsets are virtual addresses, that function is not found. -/
theorem oneFunction_unresolved {pOffset pVaddr v : U64} (hroom : (v - pVaddr).toNat + 1 < 2 ^ 64)
    (h : pOffset ≠ pVaddr ∨ v = 0) : (oneFunction pOffset pVaddr v hroom).resolved ≠ "f" := by
  have hoff : v - pVaddr + pOffset ≠ v ∨ v = 0 := by
    refine h.imp_left fun hne heq => hne ?_
    have hsum : v - pVaddr + pOffset = v - pVaddr + pVaddr := by
      rw [heq, BitVec.sub_add_cancel]
    exact (BitVec.add_right_inj _).mp hsum
  rw [MappedSymbol.resolved_eq,
    lookupName_oneFunction (oneFunction pOffset pVaddr v hroom).image hoff]
  exact unknownName_ne_f _

/-- Over all processes and images with a segment at `pOffset` and `pVaddr`, a function at `v` whose
    name is the first one listed there is resolved to it exactly if the two are equal, and the
    function is not at address zero. In such a segment no other function is resolved to its name. -/
theorem resolveUncached_segment_iff {pOffset pVaddr v : U64}
    (hroom : (v - pVaddr).toNat + 1 < 2 ^ 64) :
    ((∀ m : MappedSymbol pOffset pVaddr v, m.ListedFirst → m.resolved = m.name) ↔
      pOffset = pVaddr ∧ v ≠ 0) ∧
    (pOffset = pVaddr → v ≠ 0 →
      ∀ m : MappedSymbol pOffset pVaddr v, m.resolved = m.name ↔ m.ListedFirst) := by
  refine ⟨⟨fun h => ?_, ?_⟩, fun hlayout hv m => m.resolved_eq_name_iff hlayout hv⟩
  · -- otherwise an image with one function is resolved wrongly
    by_contra hnot
    have hcases : pOffset ≠ pVaddr ∨ v = 0 := by
      rw [not_and_or, not_not] at hnot
      exact hnot
    exact oneFunction_unresolved hroom hcases (h _ (oneFunction_listedFirst hroom))
  · rintro ⟨hlayout, hv⟩ m hfirst
    exact (m.resolved_eq_name_iff hlayout hv).mpr hfirst

/-- A function that is listed twice, and then a label at its address. -/
def listedTwice : MappedSymbol 0x1000 0x1000 0x1234 :=
  functionAmong 0x1000 0x1000 0x1234 (by decide) [⟨0x1234, 1, some "f"⟩] [⟨0x1234, 0, some "$x"⟩]
    (by decide)

/-- The function with the label before it. -/
def labelFirst : MappedSymbol 0x1000 0x1000 0x1234 :=
  functionAmong 0x1000 0x1000 0x1234 (by decide) [⟨0x1234, 0, some "$x"⟩] [] (by decide)

theorem resolveUncached_segment_same :
    listedTwice.resolved = "f" ∧ labelFirst.resolved ≠ "f" := by
  obtain ⟨hiff, hfirst⟩ := @resolveUncached_segment_iff 0x1000 0x1000 0x1234 (by decide)
  constructor
  · refine hiff.mpr ⟨rfl, by decide⟩ listedTwice ?_
    intro t ht
    exact (Option.some.inj (ht : some (0x1234, 1, "f") = some t)) ▸ rfl
  · intro hname
    have hlabel := (hfirst rfl (by decide) labelFirst).mp hname (0x1234, 0, "$x") (by decide)
    exact absurd hlabel (by decide)

/-- The text segment of a library linked with a page between offsets and virtual addresses. -/
theorem not_resolved_shifted : ∃ m : MappedSymbol 0x1000 0x2000 0x2010, m.resolved ≠ m.name :=
  ⟨oneFunction 0x1000 0x2000 0x2010 (by decide),
    oneFunction_unresolved (by decide) (.inl (by decide))⟩

end Profi
