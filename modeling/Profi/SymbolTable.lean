import Profi.Symbols

/-!
# What a Symbol Table Answers

`parse_elf_symbols` filters, sorts and deduplicates the symbols of a file, and a lookup consults one
entry of the result. Both are described here in terms of the file: the table has, for each address,
the first symbol listed there, and a lookup decides by the last of these at or below the offset
(`Nearest`). A symbol that reaches over a later one is therefore not found behind it, and a label
without a size hides whatever it stands in (`lookup_covering_iff`).
-/

namespace Profi

/-! ## The Named Symbols -/

/-- The entry a symbol can have in the table: one with a name, and not at address zero. -/
def ElfSymbol.named (sym : ElfSymbol) : Option NamedSymbol :=
  match sym.name with
  | some name =>
    if name.isEmpty = false ∧ sym.address > 0 then some (sym.address, sym.size, name) else none
  | none => none

/-- The symbols of a file that can be in its table, in the order of the file. -/
def namedSymbols (listed : List ElfSymbol) : List NamedSymbol := listed.filterMap ElfSymbol.named

variable {listed : List ElfSymbol} {s : NamedSymbol} {off : U64} (symbols : List NamedSymbol)
  {fs : ProcFs}

theorem ElfSymbol.named_eq_some_iff {sym : ElfSymbol} :
    sym.named = some s ↔ sym.name = some s.2.2 ∧ s.2.2.isEmpty = false ∧ 0 < sym.address ∧
      sym.address = s.1 ∧ sym.size = s.2.1 := by
  obtain ⟨address, size, name⟩ := s
  unfold ElfSymbol.named
  cases hname : sym.name with
  | none => simp
  | some n =>
    simp only [Option.ite_none_right_eq_some, Option.some.injEq, Prod.mk.injEq]
    constructor
    · rintro ⟨⟨hne, hpos⟩, haddr, hsize, rfl⟩
      exact ⟨rfl, hne, hpos, haddr, hsize⟩
    · rintro ⟨rfl, hne, hpos, haddr, hsize⟩
      exact ⟨⟨hne, hpos⟩, haddr, hsize, rfl⟩

theorem keepSymbol_eq (sym : ElfSymbol) :
    keepSymbol symbols sym =
      if sym.size = 0 ∧ ∃ s ∈ symbols, s.1 = sym.address then symbols
      else symbols ++ sym.named.toList := by
  unfold keepSymbol ElfSymbol.named
  split
  · rfl
  · cases sym.name with
    | none => simp
    | some name =>
      simp only
      split <;> simp

/-- A label that is dropped was not the first at its address. -/
theorem find?_keepSymbol (sym : ElfSymbol) (a : U64) :
    (keepSymbol symbols sym).find? (·.1 = a) = (symbols ++ sym.named.toList).find? (·.1 = a) := by
  rw [keepSymbol_eq]
  split
  next hdrop =>
    obtain ⟨-, s, hs, haddr⟩ := hdrop
    rw [List.find?_append]
    cases hfind : symbols.find? (·.1 = a) with
    | some t => rfl
    | none =>
      -- nothing is kept at `a`, so the dropped symbol is at another address
      have hne : s.1 ≠ a := by simpa using List.find?_eq_none.mp hfind s hs
      cases hnamed : sym.named with
      | none => rfl
      | some t =>
        have ht : t.1 = sym.address := (ElfSymbol.named_eq_some_iff.mp hnamed).2.2.2.1.symm
        have hta : t.1 ≠ a := fun h => hne (by rw [haddr, ← ht, h])
        simp [hta]
  · rfl

theorem find?_foldl_keepSymbol (listed : List ElfSymbol) (symbols : List NamedSymbol) (a : U64) :
    (listed.foldl keepSymbol symbols).find? (·.1 = a) =
      (symbols ++ namedSymbols listed).find? (·.1 = a) := by
  induction listed generalizing symbols with
  | nil => simp [namedSymbols]
  | cons sym listed ih =>
    have hcons : namedSymbols (sym :: listed) = sym.named.toList ++ namedSymbols listed := by
      unfold namedSymbols
      rw [List.filterMap_cons]
      cases sym.named <;> rfl
    rw [List.foldl_cons, ih, hcons, ← List.append_assoc, List.find?_append, List.find?_append,
      find?_keepSymbol]

/-! ## The Table -/

theorem atAddress_eq (a : U64) :
    (fun s : NamedSymbol => decide (s.1 = a)) = fun s => decide (s.1.toNat = a.toNat) := by
  funext s
  exact decide_eq_decide.mpr BitVec.toNat_inj.symm

/-- Sorting keeps the order of symbols at one address. -/
theorem filter_sortByAddress (a : U64) :
    (sortByAddress symbols).filter (·.1 = a) = symbols.filter (·.1 = a) := by
  rw [atAddress_eq]
  exact KeySort.filter_mergeSort (fun s : NamedSymbol => s.1.toNat) symbols a.toNat

/-- Of the symbols at an address the first one stays. -/
theorem mem_dedupByAddress_cons {u : NamedSymbol} {rest : List NamedSymbol}
    (h : (u :: rest).Pairwise fun s t => s.1.toNat ≤ t.1.toNat) :
    s ∈ dedupByAddress (u :: rest) ↔ s = u ∨ s ∈ dedupByAddress rest ∧ s.1 ≠ u.1 := by
  obtain ⟨hhead, htail⟩ := List.pairwise_cons.mp h
  obtain ⟨hsorted, hmem⟩ := dedupByAddress_sorted htail
  rw [dedupByAddress]
  cases hd : dedupByAddress rest with
  | nil => simp
  | cons t kept =>
    rw [hd] at hsorted hmem
    obtain ⟨ht, -⟩ := List.pairwise_cons.mp hsorted
    have hut : u.1.toNat ≤ t.1.toNat := hhead t (hmem t List.mem_cons_self)
    have hkept : ∀ s ∈ kept, s.1 ≠ u.1 := by
      intro s hs heq
      have hlt := ht s hs
      rw [heq] at hlt
      exact absurd hut (by omega)
    simp only
    split
    · -- `t` is at the address of `u` and goes; it is the only one
      rename_i heq
      rw [List.mem_cons, List.mem_cons]
      refine or_congr_right ⟨fun hs => ⟨.inr hs, hkept s hs⟩, ?_⟩
      rintro ⟨rfl | hs, hne⟩
      · exact absurd heq hne
      · exact hs
    next hne =>
      rw [List.mem_cons]
      refine or_congr_right ⟨fun hs => ⟨hs, ?_⟩, fun hs => hs.1⟩
      rcases List.mem_cons.mp hs with rfl | hs
      · exact hne
      · exact hkept s hs

/-- Of a sorted list the first entry at each address stays. -/
theorem mem_dedupByAddress_iff {symbols : List NamedSymbol}
    (h : symbols.Pairwise fun s t => s.1.toNat ≤ t.1.toNat) :
    s ∈ dedupByAddress symbols ↔ symbols.find? (·.1 = s.1) = some s := by
  induction symbols with
  | nil => simp [dedupByAddress]
  | cons u rest ih =>
    rw [mem_dedupByAddress_cons h, ih (List.pairwise_cons.mp h).2, List.find?_cons]
    by_cases heq : u.1 = s.1
    · simp [heq, eq_comm]
    · have hne : s ≠ u := fun h => heq (h ▸ rfl)
      simp [heq, hne, Ne.symm heq]

/-- The entries of a file's table. -/
def tableEntries (listed : List ElfSymbol) : List NamedSymbol :=
  dedupByAddress (sortByAddress (listed.foldl keepSymbol []))

/-- For each address the first symbol listed there. -/
theorem mem_tableEntries_iff :
    s ∈ tableEntries listed ↔ (namedSymbols listed).find? (·.1 = s.1) = some s := by
  unfold tableEntries
  rw [mem_dedupByAddress_iff (sortByAddress_sorted _), ← List.head?_filter, filter_sortByAddress,
    List.head?_filter, find?_foldl_keepSymbol, List.nil_append]

/-- A symbol that can be in the table has its address in it. -/
theorem exists_mem_tableEntries (hs : s ∈ namedSymbols listed) :
    ∃ t ∈ tableEntries listed, t.1 = s.1 := by
  obtain ⟨t, ht⟩ : ∃ t, (namedSymbols listed).find? (·.1 = s.1) = some t := by
    rw [← Option.isSome_iff_exists, List.find?_isSome]
    exact ⟨s, hs, by simp⟩
  have haddr : t.1 = s.1 := by simpa using List.find?_some ht
  exact ⟨t, mem_tableEntries_iff.mpr (haddr ▸ ht), haddr⟩

theorem parseElfSymbols_cases {path : String} {listed : List ElfSymbol}
    (hlisted : fs.elfSymbols path = some listed) :
    (parseElfSymbols fs path = none ∧ tableEntries listed = []) ∨
      ∃ lib, parseElfSymbols fs path = some lib ∧ lib.symbols = tableEntries listed := by
  unfold parseElfSymbols
  rw [hlisted]
  simp only [Option.bind_eq_bind, Option.bind_some]
  split
  next hempty => exact .inl ⟨rfl, List.isEmpty_iff.mp hempty⟩
  · exact .inr ⟨_, rfl, rfl⟩

/-! ## The Lookup -/

namespace LibSymbols

/-- The sum `sym_addr + sym_size` of a lookup that comes to it. -/
def sumAt (lib : LibSymbols) (fileOffset : U64) : Option (U64 × U64) :=
  match lib.symbols.find? (·.1 = fileOffset) with
  | some _ => none
  | none =>
    match (lib.symbols.takeWhile (·.1 < fileOffset)).getLast? with
    | some (symAddr, symSize, _) => if symSize = 0 then none else some (symAddr, symSize)
    | none => none

variable {lib : LibSymbols} {off : U64} {s : NamedSymbol}

/-- The entry with the greatest address up to the offset is hit by the search, or is the one before
    the place where it ends. -/
theorem search_of_nearest (hs : s ∈ lib.symbols) (hle : s.1.toNat ≤ off.toNat)
    (hlast : ∀ t ∈ lib.symbols, t.1.toNat ≤ off.toNat → t.1.toNat ≤ s.1.toNat) :
    (s.1 = off ∧ lib.symbols.find? (·.1 = off) = some s) ∨
      (s.1 ≠ off ∧ lib.symbols.find? (·.1 = off) = none ∧
        (lib.symbols.takeWhile (·.1 < off)).getLast? = some s) := by
  have hsearch := KeySort.search_of_greatest lib.sorted hs hle hlast
  rw [Ne, BitVec.toNat_inj] at hsearch
  rw [atAddress_eq]
  exact hsearch

/-- Below the first entry the search finds nothing. -/
theorem search_of_none (hnone : ∀ t ∈ lib.symbols, off.toNat < t.1.toNat) :
    lib.symbols.find? (·.1 = off) = none ∧
      (lib.symbols.takeWhile (·.1 < off)).getLast? = none := by
  rw [atAddress_eq]
  exact KeySort.search_of_none hnone

end LibSymbols

/-- The symbol a lookup decides by: of those at the greatest address up to the offset, the one
    listed first. -/
structure Nearest (listed : List ElfSymbol) (off : U64) (s : NamedSymbol) : Prop where
  first : (namedSymbols listed).find? (·.1 = s.1) = some s
  below : s.1.toNat ≤ off.toNat
  last : ∀ t ∈ namedSymbols listed, t.1.toNat ≤ off.toNat → t.1.toNat ≤ s.1.toNat

/-- Some symbol at or below the offset is the nearest. -/
theorem Nearest.exists_of_mem {t : NamedSymbol} (ht : t ∈ namedSymbols listed)
    (hle : t.1.toNat ≤ off.toNat) : ∃ s, Nearest listed off s := by
  obtain ⟨u, hu, haddr⟩ := exists_mem_tableEntries ht
  have hbelow : u ∈ (tableEntries listed).filter (·.1.toNat ≤ off.toNat) :=
    List.mem_filter.mpr ⟨hu, by rw [haddr]; exact decide_eq_true hle⟩
  cases hmax : ((tableEntries listed).filter (·.1.toNat ≤ off.toNat)).argmax (·.1.toNat) with
  | none =>
    rw [List.argmax_eq_none.mp hmax] at hbelow
    cases hbelow
  | some s =>
    obtain ⟨hs, hsle⟩ := List.mem_filter.mp (List.argmax_mem hmax)
    refine ⟨s, mem_tableEntries_iff.mp hs, of_decide_eq_true hsle, ?_⟩
    intro v hv hvle
    obtain ⟨w, hw, hwaddr⟩ := exists_mem_tableEntries hv
    rw [← hwaddr] at hvle ⊢
    have hwbelow : w ∈ (tableEntries listed).filter (·.1.toNat ≤ off.toNat) :=
      List.mem_filter.mpr ⟨hw, decide_eq_true hvle⟩
    exact List.le_of_mem_argmax (f := fun u : NamedSymbol => u.1.toNat) hwbelow hmax

theorem Nearest.exists_or_forall_lt (listed : List ElfSymbol) (off : U64) :
    (∃ s, Nearest listed off s) ∨ ∀ t ∈ namedSymbols listed, off.toNat < t.1.toNat := by
  by_cases hany : ∃ t ∈ namedSymbols listed, t.1.toNat ≤ off.toNat
  · obtain ⟨t, ht, hle⟩ := hany
    exact .inl (Nearest.exists_of_mem ht hle)
  · refine .inr fun t ht => ?_
    by_contra hnot
    exact hany ⟨t, ht, Nat.le_of_not_lt hnot⟩

/-- A symbol is asked for an offset at or behind it. Its end is a sum of 64 bits. -/
def Answers (s : NamedSymbol) (off : U64) : Prop :=
  s.1 = off ∨ s.2.1 = 0 ∨ off < s.1 + s.2.1

instance (s : NamedSymbol) (off : U64) : Decidable (Answers s off) :=
  inferInstanceAs (Decidable (s.1 = off ∨ s.2.1 = 0 ∨ off < s.1 + s.2.1))

/-- A symbol whose end is in range answers for the offsets it covers. -/
theorem answers_iff (hsize : s.2.1 ≠ 0) (hrange : s.1 = off ∨ s.1.toNat + s.2.1.toNat < 2 ^ 64) :
    Answers s off ↔ off.toNat < s.1.toNat + s.2.1.toNat := by
  have hpos : 0 < s.2.1.toNat := Nat.pos_of_ne_zero fun h => hsize (BitVec.eq_of_toNat_eq h)
  unfold Answers
  rcases hrange with rfl | hrange
  · simp only [true_or, true_iff]
    omega
  · rw [BitVec.lt_def, BitVec.toNat_add, Nat.mod_eq_of_lt hrange]
    constructor
    · rintro (rfl | hzero | hlt)
      · omega
      · exact absurd hzero hsize
      · exact hlt
    · intro hlt
      exact .inr (.inr hlt)

/-- The name of an offset, by the table of a file. -/
def lookupName (fs : ProcFs) (path : String) (off : U64) : Option String :=
  (parseElfSymbols fs path).bind (·.nameAt off)

/-- The sum that the lookup of an offset makes. -/
def lookupSum (fs : ProcFs) (path : String) (off : U64) : Option (U64 × U64) :=
  (parseElfSymbols fs path).bind (·.sumAt off)

section Lookup

variable {fs : ProcFs} {path : String} {listed : List ElfSymbol} {off : U64}

/-- A lookup asks the nearest symbol only. -/
theorem lookup_of_nearest (hlisted : fs.elfSymbols path = some listed) {s : NamedSymbol}
    (h : Nearest listed off s) :
    lookupName fs path off = (if Answers s off then some s.2.2 else none) ∧
      lookupSum fs path off =
        (if s.1 = off ∨ s.2.1 = 0 then none else some (s.1, s.2.1)) := by
  have hmem : s ∈ tableEntries listed := mem_tableEntries_iff.mpr h.first
  unfold lookupName lookupSum
  rcases parseElfSymbols_cases hlisted with ⟨-, hempty⟩ | ⟨lib, hlib, hentries⟩
  · rw [hempty] at hmem
    cases hmem
  · have hlast : ∀ t ∈ lib.symbols, t.1.toNat ≤ off.toNat → t.1.toNat ≤ s.1.toNat := by
      intro t ht
      rw [hentries] at ht
      exact h.last t (List.mem_of_find?_eq_some (mem_tableEntries_iff.mp ht))
    rw [hlib, Option.bind_some, Option.bind_some]
    unfold LibSymbols.nameAt LibSymbols.sumAt Answers
    rcases LibSymbols.search_of_nearest (hentries ▸ hmem) h.below hlast with
      ⟨heq, hfind⟩ | ⟨hne, hfind, hprev⟩
    · rw [hfind]
      simp [heq]
    · rw [hfind, hprev]
      simp [hne]

theorem lookup_of_none (hlisted : fs.elfSymbols path = some listed)
    (hnone : ∀ t ∈ namedSymbols listed, off.toNat < t.1.toNat) :
    lookupName fs path off = none ∧ lookupSum fs path off = none := by
  unfold lookupName lookupSum
  rcases parseElfSymbols_cases hlisted with ⟨hlib, -⟩ | ⟨lib, hlib, hentries⟩
  · rw [hlib]
    exact ⟨rfl, rfl⟩
  · have hbehind : ∀ t ∈ lib.symbols, off.toNat < t.1.toNat := by
      intro t ht
      rw [hentries] at ht
      exact hnone t (List.mem_of_find?_eq_some (mem_tableEntries_iff.mp ht))
    obtain ⟨hfind, hprev⟩ := LibSymbols.search_of_none hbehind
    rw [hlib, Option.bind_some, Option.bind_some]
    unfold LibSymbols.nameAt LibSymbols.sumAt
    rw [hfind, hprev]
    exact ⟨rfl, rfl⟩

end Lookup

/-! ## Covering Symbols -/

/-- The offset lies in the range of a symbol that has a size, in exact arithmetic. -/
def ElfSymbol.Covers (sym : ElfSymbol) (off : U64) : Prop :=
  sym.size ≠ 0 ∧ sym.address.toNat ≤ off.toNat ∧ off.toNat < sym.address.toNat + sym.size.toNat

/-- The offset lies in a symbol that has a name, and is not at address zero. -/
def Covered (listed : List ElfSymbol) (off : U64) : Prop :=
  ∃ sym ∈ listed, sym.named.isSome = true ∧ sym.Covers off

/-- A covered offset gets the name of a symbol that covers it, and no sum of the lookup leaves
    64 bits. -/
def LookupCovers (fs : ProcFs) (path : String) (listed : List ElfSymbol) (off : U64) : Prop :=
  (Covered listed off →
    ∃ sym ∈ listed, sym.Covers off ∧ ∃ name, sym.name = some name ∧
      lookupName fs path off = some name) ∧
  ∀ symAddr symSize, lookupSum fs path off = some (symAddr, symSize) →
    symAddr.toNat + symSize.toNat < 2 ^ 64

/-- What the one symbol must be like that a lookup decides by. If it is asked for its end, this is
    in range; and if the offset is covered at all, it covers it, or is a label with the name of a
    symbol that does. -/
def NearestSuffices (listed : List ElfSymbol) (off : U64) : Prop :=
  ∀ s, Nearest listed off s →
    (s.1 = off ∨ s.2.1 = 0 ∨ s.1.toNat + s.2.1.toNat < 2 ^ 64) ∧
    (Covered listed off →
      (s.2.1 ≠ 0 ∧ off.toNat < s.1.toNat + s.2.1.toNat) ∨
        (s.2.1 = 0 ∧ ∃ sym ∈ listed, sym.Covers off ∧ sym.name = some s.2.2))

theorem Covered.exists_nearest (h : Covered listed off) : ∃ s, Nearest listed off s := by
  obtain ⟨sym, hsym, hnamed, -, hle, -⟩ := h
  obtain ⟨t, ht⟩ := Option.isSome_iff_exists.mp hnamed
  have haddr := (ElfSymbol.named_eq_some_iff.mp ht).2.2.2.1
  exact Nearest.exists_of_mem (List.mem_filterMap.mpr ⟨sym, hsym, ht⟩) (haddr ▸ hle)

/-- The symbol with the entry a lookup decides by. -/
theorem Nearest.exists_symbol {s : NamedSymbol} (h : Nearest listed off s) :
    ∃ sym ∈ listed, sym.address = s.1 ∧ sym.size = s.2.1 ∧ sym.name = some s.2.2 := by
  obtain ⟨sym, hsym, hnamed⟩ := List.mem_filterMap.mp (List.mem_of_find?_eq_some h.first)
  obtain ⟨hname, -, -, haddr, hsize⟩ := ElfSymbol.named_eq_some_iff.mp hnamed
  exact ⟨sym, hsym, haddr, hsize, hname⟩

/-- If the symbol suffices, the lookup of a covered offset has the name of one that covers it. -/
theorem NearestSuffices.covering {path : String} {listed : List ElfSymbol} {off : U64}
    (h : NearestSuffices listed off) (hlisted : fs.elfSymbols path = some listed)
    (hcovered : Covered listed off) :
    ∃ sym ∈ listed, sym.Covers off ∧ ∃ name, sym.name = some name ∧
      lookupName fs path off = some name := by
  obtain ⟨s, hs⟩ := hcovered.exists_nearest
  obtain ⟨hrange, hsuffices⟩ := h s hs
  have hname := (lookup_of_nearest hlisted hs).1
  rcases hsuffices hcovered with ⟨hsize, hlt⟩ | ⟨hsize, sym, hsym, hcov, hsymName⟩
  · obtain ⟨sym, hsym, haddr, hsymSize, hsymName⟩ := hs.exists_symbol
    have hend : s.1 = off ∨ s.1.toNat + s.2.1.toNat < 2 ^ 64 :=
      hrange.imp_right fun h => h.resolve_left hsize
    rw [if_pos ((answers_iff hsize hend).mpr hlt)] at hname
    refine ⟨sym, hsym, ⟨hsymSize ▸ hsize, haddr ▸ hs.below, ?_⟩, s.2.2, hsymName, hname⟩
    rw [haddr, hsymSize]
    exact hlt
  · -- a label answers for everything behind it
    have hanswers : Answers s off := .inr (.inl hsize)
    rw [if_pos hanswers] at hname
    exact ⟨sym, hsym, hcov, s.2.2, hsymName, hname⟩

/-- If the symbol suffices, its end is in range when it is asked for. -/
theorem NearestSuffices.lookupSum_lt {path : String} {listed : List ElfSymbol} {off : U64}
    (h : NearestSuffices listed off) (hlisted : fs.elfSymbols path = some listed)
    {symAddr symSize : U64} (hsum : lookupSum fs path off = some (symAddr, symSize)) :
    symAddr.toNat + symSize.toNat < 2 ^ 64 := by
  rcases Nearest.exists_or_forall_lt listed off with ⟨s, hs⟩ | hbehind
  · rw [(lookup_of_nearest hlisted hs).2, Option.ite_none_left_eq_some, Option.some.injEq,
      Prod.mk.injEq, not_or] at hsum
    obtain ⟨⟨hne, hsize⟩, rfl, rfl⟩ := hsum
    exact ((h s hs).1.resolve_left hne).resolve_left hsize
  · rw [(lookup_of_none hlisted hbehind).2] at hsum
    cases hsum

/-- A lookup finds a covering symbol, without a sum out of range, exactly if the one symbol it
    consults suffices. -/
theorem lookup_covering_iff {fs : ProcFs} {path : String} {listed : List ElfSymbol}
    (hlisted : fs.elfSymbols path = some listed) (off : U64) :
    LookupCovers fs path listed off ↔ NearestSuffices listed off := by
  constructor
  · rintro ⟨hcovers, hsum⟩ s hs
    obtain ⟨hname, hsumAt⟩ := lookup_of_nearest hlisted hs
    -- the sum of the lookup is that of the symbol it consults
    have hrange : s.1 = off ∨ s.2.1 = 0 ∨ s.1.toNat + s.2.1.toNat < 2 ^ 64 := by
      by_contra hnot
      rw [not_or, not_or] at hnot
      obtain ⟨hne, hsize, hover⟩ := hnot
      rw [if_neg (not_or.mpr ⟨hne, hsize⟩)] at hsumAt
      exact hover (hsum _ _ hsumAt)
    refine ⟨hrange, ?_⟩
    intro hcovered
    obtain ⟨sym, hsym, hcov, name, hsymName, hfound⟩ := hcovers hcovered
    rw [hname, Option.ite_none_right_eq_some, Option.some.injEq] at hfound
    obtain ⟨hanswers, rfl⟩ := hfound
    by_cases hsize : s.2.1 = 0
    · exact .inr ⟨hsize, sym, hsym, hcov, hsymName⟩
    · have hend : s.1 = off ∨ s.1.toNat + s.2.1.toNat < 2 ^ 64 :=
        hrange.imp_right fun h => h.resolve_left hsize
      exact .inl ⟨hsize, (answers_iff hsize hend).mp hanswers⟩
  · intro h
    exact ⟨h.covering hlisted, fun _ _ => h.lookupSum_lt hlisted⟩

/-- A file system in which every text and every object file is the same. -/
def uniformFs (text : Option String) (listed : List ElfSymbol) : ProcFs where
  readToString _ := text
  elfSymbols _ := some listed

/-- A function with a label behind its end. -/
def labelBehind : List ElfSymbol := [⟨0x100, 0x40, some "gemm"⟩, ⟨0x140, 0, some "end"⟩]

theorem lookup_covering_labelBehind :
    LookupCovers (uniformFs none labelBehind) "lib" labelBehind 0x120 := by
  refine (lookup_covering_iff rfl 0x120).mpr ?_
  intro s hs
  have hmem : s ∈ [((0x100, 0x40, "gemm") : NamedSymbol), (0x140, 0, "end")] :=
    List.mem_of_find?_eq_some hs.first
  have hbelow := hs.below
  simp only [List.mem_cons, List.not_mem_nil, or_false] at hmem
  rcases hmem with rfl | rfl
  · exact ⟨.inr (.inr (by decide)), fun _ => .inl ⟨by decide, by decide⟩⟩
  · exact absurd hbelow (by decide)

/-- A function with another one inside its range. -/
def nestedSymbols : List ElfSymbol := [⟨0x100, 0x100, some "outer"⟩, ⟨0x120, 0x10, some "inner"⟩]

theorem not_lookupCovers_nested :
    ¬ LookupCovers (uniformFs none nestedSymbols) "lib" nestedSymbols 0x150 := by
  rintro ⟨hcovers, -⟩
  have hcovered : Covered nestedSymbols 0x150 :=
    ⟨⟨0x100, 0x100, some "outer"⟩, List.mem_cons_self, by decide, by decide, by decide, by decide⟩
  have hnearest : Nearest nestedSymbols 0x150 (0x120, 0x10, "inner") :=
    ⟨by decide, by decide, by decide⟩
  have hnone : lookupName (uniformFs none nestedSymbols) "lib" 0x150 = none :=
    (lookup_of_nearest rfl hnearest).1
  obtain ⟨-, -, -, name, -, hfound⟩ := hcovers hcovered
  rw [hnone] at hfound
  cases hfound

end Profi
