import Profi.Enricher
import Profi.KernelNames
import Profi.Lib.KeySort
import Profi.Lib.Lru
import Profi.Lib.Runs

/-!
# The Symbol Resolver

`src/symbols.rs`: the resolver that names a function address of a process from the symbol table of
the file it is mapped from. Three caches are in front of `/proc`: answers by process and address,
memory maps by process, symbol tables by path. The path goes through `/proc/<pid>/root`, so it
names a process too.

`evict_pids` clears the first two caches. What a later process with the same number is told is
then a matter of the third (`SymbolResolver.resolve_forgotten`).
-/

namespace Profi

open Text

/-! ## What is read -/

/-- A symbol as the object file lists it; a name that is no text is an error. -/
structure ElfSymbol where
  address : U64
  size : U64
  name : Option String
  deriving DecidableEq

/-- The files the resolver reads: texts, and the symbols of object files, the static ones first. -/
structure ProcFs where
  readToString : String → Option String
  elfSymbols : String → Option (List ElfSymbol)

structure MapEntry where
  start : U64
  stop : U64
  offset : U64
  hostPath : String
  deriving DecidableEq

/-- `u64::from_str_radix(text, 16)`. -/
def hexU64 (text : List Char) : Option U64 := (fromStrRadix 16 64 text).map (.ofNat 64)

/-- One line of `/proc/<pid>/maps`: an executable mapping of a file. -/
def parseMapsLine (procPath : String) (pid : U32) (line : List Char) : Option MapEntry :=
  match splitWhitespace line with
  | range :: perms :: offset :: _ :: _ :: path :: _ =>
    if 'x' ∈ perms then
      match range.splitOn '-' with
      | [start, stop] =>
        some
          { start := (hexU64 start).getD 0
            stop := (hexU64 stop).getD 0
            offset := (hexU64 offset).getD 0
            hostPath := procPath ++ "/" ++ decString pid ++ "/root" ++ String.ofList path }
      | _ => none
    else none
  | _ => none

/-- `parse_maps`; a process without readable maps has none. -/
def parseMaps (procPath : String) (fs : ProcFs) (pid : U32) : List MapEntry :=
  match fs.readToString (procPath ++ "/" ++ decString pid ++ "/maps") with
  | none => []
  | some content => (textLines content.toList).filterMap (parseMapsLine procPath pid)

/-! ## Symbol tables -/

/-- A named symbol: address, size, name. -/
abbrev NamedSymbol := U64 × U64 × String

/-- `symbols.dedup_by_key(|s| s.0)`: of neighbours with one address the first stays. -/
def dedupByAddress : List NamedSymbol → List NamedSymbol
  | [] => []
  | s :: rest =>
    match dedupByAddress rest with
    | [] => [s]
    | t :: kept => if t.1 = s.1 then s :: kept else s :: t :: kept

/-- `LibSymbols`, sorted by address. -/
structure LibSymbols where
  symbols : List NamedSymbol
  sorted : symbols.Pairwise fun s t => s.1.toNat < t.1.toNat

/-- The symbols that are kept, in the order of the file. A symbol without a size is dropped if there
    is one at its address already. -/
def keepSymbol (symbols : List NamedSymbol) (sym : ElfSymbol) : List NamedSymbol :=
  if sym.size = 0 ∧ ∃ s ∈ symbols, s.1 = sym.address then symbols
  else
    match sym.name with
    | some name =>
      if name.isEmpty = false ∧ sym.address > 0 then symbols ++ [(sym.address, sym.size, name)]
      else symbols
    | none => symbols

/-- `symbols.sort_by_key(|&(a, _, _)| a)`. -/
def sortByAddress (symbols : List NamedSymbol) : List NamedSymbol :=
  symbols.mergeSort fun s t => s.1.toNat ≤ t.1.toNat

/-- What is left is strictly sorted by address, and nothing is new. -/
theorem dedupByAddress_sorted {symbols : List NamedSymbol}
    (h : symbols.Pairwise fun s t => s.1.toNat ≤ t.1.toNat) :
    (dedupByAddress symbols).Pairwise (fun s t => s.1.toNat < t.1.toNat) ∧
      ∀ t ∈ dedupByAddress symbols, t ∈ symbols := by
  induction symbols with
  | nil => exact ⟨.nil, fun t ht => ht⟩
  | cons s rest ih =>
    obtain ⟨hhead, htail⟩ := List.pairwise_cons.mp h
    obtain ⟨hsorted, hmem⟩ := ih htail
    unfold dedupByAddress
    cases hd : dedupByAddress rest with
    | nil => exact ⟨List.pairwise_singleton _ s, by simp⟩
    | cons t kept =>
      rw [hd] at hsorted hmem
      obtain ⟨ht, hkept⟩ := List.pairwise_cons.mp hsorted
      have hst : s.1.toNat ≤ t.1.toNat := hhead t (hmem t List.mem_cons_self)
      have hrest : ∀ u ∈ kept, u ∈ s :: rest :=
        fun u hu => List.mem_cons_of_mem s (hmem u (List.mem_cons_of_mem t hu))
      simp only
      split
      -- `t` goes, and `s` takes its place
      next heq =>
        refine ⟨List.pairwise_cons.mpr ⟨fun u hu => heq ▸ ht u hu, hkept⟩, ?_⟩
        intro u hu
        rcases List.mem_cons.mp hu with rfl | hu
        · exact List.mem_cons_self
        · exact hrest u hu
      next hne =>
        have hlt : s.1.toNat < t.1.toNat :=
          lt_of_le_of_ne hst fun h => hne (BitVec.eq_of_toNat_eq h.symm)
        refine ⟨List.pairwise_cons.mpr ⟨?_, hsorted⟩, ?_⟩
        · intro u hu
          rcases List.mem_cons.mp hu with rfl | hu
          · exact hlt
          · exact hlt.trans (ht u hu)
        · intro u hu
          rcases List.mem_cons.mp hu with rfl | hu
          · exact List.mem_cons_self
          · exact List.mem_cons_of_mem s (hmem u hu)

theorem sortByAddress_sorted (symbols : List NamedSymbol) :
    (sortByAddress symbols).Pairwise fun s t => s.1.toNat ≤ t.1.toNat :=
  KeySort.pairwise_mergeSort (fun s : NamedSymbol => s.1.toNat) symbols

/-- `parse_elf_symbols`; a file without symbols has no table. -/
def parseElfSymbols (fs : ProcFs) (path : String) : Option LibSymbols := do
  let listed ← fs.elfSymbols path
  let symbols := sortByAddress (listed.foldl keepSymbol [])
  let lib : LibSymbols :=
    ⟨dedupByAddress symbols, (dedupByAddress_sorted (sortByAddress_sorted _)).1⟩
  if lib.symbols.isEmpty then none else some lib

namespace LibSymbols

/-- The symbol an offset lies in. The table is sorted and has every address once, so the binary
    search ends at the symbol with this address, or behind those with smaller ones. -/
def nameAt (lib : LibSymbols) (fileOffset : U64) : Option String :=
  match lib.symbols.find? (·.1 = fileOffset) with
  | some sym => some sym.2.2
  | none =>
    match (lib.symbols.takeWhile (·.1 < fileOffset)).getLast? with
    | some (symAddr, symSize, name) =>
      -- a symbol without a size reaches to the next one
      if symSize = 0 ∨ fileOffset < symAddr + symSize then some name else none
    | none => none

end LibSymbols

/-! ## The resolver -/

structure SymbolResolver where
  procPath : String
  addrCache : Lru (U32 × U64) String
  libCache : FinMap String (Option LibSymbols)
  mapsCache : Lru U32 (List MapEntry)

/-- `format!("unknown_0x{:x}", x)`. -/
def unknownName (x : U64) : String := "unknown_0x" ++ hexString x

/-- The name of an offset in a file, by its table. -/
def symbolName (lib : Option LibSymbols) (fileOffset : U64) : String :=
  (lib.bind (·.nameAt fileOffset)).getD (unknownName fileOffset)

def MapEntry.covers (e : MapEntry) (addr : U64) : Bool := e.start ≤ addr && addr < e.stop

/-- `addr - entry.start + entry.offset`. -/
def MapEntry.fileOffset (e : MapEntry) (addr : U64) : U64 := addr - e.start + e.offset

namespace SymbolResolver

def new (procPath : String) : SymbolResolver where
  procPath
  addrCache := .new 10000 (by decide)
  libCache := ∅
  mapsCache := .new 256 (by decide)

/-- `load_symbols`. A table that is cached is not read again. -/
def loadSymbols (r : SymbolResolver) (fs : ProcFs) (hostPath : String) :
    Option LibSymbols × SymbolResolver :=
  match r.libCache.lookup hostPath with
  | some symbols => (symbols, r)
  | none =>
    let libCache := if r.libCache.size > 64 then ∅ else r.libCache
    let symbols := parseElfSymbols fs hostPath
    (symbols, { r with libCache := libCache.insert hostPath symbols })

/-- The memory maps of a process, read if they are not cached. -/
def cachedMaps (r : SymbolResolver) (fs : ProcFs) (pid : U32) :
    List MapEntry × SymbolResolver :=
  match r.mapsCache.get pid with
  | (some maps, mapsCache) => (maps, { r with mapsCache })
  | (none, mapsCache) =>
    let maps := parseMaps r.procPath fs pid
    (maps, { r with mapsCache := mapsCache.put pid maps })

/-- `resolve_uncached`. -/
def resolveUncached (r : SymbolResolver) (fs : ProcFs) (pid : U32) (addr : U64) :
    String × SymbolResolver :=
  let (maps, r) := r.cachedMaps fs pid
  match maps.find? (·.covers addr) with
  | none => (unknownName addr, r)
  | some entry =>
    let (symbols, r) := r.loadSymbols fs entry.hostPath
    (symbolName symbols (entry.fileOffset addr), r)

/-- `resolve`. -/
def resolve (r : SymbolResolver) (fs : ProcFs) (pid : U32) (addr : U64) :
    String × SymbolResolver :=
  if addr = 0 then ("unknown", r)
  else
    match r.addrCache.get (pid, addr) with
    | (some name, addrCache) => (name, { r with addrCache })
    | (none, _) =>
      let (name, r) := r.resolveUncached fs pid addr
      (name, { r with addrCache := r.addrCache.put (pid, addr) name })

/-- One process of `evict_pids`: its maps and its answers go, the tables of its files stay. -/
def evictPid (r : SymbolResolver) (pid : U32) : SymbolResolver :=
  let keysToRemove := (r.addrCache.entries.map (·.1)).filter fun k => k.1 = pid
  { r with
    mapsCache := r.mapsCache.pop pid
    addrCache := keysToRemove.foldl (fun c k => c.pop k) r.addrCache }

/-- `evict_pids`. -/
def evictPids (r : SymbolResolver) (pids : List U32) : SymbolResolver := pids.foldl evictPid r

/-! ## What a call looks at -/

/-- The table a file is looked up in: the cached one, or the file itself. -/
def libOf (r : SymbolResolver) (fs : ProcFs) (path : String) : Option LibSymbols :=
  (r.libCache.lookup path).getD (parseElfSymbols fs path)

/-- The name of an address, by memory maps and symbol tables. -/
def nameIn (maps : List MapEntry) (lib : String → Option LibSymbols) (addr : U64) : String :=
  match maps.find? (·.covers addr) with
  | none => unknownName addr
  | some e => symbolName (lib e.hostPath) (e.fileOffset addr)

variable {r : SymbolResolver} {fs : ProcFs} {pid : U32} {addr : U64}

theorem loadSymbols_fst (r : SymbolResolver) (fs : ProcFs) (path : String) :
    (r.loadSymbols fs path).1 = r.libOf fs path := by
  unfold loadSymbols libOf
  cases r.libCache.lookup path <;> rfl

theorem loadSymbols_frame (r : SymbolResolver) (fs : ProcFs) (path : String) :
    (r.loadSymbols fs path).2 = { r with libCache := (r.loadSymbols fs path).2.libCache } := by
  unfold loadSymbols
  cases r.libCache.lookup path <;> rfl

theorem cachedMaps_fst (r : SymbolResolver) (fs : ProcFs) (pid : U32) :
    (r.cachedMaps fs pid).1 = (r.mapsCache.lookup pid).getD (parseMaps r.procPath fs pid) := by
  have hget := @Lru.get_fst _ _ _ r.mapsCache pid
  unfold cachedMaps
  split
  next maps mapsCache heq =>
    rw [← hget, heq]
    rfl
  next mapsCache heq =>
    rw [← hget, heq]
    rfl

theorem cachedMaps_frame (r : SymbolResolver) (fs : ProcFs) (pid : U32) :
    (r.cachedMaps fs pid).2 = { r with mapsCache := (r.cachedMaps fs pid).2.mapsCache } := by
  unfold cachedMaps
  split <;> rfl

theorem resolveUncached_fst (r : SymbolResolver) (fs : ProcFs) (pid : U32) (addr : U64) :
    (r.resolveUncached fs pid addr).1 =
      nameIn ((r.mapsCache.lookup pid).getD (parseMaps r.procPath fs pid)) (r.libOf fs) addr := by
  unfold resolveUncached nameIn
  simp only [cachedMaps_fst]
  split
  · rfl
  next e _ =>
    simp only [loadSymbols_fst]
    rw [cachedMaps_frame]
    rfl

theorem resolveUncached_frame (r : SymbolResolver) (fs : ProcFs) (pid : U32) (addr : U64) :
    (r.resolveUncached fs pid addr).2 =
      { r with
        mapsCache := (r.cachedMaps fs pid).2.mapsCache
        libCache := (r.resolveUncached fs pid addr).2.libCache } := by
  unfold resolveUncached
  simp only
  split
  · simp only
    rw [cachedMaps_frame]
  · simp only
    rw [loadSymbols_frame, cachedMaps_frame]

/-- The answer for a process of which neither maps nor answers are cached. -/
theorem resolve_fst (haddr : addr ≠ 0) (hmaps : r.mapsCache.lookup pid = none)
    (hnames : r.addrCache.lookup (pid, addr) = none) :
    (r.resolve fs pid addr).1 = nameIn (parseMaps r.procPath fs pid) (r.libOf fs) addr := by
  have hget : (r.addrCache.get (pid, addr)).1 = none := Lru.get_fst.trans hnames
  unfold resolve
  rw [if_neg haddr]
  split
  next name addrCache heq =>
    rw [heq] at hget
    cases hget
  · simp only [resolveUncached_fst, hmaps, Option.getD_none]

/-! ## What is forgotten -/

/-- Neither maps nor answers are cached for the process. -/
structure Forgets (r : SymbolResolver) (pid : U32) : Prop where
  maps : r.mapsCache.lookup pid = none
  names : ∀ addr, r.addrCache.lookup (pid, addr) = none

theorem Forgets.new (procPath : String) (pid : U32) : (SymbolResolver.new procPath).Forgets pid :=
  ⟨rfl, fun _ => rfl⟩

theorem Forgets.cachedMaps {p : U32} (h : r.Forgets p) (hne : p ≠ pid) :
    (r.cachedMaps fs pid).2.mapsCache.lookup p = none := by
  unfold SymbolResolver.cachedMaps
  have hget := @Lru.lookup_get_eq_none _ _ _ r.mapsCache pid p h.maps
  split
  next maps mapsCache heq =>
    rw [heq] at hget
    exact hget
  next mapsCache heq =>
    rw [heq] at hget
    exact Lru.lookup_put_eq_none hne hget

/-- A call for one process caches nothing about another. -/
theorem Forgets.resolve {p : U32} (h : r.Forgets p) (hne : p ≠ pid) :
    (r.resolve fs pid addr).2.Forgets p := by
  have hkey : ∀ a, (p, a) ≠ (pid, addr) := fun a heq => hne (Prod.mk.inj heq).1
  unfold SymbolResolver.resolve
  split
  · exact h
  · split
    next name addrCache heq =>
      refine ⟨h.maps, fun a => ?_⟩
      have hget := @Lru.lookup_get_eq_none _ _ _ r.addrCache (pid, addr) (p, a) (h.names a)
      rw [heq] at hget
      exact hget
    · simp only
      rw [resolveUncached_frame]
      exact ⟨h.cachedMaps hne, fun a => Lru.lookup_put_eq_none (hkey a) (h.names a)⟩

theorem foldl_pop_eq_none {K V : Type} [DecidableEq K] {k : K} (ks : List K) (c : Lru K V)
    (h : k ∈ ks ∨ c.lookup k = none) : (ks.foldl (fun c k => c.pop k) c).lookup k = none :=
  Runs.foldl_reached (I := fun c : Lru K V => c.lookup k = none) (Q := (k = ·))
    (fun _ _ => Lru.lookup_pop_eq_none) (h.imp_left fun hmem => ⟨k, hmem, rfl⟩)

theorem Forgets.evictPid {p : U32} (h : p = pid ∨ r.Forgets p) : (r.evictPid pid).Forgets p := by
  constructor
  · exact Lru.lookup_pop_eq_none (h.imp_right (·.maps))
  · intro a
    apply foldl_pop_eq_none
    cases hl : r.addrCache.lookup (p, a) with
    | none => exact .inr rfl
    | some name =>
      -- every cached answer of the process is among the keys
      have hmem : ((p, a), name) ∈ r.addrCache.entries := Lru.lookup_eq_some_iff.mp hl
      rcases h with rfl | hforgets
      · exact .inl (List.mem_filter.mpr ⟨List.mem_map_of_mem hmem, by simp⟩)
      · rw [hforgets.names a] at hl
        cases hl

theorem Forgets.evictPids {p : U32} (pids : List U32) (h : p ∈ pids ∨ r.Forgets p) :
    (r.evictPids pids).Forgets p :=
  Runs.foldl_reached (I := (Forgets · p)) (Q := (p = ·)) (fun _ _ => .evictPid)
    (h.imp_left fun hmem => ⟨p, hmem, rfl⟩)

/-- The file the address is mapped from has a cached table only if that names the address as the
    file does. -/
def LibAgrees (r : SymbolResolver) (fs : ProcFs) (pid : U32) (addr : U64) : Prop :=
  addr ≠ 0 → ∀ e ∈ (parseMaps r.procPath fs pid).find? (·.covers addr),
    ∀ lib ∈ r.libCache.lookup e.hostPath,
      symbolName lib (e.fileOffset addr) =
        symbolName (parseElfSymbols fs e.hostPath) (e.fileOffset addr)

/-- A forgotten process is told what a new resolver tells it, exactly if the cached table of its
    file agrees with the file. -/
theorem resolve_forgotten (h : r.Forgets pid) (fs : ProcFs) (addr : U64) :
    (r.resolve fs pid addr).1 = ((new r.procPath).resolve fs pid addr).1 ↔
      r.LibAgrees fs pid addr := by
  unfold LibAgrees
  by_cases haddr : addr = 0
  · simp [resolve, haddr]
  · have hnew : ((new r.procPath).resolve fs pid addr).1 =
        nameIn (parseMaps r.procPath fs pid) (parseElfSymbols fs) addr :=
      resolve_fst haddr rfl rfl
    rw [resolve_fst haddr h.maps (h.names addr), hnew]
    unfold nameIn
    cases hfind : (parseMaps r.procPath fs pid).find? (·.covers addr) with
    | none => simp
    | some e =>
      unfold libOf
      cases hlib : r.libCache.lookup e.hostPath with
      | none => simp [hlib]
      | some lib =>
        simp only [hlib, Option.getD_some, Option.mem_def, Option.some.injEq, forall_eq', ne_eq,
          haddr, not_false_eq_true, forall_const]

end SymbolResolver

/-! ## Runs -/

/-- A call of the resolver. The files are as they are at the time of the call. -/
inductive SymCall where
  | resolve (fs : ProcFs) (pid : U32) (addr : U64)
  | evictPids (pids : List U32)

/-- The resolver, and the processes evicted since they were last asked for. -/
structure SymTrace where
  resolver : SymbolResolver
  forgotten : Finset U32

namespace SymTrace

def init (procPath : String) : SymTrace := ⟨.new procPath, ∅⟩

def step (s : SymTrace) : SymCall → SymTrace
  | .resolve fs pid addr => ⟨(s.resolver.resolve fs pid addr).2, s.forgotten.erase pid⟩
  | .evictPids pids => ⟨s.resolver.evictPids pids, s.forgotten ∪ pids.toFinset⟩

/-- A call for a forgotten process is answered as by a new resolver. -/
def AnswersFresh (s : SymTrace) : SymCall → Prop
  | .resolve fs pid addr => pid ∈ s.forgotten →
      (s.resolver.resolve fs pid addr).1 =
        ((SymbolResolver.new s.resolver.procPath).resolve fs pid addr).1
  | .evictPids _ => True

/-- A call for a forgotten process finds no cached table that names the address otherwise than the
    file. -/
def FilesAgree (s : SymTrace) : SymCall → Prop
  | .resolve fs pid addr => pid ∈ s.forgotten → s.resolver.LibAgrees fs pid addr
  | .evictPids _ => True

/-- A call keeps what the caches have forgotten. -/
theorem forgets_step {s : SymTrace} (h : ∀ p ∈ s.forgotten, s.resolver.Forgets p) (call : SymCall) :
    ∀ p ∈ (s.step call).forgotten, (s.step call).resolver.Forgets p := by
  intro p hp
  cases call with
  | resolve fs pid addr =>
    obtain ⟨hne, hmem⟩ := Finset.mem_erase.mp hp
    exact (h p hmem).resolve hne
  | evictPids pids =>
    apply SymbolResolver.Forgets.evictPids
    rcases Finset.mem_union.mp hp with hmem | hmem
    · exact .inr (h p hmem)
    · exact .inl (List.mem_toFinset.mp hmem)

/-- In every sequence of calls, those for evicted processes are answered as by new resolvers exactly
    if the cached tables of their files agree with the files. -/
theorem answersFresh_iff (procPath : String) (calls : List SymCall) :
    Runs.Along step AnswersFresh (init procPath) calls ↔
      Runs.Along step FilesAgree (init procPath) calls := by
  have hinit : ∀ p ∈ (init procPath).forgotten, (init procPath).resolver.Forgets p :=
    fun p _ => .new procPath p
  refine Runs.along_iff_of_invariant (P := fun _ _ => True)
    (I := fun s => ∀ p ∈ s.forgotten, s.resolver.Forgets p)
    (fun s call h _ => forgets_step h call) (fun s call h _ => ?_) hinit (Runs.along_true _ _ _)
  cases call with
  | resolve fs pid addr =>
    exact imp_congr_right fun hmem => SymbolResolver.resolve_forgotten (h pid hmem) fs addr
  | evictPids pids => rfl

/-- Process 7 maps a library with one kernel. -/
def oneKernelFs (kernel : String) : ProcFs where
  readToString path :=
    if path = "/proc/7/maps" then some "1000-2000 r-xp 00000000 08:01 42 /lib/libk.so\n" else none
  elfSymbols path :=
    if path = "/proc/7/root/lib/libk.so" then some [⟨0x500, 0x100, some kernel⟩] else none

/-- The process is asked for, evicted, and asked for again when another file is at the path. -/
def reusedPid : List SymCall :=
  [.resolve (oneKernelFs "gemm") 7 0x1500, .evictPids [7],
    .resolve (oneKernelFs "softmax") 7 0x1500]

/-- The second process is told the name of the first. -/
theorem not_answersFresh_reusedPid :
    ¬Runs.Along step AnswersFresh (init "/proc") reusedPid := by
  intro h
  have hlast := h.2.2.1 (by decide +kernel)
  revert hlast
  decide +kernel

end SymTrace

end Profi
