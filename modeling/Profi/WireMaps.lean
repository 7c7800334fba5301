import Profi.Wire

/-!
# Aggregates as Bytes

The aggregate maps, too, are bytes to `src/main.rs`: `drain_percpu_hash` lists keys as byte
strings, reads one byte string for each CPU, asserts its length and takes it for a struct; the
closures look at the length of the key and take it for a struct as well, and `UPGRADED_PIDS` is
compared with the wanted set after its keys were read back from four bytes each.

The tick is stated on bytes here and compared with the tick on records. Keys are structs without
padding, so that a record stands for one key only; `LaunchAggValue` ends in four bytes of padding,
which may hold anything. A table lists its keys in any order, and each order of the byte strings is
an order of the records.

- `drainPercpuHashBytes_rel`: one drain
- `Loop.aggTickBytes_rel`: one tick
- `Sys.aggTickBytes_run`: every tick of every run
-/

namespace Profi

open CLayout Relator

variable {n : ℕ}

/-! ## Keys and values in words -/

/-- `struct AggKey`. -/
def aggKeyLayout : Layout AggKey where
  members := EventsH.aggKey
  words k :=
    [[k.eventType.code], [k.pid.toNat], [k.memcpyKind.toNat], [k.errorCode.toNat],
      [k.stream.toNat]]
  ofWords ws :=
    (EventType.ofCode? (word ws 0)).map fun eventType =>
      { eventType
        pid := .ofNat 32 (word ws 1)
        memcpyKind := .ofNat 32 (word ws 2)
        errorCode := .ofNat 32 (word ws 3)
        stream := .ofNat 64 (word ws 4) }
  Ok _ := True
  fits := by
    intro k _
    refine ⟨?_, by decide⟩
    exact .cons (EventType.fits_code _ _) (.cons (Member.fits_u32 _ _) (.cons (Member.fits_u32 _ _)
      (.cons (Member.fits_u32 _ _) (.cons (Member.fits_u64 _ _) .nil))))
  ofWords_words := by
    intro k _
    simp [word]

/-- `struct LaunchKey`. -/
def launchKeyLayout : Layout LaunchKey where
  members := EventsH.launchKey
  words k := [[k.pid.toNat], [0], [k.hostFun.toNat], [k.stream.toNat]]
  ofWords ws :=
    some
      { pid := .ofNat 32 (word ws 0)
        hostFun := .ofNat 64 (word ws 2)
        stream := .ofNat 64 (word ws 3) }
  Ok _ := True
  fits := by
    intro k _
    refine ⟨?_, by decide⟩
    exact .cons (Member.fits_u32 _ _) (.cons (Member.fits_u32 _ 0) (.cons (Member.fits_u64 _ _)
      (.cons (Member.fits_u64 _ _) .nil)))
  ofWords_words := by
    intro k _
    simp [word]

/-- A PID as `to_ne_bytes` writes it. -/
def pidLayout : Layout U32 where
  members := [.u32 "pid"]
  words pid := [[pid.toNat]]
  ofWords ws := some (.ofNat 32 (word ws 0))
  Ok _ := True
  fits := fun pid _ => ⟨.cons (Member.fits_u32 _ _) .nil, by decide⟩
  ofWords_words := by
    intro pid _
    simp [word]

/-- The words of an array of bucket counts. -/
def bucketWords {N : ℕ} (buckets : Fin N → U32) : List ℕ := List.ofFn fun i => (buckets i).toNat

/-- The bucket counts, from the words of an array. -/
def bucketsOf (N : ℕ) (words : List ℕ) : Fin N → U32 := fun i => .ofNat 32 (words.getD i 0)

theorem bucketsOf_bucketWords {N : ℕ} (buckets : Fin N → U32) :
    bucketsOf N (bucketWords buckets) = buckets := by
  funext i
  simp [bucketsOf, bucketWords]

/-- `struct AggValue`. The model counts without a bound; a count that left 64 bits has no
    representation. -/
def aggValueLayout : Layout AggValue where
  members := EventsH.aggValue
  words v :=
    [[v.count], [v.durationSumNs.toNat], [v.sizeSum.toNat],
      bucketWords v.bucketCounts]
  ofWords ws :=
    some
      { count := word ws 0
        durationSumNs := .ofNat 64 (word ws 1)
        sizeSum := .ofNat 64 (word ws 2)
        bucketCounts := bucketsOf 14 (ws.getD 3 []) }
  Ok v := v.count < 2 ^ 64
  fits := by
    intro v hcount
    refine ⟨?_, by decide⟩
    exact .cons (Member.fits_u64_of_lt _ hcount) (.cons (Member.fits_u64 _ _)
      (.cons (Member.fits_u64 _ _) (.cons (Member.fits_u32s _ _) .nil)))
  ofWords_words := by
    intro v _
    simp [word, bucketsOf_bucketWords]

/-- `struct LaunchAggValue`. -/
def launchAggValueLayout : Layout LaunchAggValue where
  members := EventsH.launchAggValue
  words v :=
    [[v.count], [v.totalDurationNs.toNat], [v.maxDurationNs.toNat],
      bucketWords v.bucketCounts]
  ofWords ws :=
    some
      { count := word ws 0
        totalDurationNs := .ofNat 64 (word ws 1)
        maxDurationNs := .ofNat 64 (word ws 2)
        bucketCounts := bucketsOf 9 (ws.getD 3 []) }
  Ok v := v.count < 2 ^ 64
  fits := by
    intro v hcount
    refine ⟨?_, by decide⟩
    exact .cons (Member.fits_u64_of_lt _ hcount) (.cons (Member.fits_u64 _ _)
      (.cons (Member.fits_u64 _ _) (.cons (Member.fits_u32s _ _) .nil)))
  ofWords_words := by
    intro v _
    simp [word, bucketsOf_bucketWords]

/-- `struct NcclAggValue`. -/
def ncclAggValueLayout : Layout NcclAggValue where
  members := EventsH.ncclAggValue
  words v :=
    [[v.count], [v.durationSumNs.toNat], [v.bytesSum.toNat],
      bucketWords v.bucketCounts]
  ofWords ws :=
    some
      { count := word ws 0
        durationSumNs := .ofNat 64 (word ws 1)
        bytesSum := .ofNat 64 (word ws 2)
        bucketCounts := bucketsOf 12 (ws.getD 3 []) }
  Ok v := v.count < 2 ^ 64
  fits := by
    intro v hcount
    refine ⟨?_, by decide⟩
    exact .cons (Member.fits_u64_of_lt _ hcount) (.cons (Member.fits_u64 _ _)
      (.cons (Member.fits_u64 _ _) (.cons (Member.fits_u32s _ _) .nil)))
  ofWords_words := by
    intro v _
    simp [word, bucketsOf_bucketWords]

/-- Without padding, a record is represented by one byte string and a byte string represents one
    record. -/
theorem biUnique_represents {α : Type} {L : Layout α} (hpacked : Packed L.members) :
    BiUnique L.Represents := by
  constructor
  · intro bytes a bytes' h h'
    exact h.unique hpacked h'
  · intro bytes a a' h h'
    have hread := h.read.symm.trans h'.read
    exact Option.some.inj hread

theorem biUnique_aggKey : BiUnique aggKeyLayout.Represents := biUnique_represents (by decide)

theorem biUnique_launchKey : BiUnique launchKeyLayout.Represents := biUnique_represents (by decide)

theorem biUnique_pid : BiUnique pidLayout.Represents := biUnique_represents (by decide)

/-! ## The drain on bytes -/

/-- A per-CPU hash map as `libbpf` shows it. -/
abbrev ByteMap (n : ℕ) := PerCpuMap n (List U8) (List U8)

section Drain

variable {K V S : Type} [DecidableEq K]

/-- One slot: the `assert_eq!` on its length, then `read_unaligned`. -/
def readSlot (VL : Layout V) (mirror : List Member) (bytes : List U8) : Option V :=
  if bytes.length = size mirror then readUnaligned VL mirror bytes else none

/-- The loop body of `drain_percpu_hash`. -/
def drainKeyBytes (VL : Layout V) (mirror : List Member) (process : S → List U8 → List V → Option S)
    (s : S × ByteMap n) (key : List U8) : Option (S × ByteMap n) :=
  match s.2.lookupPercpu key with
  | none => some s
  | some percpu => do
    let values ← percpu.mapM (readSlot VL mirror)
    let state ← process s.1 key values
    return (state, s.2.delete key)

/-- `drain_percpu_hash`. -/
def drainPercpuHashBytes (VL : Layout V) (mirror : List Member) (order : KeyOrder (List U8))
    (process : S → List U8 → List V → Option S) (s : S) (map : ByteMap n) :
    Option (S × ByteMap n) :=
  (drainKeys order map).foldlM (drainKeyBytes VL mirror process) (s, map)

/-- The head of a closure: a key of another length is passed over, and deleted all the same. -/
def onKey (KL : Layout K) (mirror : List Member) (process : S → K → List V → S) (s : S)
    (keyBytes : List U8) (perCpu : List V) : Option S :=
  if keyBytes.length ≠ size mirror then some s
  else (readUnaligned KL mirror keyBytes).map fun key => process s key perCpu

variable {KL : Layout K} {VL : Layout V} {keyMirror valueMirror : List Member}

/-- The map in memory is the map of the program. -/
abbrev MapRep (KL : Layout K) (VL : Layout V) (w : ByteMap n) (m : PerCpuMap n K V) : Prop :=
  PerCpuMap.Rel KL.Represents VL.Represents w m

omit [DecidableEq K] in
theorem onKey_of_represents (hkey : keyMirror = KL.members) (process : S → K → List V → S) (s : S)
    {keyBytes : List U8} {key : K} (h : KL.Represents keyBytes key) (perCpu : List V) :
    onKey KL keyMirror process s keyBytes perCpu = some (process s key perCpu) := by
  have hlength : keyBytes.length = size keyMirror := by
    rw [hkey]
    exact h.length
  rw [onKey, if_neg (not_not_intro hlength), readUnaligned_of_represents keyMirror hkey h]
  rfl

theorem mapM_readSlot (hvalue : valueMirror = VL.members) {percpu : List (List U8)}
    {values : List V} (h : List.Forall₂ VL.Represents percpu values) :
    percpu.mapM (readSlot VL valueMirror) = some values := by
  induction h with
  | nil => rfl
  | @cons bytes value percpu values hhead htail ih =>
    have hlength : bytes.length = size valueMirror := by
      rw [hvalue]
      exact hhead.length
    have hslot : readSlot VL valueMirror bytes = some value := by
      rw [readSlot, if_pos hlength, readUnaligned_of_represents valueMirror hvalue hhead]
    simp [List.mapM_cons, hslot, ih]

/-- One key: the assert holds, and the bytes are taken for the record they hold. -/
theorem drainKeyBytes_rel (hR : BiUnique KL.Represents) (hkey : keyMirror = KL.members)
    (hvalue : valueMirror = VL.members) (process : S → K → List V → S) {w : ByteMap n}
    {m : PerCpuMap n K V} (h : MapRep KL VL w m) (s : S) {keyBytes : List U8} {key : K}
    (hk : KL.Represents keyBytes key) :
    ∃ w', drainKeyBytes VL valueMirror (onKey KL keyMirror process) (s, w) keyBytes =
        some ((drainKey process (s, m) key).1, w') ∧
      MapRep KL VL w' (drainKey process (s, m) key).2 := by
  have hlookup := h.lookupPercpu hR hk
  unfold drainKeyBytes drainKey
  revert hlookup
  generalize w.lookupPercpu keyBytes = found
  generalize m.lookupPercpu key = found'
  intro hlookup
  cases hlookup with
  | none => exact ⟨w, rfl, h⟩
  | @some percpu values hvalues =>
    refine ⟨w.delete keyBytes, ?_, h.delete hR hk⟩
    simp [mapM_readSlot hvalue hvalues, onKey_of_represents hkey process s hk]

/-- The loop over keys that stand for the keys of the program. -/
theorem foldlM_drainKeyBytes (hR : BiUnique KL.Represents) (hkey : keyMirror = KL.members)
    (hvalue : valueMirror = VL.members) (process : S → K → List V → S) {keysBytes : List (List U8)}
    {keys : List K} (hkeys : List.Forall₂ KL.Represents keysBytes keys) {w : ByteMap n}
    {m : PerCpuMap n K V} (h : MapRep KL VL w m) (s : S) :
    ∃ w', keysBytes.foldlM (drainKeyBytes VL valueMirror (onKey KL keyMirror process)) (s, w) =
        some ((keys.foldl (drainKey process) (s, m)).1, w') ∧
      MapRep KL VL w' (keys.foldl (drainKey process) (s, m)).2 := by
  induction hkeys generalizing w m s with
  | nil => exact ⟨w, rfl, h⟩
  | @cons keyBytes key keysBytes keys hhead htail ih =>
    obtain ⟨w₁, hstep, h₁⟩ := drainKeyBytes_rel hR hkey hvalue process h s hhead
    obtain ⟨w₂, hrest, h₂⟩ := ih h₁ (drainKey process (s, m) key).1
    refine ⟨w₂, ?_, h₂⟩
    rw [List.foldlM_cons, hstep]
    exact hrest

/-- A drain of the bytes, in whatever order the table lists them, is a drain of the records in some
    order: no assert fails, no key is passed over, and what is left represents what is left. -/
theorem drainPercpuHashBytes_rel (keyMirror valueMirror : List Member)
    (hR : BiUnique KL.Represents) (hkey : keyMirror = KL.members)
    (hvalue : valueMirror = VL.members) (process : S → K → List V → S)
    (order : KeyOrder (List U8)) {w : ByteMap n} {m : PerCpuMap n K V} (h : MapRep KL VL w m) :
    ∃ order' : KeyOrder K, ∀ s, ∃ w',
      drainPercpuHashBytes VL valueMirror order (onKey KL keyMirror process) s w =
          some ((drainPercpuHash order' process s m).1, w') ∧
        MapRep KL VL w' (drainPercpuHash order' process s m).2 := by
  obtain ⟨order', horder⟩ := order.exists_rel h.slots.keys
  refine ⟨order', fun s => ?_⟩
  have hkeys : List.Forall₂ KL.Represents (drainKeys order w) (drainKeys order' m) :=
    List.forall₂_take _ horder
  exact foldlM_drainKeyBytes hR hkey hvalue process hkeys h s

end Drain

/-! ## The tick on bytes -/

/-- The maps of a tick as they are in memory. -/
structure WireMaps (n : ℕ) where
  aggregated : ByteMap n
  launchAgg : ByteMap n
  ncclAgg : ByteMap n
  upgradedPids : FinMap (List U8) (List U8)

/-- The orders in which the three drained tables list their keys. -/
structure WireOrders where
  agg : KeyOrder (List U8)
  launch : KeyOrder (List U8)
  nccl : KeyOrder (List U8)

/-- `to_ne_bytes`. -/
def pidBytes (pid : U32) : List U8 := leBytes 4 pid.toNat

/-- `try_into` to four bytes, then `from_ne_bytes`. -/
def pidOfBytes (key : List U8) : Option U32 :=
  if key.length = 4 then some (.ofNat 32 (ofLeBytes key)) else none

namespace Loop

/-- `update` of `UPGRADED_PIDS`; a full map refuses. -/
def insertUpgradedBytes (upgraded : FinMap (List U8) (List U8)) (pid : U32) :
    FinMap (List U8) (List U8) :=
  if pidBytes pid ∈ upgraded ∨ upgraded.size < upgradedPidsMaxEntries then
    upgraded.insert (pidBytes pid) [1]
  else upgraded

/-- The `UPGRADED_PIDS` synchronisation of a tick that found the set dirty. -/
def syncUpgradedPidsBytes (s : WireMaps n × Loop) (desired : List U32) : WireMaps n × Loop :=
  let synced :=
    if s.2.upgradedPidsSynced.isEmpty then s.1.upgradedPids.keys.filterMap pidOfBytes
    else s.2.upgradedPidsSynced
  let kept := (synced.filter (· ∉ desired)).foldl (fun m pid => m.erase (pidBytes pid))
    s.1.upgradedPids
  let upgradedPids := (desired.filter (· ∉ synced)).foldl insertUpgradedBytes kept
  ({ s.1 with upgradedPids }, { s.2 with upgradedPidsSynced := desired })

/-- The three drains of a tick, from bytes. -/
def drainMapsBytes (args : Args) (env : LoopEnv) (orders : WireOrders) (s : WireMaps n × Loop) :
    Option (WireMaps n × Loop × MemDelta) := do
  let ((l, delta), aggregated) ←
    drainPercpuHashBytes aggValueLayout EventsRs.aggValue orders.agg
      (onKey aggKeyLayout EventsRs.aggKey (processAggregated args env)) (s.2, ∅) s.1.aggregated
  let (l, launchAgg) ←
    if args.detailedLaunches then some (l, s.1.launchAgg)
    else
      drainPercpuHashBytes launchAggValueLayout EventsRs.launchAggValue orders.launch
        (onKey launchKeyLayout EventsRs.launchKey (processLaunch args env)) l s.1.launchAgg
  let (l, ncclAgg) ←
    drainPercpuHashBytes ncclAggValueLayout EventsRs.ncclAggValue orders.nccl
      (onKey aggKeyLayout EventsRs.aggKey (processNccl args env)) l s.1.ncclAgg
  return ({ s.1 with aggregated, launchAgg, ncclAgg }, l, delta)

/-- The aggregate tick arm, from bytes. -/
def aggTickBytes (args : Args) (env : LoopEnv) (orders : WireOrders) (s : WireMaps n × Loop) :
    Option (WireMaps n × Loop) := do
  let s :=
    match env.upgradedPids with
    | some desired => syncUpgradedPidsBytes s desired
    | none => s
  let (w, l, delta) ← drainMapsBytes args env orders s
  return (w, l.flushActiveMemory env delta)

end Loop

/-- The entries of `UPGRADED_PIDS`: four bytes each, with a value of one byte. -/
abbrev UpgradedRep (w : FinMap (List U8) (List U8)) (m : FinMap U32 U8) : Prop :=
  FinMap.Rel pidLayout.Represents (fun bytes value => bytes = [value]) w m

/-- The maps in memory are those of the program. -/
structure WireMaps.Represents (w : WireMaps n) (b : Bpf n) : Prop where
  aggregated : MapRep aggKeyLayout aggValueLayout w.aggregated b.aggregated
  launchAgg : MapRep launchKeyLayout launchAggValueLayout w.launchAgg b.launchAgg
  ncclAgg : MapRep aggKeyLayout ncclAggValueLayout w.ncclAgg b.ncclAgg
  upgradedPids : UpgradedRep w.upgradedPids b.upgradedPids

/-! ### `UPGRADED_PIDS` -/

theorem represents_pidBytes (pid : U32) : pidLayout.Represents (pidBytes pid) pid := by
  refine ⟨trivial, fun _ => 0, ?_⟩
  simp [pidBytes, pidLayout, write, writeFrom, padding, roundUp, Member.u32, Member.bytes,
    Member.size, endFrom, size, alignment]

theorem pidOfBytes_of_represents {key : List U8} {pid : U32} (h : pidLayout.Represents key pid) :
    pidOfBytes key = some pid := by
  have hkey : key = pidBytes pid := biUnique_pid.1 h (represents_pidBytes pid)
  have hlt : pid.toNat < 256 ^ 4 := pid.isLt
  rw [hkey, pidOfBytes, pidBytes, if_pos (length_leBytes 4 _), ofLeBytes_leBytes hlt]
  simp

namespace Loop

section Upgraded

variable {w : FinMap (List U8) (List U8)} {m : FinMap U32 U8}

theorem insertUpgradedBytes_rel (h : UpgradedRep w m) (pid : U32) :
    UpgradedRep (insertUpgradedBytes w pid) (insertUpgraded m pid) := by
  have hpid := represents_pidBytes pid
  have hiff : pidBytes pid ∈ w ∨ w.size < upgradedPidsMaxEntries ↔
      pid ∈ m ∨ m.size < upgradedPidsMaxEntries := by
    rw [h.mem_iff biUnique_pid hpid, h.size]
  unfold insertUpgradedBytes insertUpgraded
  by_cases hroom : pid ∈ m ∨ m.size < upgradedPidsMaxEntries
  · rw [if_pos hroom, if_pos (hiff.mpr hroom)]
    exact h.insert biUnique_pid hpid rfl
  · rw [if_neg hroom, if_neg (mt hiff.mp hroom)]
    exact h

theorem foldl_insertUpgradedBytes (pids : List U32) (h : UpgradedRep w m) :
    UpgradedRep (pids.foldl insertUpgradedBytes w) (pids.foldl insertUpgraded m) := by
  induction pids generalizing w m with
  | nil => exact h
  | cons pid pids ih => exact ih (insertUpgradedBytes_rel h pid)

theorem foldl_erase_pidBytes (pids : List U32) (h : UpgradedRep w m) :
    UpgradedRep (pids.foldl (fun m pid => m.erase (pidBytes pid)) w)
      (pids.foldl (fun m pid => m.erase pid) m) := by
  induction pids generalizing w m with
  | nil => exact h
  | cons pid pids ih => exact ih (h.erase biUnique_pid (represents_pidBytes pid))

/-- Listing the map and reading the keys back gives the PIDs in it. -/
theorem filterMap_pidOfBytes (h : UpgradedRep w m) :
    w.keys.filterMap pidOfBytes = m.keys := by
  have hkeys := h.keys
  revert hkeys
  generalize w.keys = keysBytes
  generalize m.keys = keys
  intro hkeys
  induction hkeys with
  | nil => rfl
  | cons hhead _ ih => rw [List.filterMap_cons_some (pidOfBytes_of_represents hhead), ih]

end Upgraded

variable {w : WireMaps n} {b : Bpf n}

theorem syncUpgradedPidsBytes_rel (h : w.Represents b) (l : Loop)
    (desired : List U32) :
    (syncUpgradedPidsBytes (w, l) desired).2 = (syncUpgradedPids (b, l) desired).2 ∧
      (syncUpgradedPidsBytes (w, l) desired).1.Represents
        (syncUpgradedPids (b, l) desired).1 := by
  refine ⟨rfl, h.aggregated, h.launchAgg, h.ncclAgg, ?_⟩
  unfold syncUpgradedPidsBytes syncUpgradedPids
  simp only [filterMap_pidOfBytes h.upgradedPids]
  exact foldl_insertUpgradedBytes _ (foldl_erase_pidBytes _ h.upgradedPids)

/-! ### One tick -/

theorem drainMapsBytes_rel (args : Args) (env : LoopEnv) (orders : WireOrders)
    (h : w.Represents b) (l : Loop) :
    ∃ aggOrder launchOrder ncclOrder w',
      drainMapsBytes args env orders (w, l) =
          some (w', (drainMaps args { env with aggOrder, launchOrder, ncclOrder } (b, l)).2) ∧
        w'.Represents
          (drainMaps args { env with aggOrder, launchOrder, ncclOrder } (b, l)).1 := by
  obtain ⟨aggOrder, hagg⟩ := drainPercpuHashBytes_rel EventsRs.aggKey EventsRs.aggValue
    biUnique_aggKey rfl rfl (processAggregated args env) orders.agg h.aggregated
  obtain ⟨launchOrder, hlaunch⟩ := drainPercpuHashBytes_rel EventsRs.launchKey
    EventsRs.launchAggValue biUnique_launchKey rfl rfl (processLaunch args env) orders.launch
    h.launchAgg
  obtain ⟨ncclOrder, hnccl⟩ := drainPercpuHashBytes_rel EventsRs.aggKey EventsRs.ncclAggValue
    biUnique_aggKey rfl rfl (processNccl args env) orders.nccl h.ncclAgg
  refine ⟨aggOrder, launchOrder, ncclOrder, ?_⟩
  obtain ⟨wAgg, hdrainAgg, hwAgg⟩ := hagg (l, ∅)
  by_cases hdetailed : args.detailedLaunches = true
  · obtain ⟨wNccl, hdrainNccl, hwNccl⟩ :=
      hnccl (drainPercpuHash aggOrder (processAggregated args env) (l, ∅) b.aggregated).1.1
    refine ⟨{ w with aggregated := wAgg, ncclAgg := wNccl }, ?_, ?_⟩
    · unfold drainMapsBytes drainMaps
      simp only [if_pos hdetailed, hdrainAgg, hdrainNccl, Option.bind_eq_bind, Option.bind_some]
      -- the closures of the two sides differ in the orders of `env`, which they do not read
      rfl
    · unfold drainMaps
      simp only [if_pos hdetailed]
      exact ⟨hwAgg, h.launchAgg, hwNccl, h.upgradedPids⟩
  · obtain ⟨wLaunch, hdrainLaunch, hwLaunch⟩ :=
      hlaunch (drainPercpuHash aggOrder (processAggregated args env) (l, ∅) b.aggregated).1.1
    obtain ⟨wNccl, hdrainNccl, hwNccl⟩ :=
      hnccl (drainPercpuHash launchOrder (processLaunch args env)
        (drainPercpuHash aggOrder (processAggregated args env) (l, ∅) b.aggregated).1.1
        b.launchAgg).1
    refine ⟨{ w with aggregated := wAgg, launchAgg := wLaunch, ncclAgg := wNccl }, ?_, ?_⟩
    · unfold drainMapsBytes drainMaps
      simp only [if_neg hdetailed, hdrainAgg, hdrainLaunch, hdrainNccl, Option.bind_eq_bind,
        Option.bind_some]
      rfl
    · unfold drainMaps
      simp only [if_neg hdetailed]
      exact ⟨hwAgg, hwLaunch, hwNccl, h.upgradedPids⟩

/-- With the maps of the program in memory, the tick on bytes is a tick on records, in some order of
    each table's keys, and leaves the maps the program then has. -/
theorem aggTickBytes_rel (args : Args) (env : LoopEnv) (orders : WireOrders)
    (h : w.Represents b) (l : Loop) :
    ∃ aggOrder launchOrder ncclOrder w',
      aggTickBytes args env orders (w, l) =
          some (w', (aggTick args { env with aggOrder, launchOrder, ncclOrder } (b, l)).2) ∧
        w'.Represents (aggTick args { env with aggOrder, launchOrder, ncclOrder } (b, l)).1 := by
  cases hupgraded : env.upgradedPids with
  | none =>
    obtain ⟨aggOrder, launchOrder, ncclOrder, w', hdrain, hw'⟩ :=
      drainMapsBytes_rel args env orders h l
    refine ⟨aggOrder, launchOrder, ncclOrder, w', ?_, ?_⟩
    · simp only [aggTickBytes, aggTick, hupgraded, hdrain, Option.bind_eq_bind, Option.bind_some]
      rfl
    · simp only [aggTick]
      exact hw'
  | some desired =>
    obtain ⟨hloop, hsync⟩ := syncUpgradedPidsBytes_rel h l desired
    obtain ⟨aggOrder, launchOrder, ncclOrder, w', hdrain, hw'⟩ :=
      drainMapsBytes_rel args env orders hsync (syncUpgradedPids (b, l) desired).2
    refine ⟨aggOrder, launchOrder, ncclOrder, w', ?_, ?_⟩
    · rw [← hloop] at hdrain
      simp only [aggTickBytes, aggTick, hupgraded, hdrain, Option.bind_eq_bind, Option.bind_some]
      rfl
    · simp only [aggTick]
      exact hw'

end Loop

/-! ### Every tick of a run -/

/-- No count in the maps has left 64 bits. -/
structure Bpf.CountsFit (b : Bpf n) : Prop where
  agg : ∀ e ∈ b.aggregated.slots.entries, ∀ cpu, (e.2 cpu).count < 2 ^ 64
  launch : ∀ e ∈ b.launchAgg.slots.entries, ∀ cpu, (e.2 cpu).count < 2 ^ 64
  nccl : ∀ e ∈ b.ncclAgg.slots.entries, ∀ cpu, (e.2 cpu).count < 2 ^ 64

/-- The counts of the model have no bound, those of the program have 64 bits. They are the same as
    long as fewer than `2 ^ 64` calls have returned, each counted as often as sampling says. -/
theorem Sys.countsFit_run (args : Args) (es : List (Event n))
    (hes : (Sys.run args n es).hist.returns.length * args.sampleMul.toNat < 2 ^ 64) :
    (Sys.run args n es).bpf.CountsFit := by
  have hone : 1 ≤ args.sampleMul.toNat := by
    rw [← (Sys.configOk_init (n := n) args).sampleMul, Nat.one_le_iff_ne_zero]
    exact fun hzero => Bpf.sampleMul_ne_zero _ (BitVec.eq_of_toNat_eq hzero)
  -- a call counts at least once
  have hfew : (Sys.run args n es).hist.returns.length * 1 < 2 ^ 64 :=
    (Nat.mul_le_mul_left _ hone).trans_lt hes
  have hagg := (aggView args n).allValues_count_le AggValue.count rfl (m := args.sampleMul.toNat)
    (fun _ _ _ _ val hcfg => count_addItem_le _ AggValue.add
      (fun _ _ => by rw [← hcfg.sampleMul]; exact le_rfl) _ val) es
  have hlaunch := (launchView args n).allValues_count_le LaunchAggValue.count rfl
    (fun _ _ _ _ val _ => count_addItem_le _ LaunchAggValue.add (fun _ _ => le_rfl) _ val) es
  have hnccl := (ncclView args n).allValues_count_le NcclAggValue.count rfl
    (fun _ _ _ _ val _ => count_addItem_le _ NcclAggValue.add (fun _ _ => le_rfl) _ val) es
  exact ⟨fun e he cpu => (hagg e.1 e.2 (AList.mem_lookup_iff.mpr he) cpu).trans_lt hes,
    fun e he cpu => (hlaunch e.1 e.2 (AList.mem_lookup_iff.mpr he) cpu).trans_lt hfew,
    fun e he cpu => (hnccl e.1 e.2 (AList.mem_lookup_iff.mpr he) cpu).trans_lt hfew⟩

/-- A map whose counts fit has bytes. -/
theorem exists_mapRep {K V : Type} [DecidableEq K] {KL : Layout K} (VL : Layout V)
    (hR : BiUnique KL.Represents) (hkeys : ∀ k, KL.Ok k) (m : PerCpuMap n K V)
    (h : ∀ e ∈ m.slots.entries, ∀ cpu, VL.Ok (e.2 cpu)) : ∃ w, MapRep KL VL w m := by
  refine PerCpuMap.exists_rel hR m (fun k => Layout.exists_represents (hkeys k)) ?_
  intro k row hrow cpu
  exact Layout.exists_represents (h ⟨k, row⟩ (AList.mem_lookup_iff.mp hrow) cpu)

/-- Maps whose counts fit have bytes. -/
theorem Bpf.CountsFit.exists_represents {b : Bpf n} (h : b.CountsFit) :
    ∃ w : WireMaps n, w.Represents b := by
  obtain ⟨aggregated, hagg⟩ :=
    exists_mapRep aggValueLayout biUnique_aggKey (fun _ => trivial) b.aggregated h.agg
  obtain ⟨launchAgg, hlaunch⟩ := exists_mapRep launchAggValueLayout biUnique_launchKey
    (fun _ => trivial) b.launchAgg h.launch
  obtain ⟨ncclAgg, hnccl⟩ :=
    exists_mapRep ncclAggValueLayout biUnique_aggKey (fun _ => trivial) b.ncclAgg h.nccl
  obtain ⟨upgradedPids, hupgraded⟩ := FinMap.exists_rel
    (S := fun (bytes : List U8) (value : U8) => bytes = [value]) biUnique_pid b.upgradedPids
    fun e _ => ⟨Layout.exists_represents trivial, [e.2], rfl⟩
  exact ⟨⟨aggregated, launchAgg, ncclAgg, upgradedPids⟩, hagg, hlaunch, hnccl, hupgraded⟩

namespace Sys

/-- After every run whose counts fit, the maps have a representation in bytes; and from any bytes
    that represent them, in whatever order the tables list their keys, the next tick on bytes is a
    tick of the model: nothing is lost, misread or refused by an assert. -/
theorem aggTickBytes_run (args : Args) (es : List (Event n))
    (hes : (run args n es).bpf.CountsFit) :
    (∃ w : WireMaps n, w.Represents (run args n es).bpf) ∧
      ∀ (w : WireMaps n), w.Represents (run args n es).bpf →
        ∀ (env : LoopEnv) (orders : WireOrders), ∃ aggOrder launchOrder ncclOrder w',
          let tick : Event n := .aggTick { env with aggOrder, launchOrder, ncclOrder }
          Loop.aggTickBytes args env orders (w, (run args n es).loop) =
              some (w', (run args n (es ++ [tick])).loop) ∧
            w'.Represents (run args n (es ++ [tick])).bpf := by
  refine ⟨hes.exists_represents, fun w hw env orders => ?_⟩
  obtain ⟨aggOrder, launchOrder, ncclOrder, w', htick, hw'⟩ :=
    Loop.aggTickBytes_rel args env orders hw (run args n es).loop
  refine ⟨aggOrder, launchOrder, ncclOrder, w', ?_⟩
  intro tick
  have hlast : run args n (es ++ [tick]) =
      (run args n es).aggTick args { env with aggOrder, launchOrder, ncclOrder } :=
    Runs.run_concat _ _ _ _
  rw [hlast]
  exact ⟨htick, hw'⟩

/-- A copy and a launch, one key in each of two maps. -/
def storedCalls : List (Event 1) :=
  [.enter (.cudaMemcpy 64 1) (bareCtx 0x700000007 100 0), .ret (bareCtx 0x700000007 200 0),
    .enter (.cudaLaunchKernel 0x401000) (bareCtx 0x700000007 300 0),
    .ret (bareCtx 0x700000007 400 0)]

theorem aggTickBytes_run_stored :
    (run {} 1 storedCalls).bpf.aggregated.slots.size = 1 ∧
      (run {} 1 storedCalls).bpf.launchAgg.slots.size = 1 ∧
      ∃ w : WireMaps 1, w.Represents (run {} 1 storedCalls).bpf ∧
        ∀ orders, (Loop.aggTickBytes {} .bare orders (w, (run {} 1 storedCalls).loop)).isSome := by
  have hfit : (run {} 1 storedCalls).bpf.CountsFit := ⟨by decide, by decide, by decide⟩
  obtain ⟨⟨w, hw⟩, hall⟩ := aggTickBytes_run {} storedCalls hfit
  refine ⟨by decide, by decide, w, hw, fun orders => ?_⟩
  obtain ⟨_, _, _, _, htick, -⟩ := hall w hw .bare orders
  rw [htick]
  rfl

end Sys

end Profi
