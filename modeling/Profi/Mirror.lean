import Profi.Requests

/-!
# `UPGRADED_PIDS` and the Promoted Processes

A tick that finds the set of promoted processes changed brings the map up to date by difference:
it deletes what it has recorded and is no longer wanted, and inserts what is wanted and not
recorded. The record is the set wanted at the last such tick, whether or not the insertions
succeeded, and the map takes 1024 processes.

So a process that found the map full is recorded and not in the map, and is never inserted again
while it is wanted. `mirror_iff` says that this is the only way the map differs from a set it has
room for.
-/

namespace Profi

variable {n : ℕ} {args : Args}

namespace Loop

/-! ## One synchronisation -/

/-- Insertions succeed in their order until the map is full. -/
theorem mem_foldl_insertUpgraded {pids : List U32} {map : FinMap U32 U8} (hnodup : pids.Nodup)
    (hnew : ∀ pid ∈ pids, pid ∉ map) (pid : U32) :
    pid ∈ pids.foldl insertUpgraded map ↔
      pid ∈ map ∨ pid ∈ pids.take (upgradedPidsMaxEntries - map.size) := by
  induction pids generalizing map with
  | nil => simp
  | cons first pids ih =>
    obtain ⟨hfirst, hnodup⟩ := List.nodup_cons.mp hnodup
    have hout : first ∉ map := hnew first List.mem_cons_self
    rw [List.foldl_cons]
    -- with room the process goes in and takes one place, without it nothing does any more
    by_cases hroom : map.size < upgradedPidsMaxEntries
    · have hinsert : insertUpgraded map first = map.insert first 1 := if_pos (.inr hroom)
      have hrest : ∀ pid ∈ pids, pid ∉ map.insert first 1 := by
        intro pid hpid hmem
        rcases (AList.mem_insert _).mp hmem with rfl | hold
        · exact hfirst hpid
        · exact hnew pid (List.mem_cons_of_mem _ hpid) hold
      obtain ⟨room, hsucc⟩ : ∃ room, upgradedPidsMaxEntries - map.size = room + 1 :=
        ⟨upgradedPidsMaxEntries - map.size - 1, by omega⟩
      have hsize : upgradedPidsMaxEntries - FinMap.size (map.insert first 1) = room := by
        rw [FinMap.size_insert_of_notMem hout]
        omega
      rw [hinsert, ih hnodup hrest, hsize, hsucc, List.take_succ_cons, AList.mem_insert,
        List.mem_cons]
      tauto
    · have hfull : insertUpgraded map first = map := if_neg (by tauto)
      have hzero : upgradedPidsMaxEntries - map.size = 0 := by omega
      rw [hfull, ih hnodup fun pid hpid => hnew pid (List.mem_cons_of_mem _ hpid), hzero]
      simp

/-- What a synchronisation takes for the contents of the map. -/
def recorded (s : Bpf n × Loop) : List U32 :=
  if s.2.upgradedPidsSynced.isEmpty then s.1.upgradedPids.keys else s.2.upgradedPidsSynced

/-- The map without the recorded processes that are no longer wanted. -/
def kept (s : Bpf n × Loop) (desired : List U32) : FinMap U32 U8 :=
  ((recorded s).filter (· ∉ desired)).foldl (fun m pid => m.erase pid) s.1.upgradedPids

/-- All that is in the map is recorded. -/
def Covers (s : Bpf n × Loop) : Prop :=
  ∀ pid ∈ s.1.upgradedPids, pid ∈ s.2.upgradedPidsSynced

theorem Covers.mem_recorded {s : Bpf n × Loop} (h : Covers s) {pid : U32}
    (hpid : pid ∈ s.1.upgradedPids) : pid ∈ recorded s := by
  unfold recorded
  split
  · exact hpid
  · exact h pid hpid

/-- The processes that stay in the map are those that are wanted. -/
theorem mem_kept {s : Bpf n × Loop} (h : Covers s) (desired : List U32) (pid : U32) :
    pid ∈ kept s desired ↔ pid ∈ s.1.upgradedPids ∧ pid ∈ desired := by
  rw [FinMap.mem_iff_lookup, kept, FinMap.lookup_foldl_erase]
  by_cases hdesired : pid ∈ desired
  · simp [hdesired, FinMap.mem_iff_lookup]
  · -- what is not wanted is recorded if it is in the map, and so is deleted
    by_cases hmap : pid ∈ s.1.upgradedPids
    · simp [hdesired, h.mem_recorded hmap]
    · have hnone : s.1.upgradedPids.lookup pid = none := AList.lookup_eq_none.mpr hmap
      simp [hdesired, hnone]

/-- After a synchronisation the map has the wanted processes that it had, and the wanted ones that
    were not recorded as far as there is room. -/
theorem mem_syncUpgradedPids {s : Bpf n × Loop} (h : Covers s) {desired : List U32}
    (hnodup : desired.Nodup) (pid : U32) :
    pid ∈ (syncUpgradedPids s desired).1.upgradedPids ↔
      pid ∈ s.1.upgradedPids ∧ pid ∈ desired ∨
        pid ∈ (desired.filter (· ∉ recorded s)).take
          (upgradedPidsMaxEntries - FinMap.size (kept s desired)) := by
  rw [← mem_kept h]
  refine mem_foldl_insertUpgraded (hnodup.filter _) (fun pid hpid hkept => ?_) pid
  have hout : pid ∉ recorded s := of_decide_eq_true (List.mem_filter.mp hpid).2
  exact hout (h.mem_recorded ((mem_kept h desired pid).mp hkept).1)

theorem covers_syncUpgradedPids {s : Bpf n × Loop} (h : Covers s) {desired : List U32}
    (hnodup : desired.Nodup) : Covers (syncUpgradedPids s desired) := by
  intro pid hpid
  rcases (mem_syncUpgradedPids h hnodup pid).mp hpid with ⟨-, hdesired⟩ | hnew
  · exact hdesired
  · exact (List.mem_filter.mp (List.mem_of_mem_take hnew)).1

/-- A process that is recorded and not in the map stays out. -/
theorem notMem_syncUpgradedPids {s : Bpf n × Loop} (h : Covers s) {desired : List U32}
    (hnodup : desired.Nodup) {pid : U32} (hsynced : pid ∈ s.2.upgradedPidsSynced)
    (hout : pid ∉ s.1.upgradedPids) : pid ∉ (syncUpgradedPids s desired).1.upgradedPids := by
  have hrecorded : pid ∈ recorded s := by
    rw [recorded, if_neg]
    · exact hsynced
    · intro hempty
      rw [List.isEmpty_iff.mp hempty] at hsynced
      cases hsynced
  intro hin
  rcases (mem_syncUpgradedPids h hnodup pid).mp hin with ⟨hmap, -⟩ | hnew
  · exact hout hmap
  · exact of_decide_eq_true (List.mem_filter.mp (List.mem_of_mem_take hnew)).2 hrecorded

/-- What stays and what is inserted fits in the map if the wanted processes do. -/
theorem kept_room {s : Bpf n × Loop} (h : Covers s) {desired : List U32} (hnodup : desired.Nodup)
    (hfits : desired.length ≤ upgradedPidsMaxEntries) :
    (desired.filter (· ∉ recorded s)).length ≤
      upgradedPidsMaxEntries - FinMap.size (kept s desired) := by
  -- what stays and what is new are disjoint parts of the desired set
  have hdisjoint : Disjoint (kept s desired).keySet
      (desired.filter (· ∉ recorded s)).toFinset := by
    rw [Finset.disjoint_left]
    intro pid hkept hnew
    have hmap := ((mem_kept h desired pid).mp (FinMap.mem_keySet.mp hkept)).1
    simp [h.mem_recorded hmap] at hnew
  have hsub : (kept s desired).keySet ∪ (desired.filter (· ∉ recorded s)).toFinset ⊆
      desired.toFinset := by
    intro pid hpid
    rcases Finset.mem_union.mp hpid with hkept | hnew
    · exact List.mem_toFinset.mpr ((mem_kept h desired pid).mp (FinMap.mem_keySet.mp hkept)).2
    · exact List.mem_toFinset.mpr (List.mem_filter.mp (List.mem_toFinset.mp hnew)).1
  have hcard := Finset.card_le_card hsub
  rw [Finset.card_union_of_disjoint hdisjoint, FinMap.card_keySet,
    List.toFinset_card_of_nodup (hnodup.filter _), List.toFinset_card_of_nodup hnodup] at hcard
  omega

/-- A synchronisation with a set the map has room for makes the map that set exactly if the wanted
    processes that are recorded are in the map. -/
theorem syncUpgradedPids_mirrors_iff {s : Bpf n × Loop} (h : Covers s) {desired : List U32}
    (hnodup : desired.Nodup) (hfits : desired.length ≤ upgradedPidsMaxEntries) :
    (∀ pid, pid ∈ (syncUpgradedPids s desired).1.upgradedPids ↔ pid ∈ desired) ↔
      ∀ pid ∈ desired, pid ∈ s.2.upgradedPidsSynced → pid ∈ s.1.upgradedPids := by
  have hmem : ∀ pid, pid ∈ (syncUpgradedPids s desired).1.upgradedPids ↔
      pid ∈ desired ∧ (pid ∈ recorded s → pid ∈ s.1.upgradedPids) := by
    intro pid
    rw [mem_syncUpgradedPids h hnodup, List.take_of_length_le (kept_room h hnodup hfits),
      List.mem_filter, decide_eq_true_iff]
    constructor
    · rintro (⟨hmap, hdesired⟩ | ⟨hdesired, hout⟩)
      · exact ⟨hdesired, fun _ => hmap⟩
      · exact ⟨hdesired, fun hin => absurd hin hout⟩
    · rintro ⟨hdesired, himp⟩
      by_cases hin : pid ∈ recorded s
      · exact .inl ⟨himp hin, hdesired⟩
      · exact .inr ⟨hdesired, hin⟩
  -- a listed map has what is recorded
  have hrecorded : (∀ pid ∈ desired, pid ∈ recorded s → pid ∈ s.1.upgradedPids) ↔
      ∀ pid ∈ desired, pid ∈ s.2.upgradedPidsSynced → pid ∈ s.1.upgradedPids := by
    unfold recorded
    split
    next hempty =>
      rw [List.isEmpty_iff.mp hempty]
      exact iff_of_true (fun _ _ hin => hin) (fun _ _ hin => absurd hin List.not_mem_nil)
    · rfl
  rw [← hrecorded]
  constructor
  · intro hall pid hdesired
    exact ((hmem pid).mp ((hall pid).mpr hdesired)).2
  · intro hall pid
    rw [hmem]
    exact ⟨And.left, fun hdesired => ⟨hdesired, hall pid hdesired⟩⟩

/-! ## Runs -/

/-- The drains leave `UPGRADED_PIDS` and what is known of it alone. -/
theorem drainMaps_upgraded (args : Args) (env : LoopEnv) (s : Bpf n × Loop) :
    (drainMaps args env s).1.upgradedPids = s.1.upgradedPids ∧
      (drainMaps args env s).2.1.upgradedPidsSynced = s.2.upgradedPidsSynced := by
  rw [drainMaps_eq_foldl]
  exact ⟨rfl, (foldl_processRecord_frame args env _ (s.2, ∅)).2.1⟩

/-- A tick synchronises first, and nothing after that touches the map or the record. -/
theorem aggTick_upgradedPids (args : Args) (env : LoopEnv) (s : Bpf n × Loop) :
    let synced := env.upgradedPids.elim s (syncUpgradedPids s)
    (aggTick args env s).1.upgradedPids = synced.1.upgradedPids ∧
      (aggTick args env s).2.upgradedPidsSynced = synced.2.upgradedPidsSynced := by
  have hflush : ∀ (l : Loop) (delta : MemDelta),
      (l.flushActiveMemory env delta).upgradedPidsSynced = l.upgradedPidsSynced :=
    fun l delta => Runs.foldl_frame Loop.upgradedPidsSynced
      (fun l (e : Sigma fun _ : U32 => I64) => l.addActiveMemory env e.1 e.2)
      (fun _ _ => rfl) delta.entries l
  simp only [aggTick, hflush]
  cases env.upgradedPids with
  | none => exact drainMaps_upgraded args env s
  | some desired => exact drainMaps_upgraded args env (syncUpgradedPids s desired)

end Loop

namespace Sys

variable {s : Sys n}

/-- Only ticks change which processes are upgraded. -/
theorem upgraded_of_ne (args : Args) (s : Sys n) {e : Event n} (htick : ∀ env, e ≠ .aggTick env) :
    (s.step args e).bpf.upgradedPids = s.bpf.upgradedPids ∧
      (s.step args e).loop.upgradedPidsSynced = s.loop.upgradedPidsSynced := by
  have hsame := s.buffersSame args e
  cases e with
  | ret ctx =>
    cases hs : s.stack ctx.pidTgid with
    | nil =>
      rw [step, ret_nil hs]
      exact ⟨rfl, rfl⟩
    | cons call rest =>
      rw [step, ret_cons hs]
      refine ⟨?_, rfl⟩
      rw [Probe.exit_frame]
  | consume env =>
    -- neither records nor registrations touch the set
    have hstart : (s.armStart args (.consume env)).upgradedPidsSynced =
        s.loop.upgradedPidsSynced := by rw [armStart, Loop.invalidateChanged_eq]
    have hregs := Runs.foldl_frame Loop.upgradedPidsSynced (Loop.registerKernel env)
      fun l reg => by rw [Loop.registerKernel_frame]
    constructor
    · simp only [step]
      rw [consume_bpf]
    · rw [step_loop]
      exact (hregs _ _).trans ((Loop.foldl_processRecord_frame args env _ _).2.1.trans hstart)
  | aggTick env => exact absurd rfl (htick env)
  | _ => exact ⟨(hsame rfl).upgradedPids, (hsame rfl).upgradedPidsSynced⟩

/-- The processes a tick wants are listed once. -/
def WantsOnce (_ : Sys n) : Event n → Prop
  | .aggTick env => ∀ desired, env.upgradedPids = some desired → desired.Nodup
  | _ => True

/-- After a tick that wants a set the map has room for, the map is that set. -/
def Mirrors (args : Args) (s : Sys n) (e : Event n) : Prop :=
  ∀ env desired, e = .aggTick env → env.upgradedPids = some desired →
    desired.length ≤ upgradedPidsMaxEntries →
    ∀ pid, pid ∈ (s.step args e).bpf.upgradedPids ↔ pid ∈ desired

/-- A tick that wants a set the map has room for wants no process that is recorded and not in the
    map. -/
def RecordHolds (s : Sys n) (e : Event n) : Prop :=
  ∀ env desired, e = .aggTick env → env.upgradedPids = some desired →
    desired.length ≤ upgradedPidsMaxEntries →
    ∀ pid ∈ desired, pid ∈ s.loop.upgradedPidsSynced → pid ∈ s.bpf.upgradedPids

/-- Whoever is synced stays in the map. -/
theorem covers_step (args : Args) (h : Loop.Covers (s.bpf, s.loop)) {e : Event n}
    (he : s.WantsOnce e) :
    Loop.Covers ((s.step args e).bpf, (s.step args e).loop) := by
  by_cases htick : ∃ env, e = .aggTick env
  · obtain ⟨env, rfl⟩ := htick
    obtain ⟨hmap, hsynced⟩ := Loop.aggTick_upgradedPids args env (s.bpf, s.loop)
    have hcovers : Loop.Covers (env.upgradedPids.elim (s.bpf, s.loop)
        (Loop.syncUpgradedPids (s.bpf, s.loop))) := by
      cases hwants : env.upgradedPids with
      | none => exact h
      | some desired => exact Loop.covers_syncUpgradedPids h (he desired hwants)
    intro pid hpid
    refine hsynced ▸ hcovers pid ?_
    exact hmap ▸ hpid
  · obtain ⟨hmap, hsynced⟩ := upgraded_of_ne args s fun env he => htick ⟨env, he⟩
    intro pid hpid
    refine hsynced ▸ h pid ?_
    exact hmap ▸ hpid

theorem upgraded_aggTick (args : Args) (s : Sys n) {env : LoopEnv} {desired : List U32}
    (hwants : env.upgradedPids = some desired) :
    (s.step args (.aggTick env)).bpf.upgradedPids =
        (Loop.syncUpgradedPids (s.bpf, s.loop) desired).1.upgradedPids ∧
      (s.step args (.aggTick env)).loop.upgradedPidsSynced = desired := by
  have hsync := Loop.aggTick_upgradedPids args env (s.bpf, s.loop)
  rw [hwants] at hsync
  exact hsync

theorem mirrors_iff_recordHolds (h : Loop.Covers (s.bpf, s.loop)) {e : Event n}
    (he : s.WantsOnce e) : Mirrors args s e ↔ RecordHolds s e := by
  refine forall_congr' fun env => forall_congr' fun desired => ?_
  refine forall_congr' fun htick => forall_congr' fun hwants => forall_congr' fun hfits => ?_
  subst htick
  rw [(upgraded_aggTick args s hwants).1]
  exact Loop.syncUpgradedPids_mirrors_iff h (he desired hwants) hfits

/-- After every tick that wants a set the map has room for, the map is that set, exactly if no
    such tick wants a process that is recorded and not in the map. -/
theorem mirror_iff (args : Args) (es : List (Event n)) (hes : Permitted args WantsOnce es) :
    Permitted args (Mirrors args) es ↔ Permitted args RecordHolds es := by
  refine Runs.along_iff_of_invariant (I := fun s : Sys n => Loop.Covers (s.bpf, s.loop))
    (fun s e h he => covers_step args h he) (fun s e h he => mirrors_iff_recordHolds h he) ?_ hes
  intro pid hpid
  exact absurd hpid (AList.notMem_empty pid)

/-- A tick that wants these processes. -/
def wants (pids : List U32) : Event n := .aggTick { LoopEnv.bare with upgradedPids := some pids }

/-- The first tick finds the record empty. -/
theorem mirror_first_tick :
    Permitted {} WantsOnce [(wants [7, 8] : Event 1)] ∧
      ∀ pid, pid ∈ (run {} 1 [wants [7, 8]]).bpf.upgradedPids ↔ pid ∈ [7, 8] := by
  have hwants : Permitted {} WantsOnce [(wants [7, 8] : Event 1)] := by
    refine ⟨fun desired hdesired => ?_, trivial⟩
    cases hdesired
    decide
  refine ⟨hwants, ?_⟩
  have hmirror := ((mirror_iff {} _ hwants).mpr ⟨?_, trivial⟩).1
  · exact hmirror _ [7, 8] rfl rfl (by decide)
  · intro env desired _ _ _ pid _ hsynced
    cases hsynced

theorem upgraded_wants (args : Args) (s : Sys n) (pids : List U32) :
    (s.step args (wants pids)).bpf.upgradedPids =
        (Loop.syncUpgradedPids (s.bpf, s.loop) pids).1.upgradedPids ∧
      (s.step args (wants pids)).loop.upgradedPidsSynced = pids :=
  upgraded_aggTick args s rfl

theorem wantsOnce_wants {pids : List U32} (hpids : pids.Nodup) (s : Sys n) :
    s.WantsOnce (wants pids) := by
  intro desired hdesired
  cases hdesired
  exact hpids

/-- The first tick records a process it has no room for, and the second does not insert it. -/
theorem notMem_of_refused (args : Args) {full : List U32} {pid : U32}
    (hnodup : (full ++ [pid]).Nodup) (hfull : full.length = upgradedPidsMaxEntries)
    {second : List U32} (hsecond : second.Nodup) :
    pid ∉ (run args n [wants (full ++ [pid]), wants second]).bpf.upgradedPids := by
  have hcovers : Loop.Covers ((Sys.init n args).bpf, (Sys.init n args).loop) :=
    fun pid hpid => absurd hpid (AList.notMem_empty pid)
  have hcovers' := covers_step args hcovers (wantsOnce_wants hnodup (Sys.init n args))
  obtain ⟨hmap, hsynced⟩ := upgraded_wants args (Sys.init n args) (full ++ [pid])
  -- the last process finds the map full, and is recorded all the same
  have hout : pid ∉ ((Sys.init n args).step args (wants (full ++ [pid]))).bpf.upgradedPids := by
    have hnone : Loop.recorded ((Sys.init n args).bpf, (Sys.init n args).loop) = [] := rfl
    have hkept : FinMap.size (Loop.kept ((Sys.init n args).bpf, (Sys.init n args).loop)
        (full ++ [pid])) = 0 := rfl
    rw [hmap, Loop.mem_syncUpgradedPids hcovers hnodup, hnone, hkept, Nat.sub_zero, ← hfull]
    rintro (⟨hin, -⟩ | hin)
    · exact AList.notMem_empty _ hin
    · have hin : pid ∈ full := by simpa using hin
      exact (List.nodup_append.mp hnodup).2.2 pid hin pid (List.mem_singleton_self pid) rfl
  have hrecorded : pid ∈ ((Sys.init n args).step args
      (wants (full ++ [pid]))).loop.upgradedPidsSynced := by
    rw [hsynced]
    exact List.mem_append_right _ (List.mem_singleton_self pid)
  rw [run, Runs.run_cons, Runs.run_cons, Runs.run_nil, (upgraded_wants args _ second).1]
  exact Loop.notMem_syncUpgradedPids hcovers' hsecond hrecorded hout

/-- One process more than the map holds is wanted, and then one less: the process that found the
    map full stays out, though there is room for it. -/
theorem refused_process_stays_out :
    let full := (List.range 1024).map (BitVec.ofNat 32)
    let es : List (Event 1) := [wants (full ++ [1024]), wants (full.tail ++ [1024])]
    Permitted {} WantsOnce es ∧ (full.tail ++ [1024]).length ≤ upgradedPidsMaxEntries ∧
      1024 ∉ (run {} 1 es).bpf.upgradedPids := by
  intro full es
  have hlength : full.length = 1024 := by rw [List.length_map, List.length_range]
  have hnodup : (full ++ [1024]).Nodup := by
    have hrange : full ++ [1024] = (List.range 1025).map (BitVec.ofNat 32) := by
      rw [List.range_succ, List.map_append]
      rfl
    rw [hrange]
    refine List.Nodup.map_on (fun i hi j hj hij => ?_) List.nodup_range
    have hi := List.mem_range.mp hi
    have hj := List.mem_range.mp hj
    -- numbers below 2 ^ 32 are not wrapped
    have hnat := congrArg BitVec.toNat hij
    rw [BitVec.toNat_ofNat, BitVec.toNat_ofNat] at hnat
    omega
  have hsecond : (full.tail ++ [1024]).Nodup :=
    hnodup.sublist ((List.tail_sublist full).append (List.Sublist.refl _))
  refine ⟨⟨wantsOnce_wants hnodup _, wantsOnce_wants hsecond _, trivial⟩, ?_,
    notMem_of_refused {} hnodup hlength hsecond⟩
  rw [List.length_append, List.length_tail, hlength]
  exact le_rfl

end Sys

end Profi
