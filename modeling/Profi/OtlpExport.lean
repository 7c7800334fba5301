import Profi.OtlpPoints
import Profi.KvList
import Profi.Discovery

/-!
# What a Collector Receives

The bridge of `src/otlp.rs` as a whole: its configuration, the conversion of the gathered families
of every type, and the task that pushes them.

A reader of the pushes can undo the conversion. `OtlpMetric.decode` takes attributes back to labels
and the counts of buckets back to cumulative counts, and gives the family that was gathered, without
the buckets at infinity (`decode_convertMetricFamily`). So the pushes that went through are, one by
one and in order, the registry as it was at their ticks, less the self-observability families and
those without series; a push that failed takes nothing from the later ones
(`OtlpBridge.received_run`).
-/

namespace Profi

open Text

/-! ## Configuration -/

inductive OtlpProtocol where
  | grpc
  | httpProtobuf
  deriving DecidableEq

/-- `OtlpConfig`. The durations are in milliseconds. -/
structure OtlpConfig where
  endpoint : String
  protocol : OtlpProtocol
  interval : ℕ
  timeout : ℕ
  serviceName : String
  headers : List (String × String)
  caCertPath : Option String
  clientCertPath : Option String
  clientKeyPath : Option String
  insecure : Bool
  resourceAttrs : List (String × String)
  deriving DecidableEq

structure OtlpArgs where
  otlpEndpoint : Option String := none
  otlpProtocol : String := "grpc"
  otlpIntervalSecs : U64 := 60
  otlpTimeoutSecs : U64 := 10
  otlpServiceName : String := "profi"
  otlpHeaders : Option String := none
  otlpCaCert : Option String := none
  otlpClientCert : Option String := none
  otlpClientKey : Option String := none
  otlpInsecure : Bool := false
  otlpResourceAttrs : Option String := none

/-- The variables the bridge reads by itself. -/
structure OtlpEnv where
  otelMetricExportInterval : Option String := none
  hostname : Option String := none
  nodeName : Option String := none

namespace OtlpConfig

def parseProtocol (s : String) : Except String OtlpProtocol :=
  if s = "grpc" ∨ s = "grpc/protobuf" then .ok .grpc
  else if s = "http/protobuf" ∨ s = "http" then .ok .httpProtobuf
  else
    .error ("invalid --otlp-protocol '" ++ s ++ "', expected 'grpc' or 'http/protobuf'")

/-- The variable is in milliseconds and overrides the flag, which is in seconds. -/
def resolveInterval (args : OtlpArgs) (env : OtlpEnv) : Except String ℕ :=
  match env.otelMetricExportInterval with
  | some msStr =>
    match fromStrRadix 10 64 msStr.toList with
    | some ms => .ok ms
    | none => .error ("parse OTEL_METRIC_EXPORT_INTERVAL='" ++ msStr ++ "'")
  | none => .ok (args.otlpIntervalSecs.toNat * 1000)

/-- The endpoint, if there is more than blanks to it. -/
def resolveEndpoint (args : OtlpArgs) : Option String :=
  (args.otlpEndpoint.map fun s => String.ofList (trim s.toList)).filter (· ≠ "")

/-- `OtlpConfig::resolve`. -/
def resolve (args : OtlpArgs) (env : OtlpEnv) : Except String (Option OtlpConfig) :=
  match resolveEndpoint args with
  | none => .ok none
  | some endpoint => do
    let protocol ← parseProtocol args.otlpProtocol
    let interval ← resolveInterval args env
    return some
      { endpoint
        protocol
        interval
        timeout := args.otlpTimeoutSecs.toNat * 1000
        serviceName := args.otlpServiceName
        headers := (args.otlpHeaders.map parseKvList).getD []
        caCertPath := args.otlpCaCert
        clientCertPath := args.otlpClientCert
        clientKeyPath := args.otlpClientKey
        insecure := args.otlpInsecure
        resourceAttrs := (args.otlpResourceAttrs.map parseKvList).getD [] }

end OtlpConfig

/-- `CARGO_PKG_VERSION`. -/
def cargoPkgVersion : String := "0.0.1"

/-- `Resource` of the SDK: how one is made of pairs, and what it has for a key. -/
structure ResourceSdk (R : Type) where
  new : List (String × String) → R
  get : R → String → Option String

/-- What `build_resource` pushes before the attributes of the user. -/
def defaultAttrs (cfg : OtlpConfig) (env : OtlpEnv) : List (String × String) :=
  [("service.name", cfg.serviceName), ("service.version", cargoPkgVersion)] ++
    (match env.hostname with
      | some hostname =>
        if hostname = "" then []
        else [("service.instance.id", hostname), ("host.name", hostname)]
      | none => []) ++
    (match env.nodeName with
      | some node => if node = "" then [] else [("k8s.node.name", node)]
      | none => [])

def buildResource {R : Type} (sdk : ResourceSdk R) (cfg : OtlpConfig) (env : OtlpEnv) : R :=
  sdk.new (defaultAttrs cfg env ++ cfg.resourceAttrs)

/-- The value of the last pair with a key. -/
def lastValue (kvs : List (String × String)) (key : String) : Option String :=
  kvs.reverse.lookup key

/-- Of pairs with the same key the SDK keeps the last one. -/
def ResourceSdk.KeepsLast {R : Type} (sdk : ResourceSdk R) : Prop :=
  ∀ kvs key, sdk.get (sdk.new kvs) key = lastValue kvs key

theorem lastValue_append (xs ys : List (String × String)) (key : String) :
    lastValue (xs ++ ys) key = (lastValue ys key).or (lastValue xs key) := by
  simp only [lastValue, List.reverse_append]
  induction ys.reverse with
  | nil => rfl
  | cons y ys ih =>
    rw [List.cons_append, List.lookup_cons, List.lookup_cons]
    split
    · rfl
    · exact ih

/-- An attribute of the user wins over the default, and the last of several over the others. -/
theorem get_buildResource {R : Type} {sdk : ResourceSdk R} (hsdk : sdk.KeepsLast)
    (cfg : OtlpConfig) (env : OtlpEnv) (key : String) :
    sdk.get (buildResource sdk cfg env) key =
      (lastValue cfg.resourceAttrs key).or (lastValue (defaultAttrs cfg env) key) := by
  rw [buildResource, hsdk, lastValue_append]

/-! ## Families of every type -/

/-- The series of a gathered family by its type: the label pairs of each, and its value. Nothing
    looks into those of the last two types. -/
inductive FamilyData where
  | counter (metrics : List (List (String × String) × F64))
  | gauge (metrics : List (List (String × String) × F64))
  | histogram (metrics : List (List (String × String) × PromHistogram))
  | summary
  | untyped

structure GatheredFamily where
  name : String
  help : String
  data : FamilyData

/-- A data point of a sum or a gauge. It never has exemplars. -/
structure NumberDataPoint where
  attributes : List (String × String)
  startTime : Option ℕ
  time : Option ℕ
  value : F64
  deriving DecidableEq

inductive OtlpData where
  | sum (dataPoints : List NumberDataPoint) (temporality : Temporality) (isMonotonic : Bool)
  | gauge (dataPoints : List NumberDataPoint)
  | histogram (dataPoints : List HistogramDataPoint) (temporality : Temporality)

structure OtlpMetric where
  name : String
  description : String
  unit : String
  data : OtlpData

/-- A histogram family's metric among the others. -/
def HistogramMetric.toOtlpMetric (m : HistogramMetric) : OtlpMetric :=
  ⟨m.name, m.description, m.unit, .histogram m.dataPoints m.temporality⟩

def numberDataPoints (metrics : List (List (String × String) × F64)) (startTime now : ℕ) :
    List NumberDataPoint :=
  metrics.map fun m => ⟨translateLabels m.1, some startTime, some now, m.2⟩

namespace GatheredFamily

def counterFamilyToOtlp (family : GatheredFamily) (startTime now : ℕ) : Option OtlpMetric :=
  match family.data with
  | .counter metrics =>
    let dataPoints := numberDataPoints metrics startTime now
    if dataPoints.isEmpty then none
    else some ⟨family.name, family.help, "", .sum dataPoints .cumulative true⟩
  | _ => none

def gaugeFamilyToOtlp (family : GatheredFamily) (startTime now : ℕ) : Option OtlpMetric :=
  match family.data with
  | .gauge metrics =>
    let dataPoints := numberDataPoints metrics startTime now
    if dataPoints.isEmpty then none
    else some ⟨family.name, family.help, "", .gauge dataPoints⟩
  | _ => none

/-- `histogram_family_to_otlp`, with the check of the type. -/
def histogramFamilyToOtlp (family : GatheredFamily) (startTime now : ℕ) : Option OtlpMetric :=
  match family.data with
  | .histogram metrics =>
    (Profi.histogramFamilyToOtlp family.name family.help metrics startTime now).map
      HistogramMetric.toOtlpMetric
  | _ => none

def convertMetricFamily (family : GatheredFamily) (startTime now : ℕ) : Option OtlpMetric :=
  match family.data with
  | .counter _ => family.counterFamilyToOtlp startTime now
  | .gauge _ => family.gaugeFamilyToOtlp startTime now
  | .histogram _ => family.histogramFamilyToOtlp startTime now
  | _ => none

/-- Something of the family is sent: its type is one of the three, and it has a series. -/
def hasPoints (family : GatheredFamily) : Bool :=
  match family.data with
  | .counter metrics => !metrics.isEmpty
  | .gauge metrics => !metrics.isEmpty
  | .histogram metrics => !metrics.isEmpty
  | _ => false

/-- The family without the buckets at infinity. -/
def finiteOnly (family : GatheredFamily) : GatheredFamily :=
  match family.data with
  | .histogram metrics =>
    { family with
      data := .histogram (metrics.map fun m => (m.1, { m.2 with bucket := m.2.finite })) }
  | _ => family

/-- The label pairs of the series. -/
def labelSets (family : GatheredFamily) : List (List (String × String)) :=
  match family.data with
  | .counter metrics => metrics.map (·.1)
  | .gauge metrics => metrics.map (·.1)
  | .histogram metrics => metrics.map (·.1)
  | _ => []

def histograms (family : GatheredFamily) : List PromHistogram :=
  match family.data with
  | .histogram metrics => metrics.map (·.2)
  | _ => []

/-- What `prometheus` makes sure of: it refuses other names for labels, and its histograms are
    cumulative. -/
structure Ok (family : GatheredFamily) : Prop where
  names : ∀ labels ∈ family.labelSets, ∀ label ∈ labels, IsLabelName label.1
  cumulative : ∀ h ∈ family.histograms, h.Cumulative

end GatheredFamily

/-! ## Reading a metric back -/

/-- The label of an attribute: the row of the table that has it, or else the name behind the
    prefix. -/
def promName (key : String) : String :=
  match labelMap.find? fun pair => pair.2 == key with
  | some pair => pair.1
  | none => String.ofList (key.toList.drop 6)

def decodeLabels (attributes : List (String × String)) : List (String × String) :=
  attributes.map fun kv => (promName kv.1, kv.2)

theorem promName_otelKey {name : String} (h : IsLabelName name) :
    promName (otelKey name) = name := by
  rcases otelKey_cases name with ⟨pair, hpair, rfl, hkey⟩ | ⟨hout, hkey⟩
  · have htable : ∀ pair ∈ labelMap, promName pair.2 = pair.1 := by decide
    rw [hkey]
    exact htable pair hpair
  · have hnone : (labelMap.find? fun pair => pair.2 == otelKey name) = none := by
      apply List.find?_eq_none.mpr
      intro pair hpair
      rw [hkey, beq_iff_eq]
      exact labelMap_ne_prefixed hpair h hout
    have hchars : (otelKey name).toList.drop 6 = name.toList := by
      rw [hkey, String.toList_append]
      exact List.drop_left' rfl
    rw [promName, hnone]
    simp only [hchars, String.ofList_toList]

theorem decodeLabels_translateLabels {labels : List (String × String)}
    (h : ∀ label ∈ labels, IsLabelName label.1) :
    decodeLabels (translateLabels labels) = labels := by
  rw [decodeLabels, translateLabels, List.map_map]
  conv_rhs => rw [← List.map_id labels]
  apply List.map_congr_left
  intro label hlabel
  simp only [Function.comp_apply, promName_otelKey (h label hlabel), id]

/-- Running totals of the counts of buckets. -/
def runningCounts : U64 → List U64 → List U64
  | _, [] => []
  | total, count :: counts => (total + count) :: runningCounts (total + count) counts

theorem runningCounts_deltas {prev : U64} {xs : List U64} (h : (prev :: xs).Pairwise (· ≤ ·)) :
    runningCounts prev (WordSum.deltas prev xs) = xs := by
  induction xs generalizing prev with
  | nil => rfl
  | cons x xs ih =>
    have hle : prev ≤ x := List.rel_of_pairwise_cons h List.mem_cons_self
    have hsum : prev + WordSum.saturatingSub x prev = x := by
      apply BitVec.eq_of_toNat_eq
      have hsub := WordSum.toNat_saturatingSub hle
      have hx := x.isLt
      rw [BitVec.toNat_add, hsub, Nat.add_sub_cancel' hle, Nat.mod_eq_of_lt hx]
    rw [WordSum.deltas, runningCounts, hsum, ih (List.pairwise_cons.mp h).2]

/-- The bucket beyond the last bound has no cumulative count of its own. -/
def HistogramDataPoint.decode (point : HistogramDataPoint) : PromHistogram :=
  { bucket := List.zipWith HistogramBucket.mk point.bounds (runningCounts 0 point.bucketCounts)
    sampleCount := point.count
    sampleSum := point.sum }

/-- The cumulative counts are summed up again. -/
theorem decode_histogramToOtlp {h : PromHistogram} (hcum : h.Cumulative)
    (attributes : List (String × String)) (startTime now : ℕ) :
    (histogramToOtlp h attributes startTime now).decode = { h with bucket := h.finite } := by
  have hcounts : (histogramToOtlp h attributes startTime now).bucketCounts =
      WordSum.deltas 0 h.cumulativeCounts :=
    bucketCountsFrom_eq h.sampleCount 0 h.finite
  have hbounds : (histogramToOtlp h attributes startTime now).bounds =
      h.finite.map (·.upperBound) := rfl
  have hzip : ∀ finite : List HistogramBucket, List.zipWith HistogramBucket.mk
      (finite.map (·.upperBound)) (finite.map (·.cumulativeCount) ++ [h.sampleCount]) = finite := by
    intro finite
    induction finite with
    | nil => rfl
    | cons b finite ih =>
      rw [List.map_cons, List.map_cons, List.cons_append, List.zipWith_cons_cons, ih]
  rw [HistogramDataPoint.decode, hcounts, runningCounts_deltas hcum.pairwise, hbounds,
    PromHistogram.cumulativeCounts, hzip]
  rfl

def decodeNumbers (points : List NumberDataPoint) : List (List (String × String) × F64) :=
  points.map fun p => (decodeLabels p.attributes, p.value)

theorem decodeNumbers_numberDataPoints {metrics : List (List (String × String) × F64)}
    (h : ∀ labels ∈ metrics.map (·.1), ∀ label ∈ labels, IsLabelName label.1)
    (startTime now : ℕ) : decodeNumbers (numberDataPoints metrics startTime now) = metrics := by
  rw [decodeNumbers, numberDataPoints, List.map_map]
  conv_rhs => rw [← List.map_id metrics]
  apply List.map_congr_left
  intro m hm
  have hlabels := decodeLabels_translateLabels (h m.1 (List.mem_map_of_mem hm))
  simp only [Function.comp_apply, hlabels, id]

namespace OtlpMetric

/-- The family behind a metric. A sum that may fall is a gauge. -/
def decode (metric : OtlpMetric) : GatheredFamily :=
  { name := metric.name
    help := metric.description
    data :=
      match metric.data with
      | .sum points _ true => .counter (decodeNumbers points)
      | .sum points _ false => .gauge (decodeNumbers points)
      | .gauge points => .gauge (decodeNumbers points)
      | .histogram points _ =>
        .histogram (points.map fun p => (decodeLabels p.attributes, p.decode)) }

/-- The start times and the times of the points. -/
def stamps (metric : OtlpMetric) : List (Option ℕ × Option ℕ) :=
  match metric.data with
  | .sum points _ _ => points.map fun p => (p.startTime, p.time)
  | .gauge points => points.map fun p => (p.startTime, p.time)
  | .histogram points _ => points.map fun p => (some p.startTime, some p.time)

/-- What is sent counts from the start of the process: nothing is a delta. -/
def IsCumulative (metric : OtlpMetric) : Prop :=
  match metric.data with
  | .sum _ temporality isMonotonic => temporality = .cumulative ∧ isMonotonic = true
  | .gauge _ => True
  | .histogram _ temporality => temporality = .cumulative

end OtlpMetric

namespace GatheredFamily

variable {family : GatheredFamily}

/-- A family that is sent can be read back, less the buckets at infinity; others are left out. -/
theorem decode_convertMetricFamily (h : family.Ok) (startTime now : ℕ) :
    (family.convertMetricFamily startTime now).map OtlpMetric.decode =
      if family.hasPoints then some family.finiteOnly else none := by
  obtain ⟨name, help, data⟩ := family
  have hnames := h.names
  cases data with
  | counter metrics | gauge metrics =>
    cases metrics with
    | nil => rfl
    | cons m metrics =>
      have hnumbers := decodeNumbers_numberDataPoints hnames startTime now
      simp only [convertMetricFamily, counterFamilyToOtlp, gaugeFamilyToOtlp, hasPoints, finiteOnly]
      simp only [numberDataPoints, List.map_cons, List.isEmpty_cons] at hnumbers ⊢
      simp [OtlpMetric.decode, hnumbers]
  | histogram metrics =>
    cases metrics with
    | nil => rfl
    | cons m metrics =>
      -- labels and buckets of a point are read back independently
      have hpoint : ∀ x ∈ m :: metrics,
          (decodeLabels (translateLabels x.1),
            (histogramToOtlp x.2 (translateLabels x.1) startTime now).decode) =
          (x.1, { x.2 with bucket := x.2.finite }) := by
        intro x hx
        rw [decodeLabels_translateLabels (hnames x.1 (List.mem_map_of_mem hx)),
          decode_histogramToOtlp (h.cumulative x.2 (List.mem_map_of_mem hx))]
      have hpoints := List.map_congr_left hpoint
      simp only [convertMetricFamily, histogramFamilyToOtlp, Profi.histogramFamilyToOtlp, hasPoints,
        finiteOnly]
      simpa [HistogramMetric.toOtlpMetric, OtlpMetric.decode, histogramToOtlp] using hpoints
  | summary | untyped => rfl

/-- All points of a family have the same stamps. -/
theorem stamps_convertMetricFamily {startTime now : ℕ} {metric : OtlpMetric}
    (h : family.convertMetricFamily startTime now = some metric) :
    (∀ stamp ∈ metric.stamps, stamp = (some startTime, some now)) ∧ metric.IsCumulative := by
  obtain ⟨name, help, data⟩ := family
  cases data with
  | counter metrics | gauge metrics =>
    simp only [convertMetricFamily, counterFamilyToOtlp, gaugeFamilyToOtlp] at h
    split at h
    · cases h
    · cases h
      refine ⟨?_, by simp [OtlpMetric.IsCumulative]⟩
      intro stamp hstamp
      simp only [OtlpMetric.stamps, numberDataPoints, List.map_map, List.mem_map] at hstamp
      obtain ⟨m, -, rfl⟩ := hstamp
      rfl
  | histogram metrics =>
    simp only [convertMetricFamily, histogramFamilyToOtlp, Profi.histogramFamilyToOtlp] at h
    split at h
    · cases h
    · cases h
      refine ⟨?_, rfl⟩
      intro stamp hstamp
      simp only [HistogramMetric.toOtlpMetric, OtlpMetric.stamps, List.map_map,
        List.mem_map] at hstamp
      obtain ⟨m, -, rfl⟩ := hstamp
      rfl
  | summary | untyped => cases h

end GatheredFamily

/-! ## The bridge -/

/-- `ResourceMetrics`, with the one scope it is given. -/
structure ResourceMetrics (R : Type) where
  resource : R
  scope : String × String
  metrics : List OtlpMetric

/-- `build_scope`: name and version. -/
def buildScope : String × String := ("profi", cargoPkgVersion)

/-- The task of the bridge. `received` is a record for specifications, of the pushes that the
    collector has taken, oldest first. -/
structure OtlpBridge (R : Type) where
  resource : R
  startWallclock : ℕ
  received : List (ResourceMetrics R)

/-- A tick after the first one, which is skipped: the time, what the registry gathers, and whether
    the push goes through. -/
structure BridgeTick where
  now : ℕ
  families : List GatheredFamily
  exported : Bool

namespace OtlpBridge

variable {R : Type}

/-- `OtlpBridge::start`. The exporter is built first, and its errors end the start. -/
def start (sdk : ResourceSdk R) (cfg : OtlpConfig) (env : OtlpEnv)
    (buildExporter : OtlpConfig → Except String Unit) (startWallclock : ℕ) :
    Except String (OtlpBridge R) := do
  buildExporter cfg
  return ⟨buildResource sdk cfg env, startWallclock, []⟩

/-- The metrics of a push. -/
def otlpMetrics (b : OtlpBridge R) (t : BridgeTick) : List OtlpMetric :=
  (t.families.filter fun f => !shouldSkipMetric f.name).filterMap
    fun f => f.convertMetricFamily b.startWallclock t.now

def tick (b : OtlpBridge R) (t : BridgeTick) : OtlpBridge R :=
  let metrics := b.otlpMetrics t
  if metrics.isEmpty then b
  -- a failed export is only logged
  else if t.exported then
    { b with received := b.received ++ [⟨b.resource, buildScope, metrics⟩] }
  else b

end OtlpBridge

/-- What there is to see of a gathered registry: the families that are not about the agent itself
    and have a series. -/
def BridgeTick.shown (t : BridgeTick) : List GatheredFamily :=
  (t.families.filter fun f => !shouldSkipMetric f.name && f.hasPoints).map
    GatheredFamily.finiteOnly

/-- A push delivers a tick: it is from this process, reads back as the registry of the tick, and
    every point of it counts from the start of the process to the tick. -/
structure Delivers {R : Type} (resource : R) (startWallclock : ℕ) (rm : ResourceMetrics R)
    (t : BridgeTick) : Prop where
  resource : rm.resource = resource
  scope : rm.scope = buildScope
  families : rm.metrics.map OtlpMetric.decode = t.shown
  stamped : ∀ metric ∈ rm.metrics, ∀ stamp ∈ metric.stamps,
    stamp = (some startWallclock, some t.now)
  cumulative : ∀ metric ∈ rm.metrics, metric.IsCumulative

namespace OtlpBridge

variable {R : Type} {b : OtlpBridge R} {t : BridgeTick}

theorem decode_otlpMetrics (h : ∀ f ∈ t.families, f.Ok) :
    (b.otlpMetrics t).map OtlpMetric.decode = t.shown := by
  obtain ⟨now, families, exported⟩ := t
  simp only [otlpMetrics, BridgeTick.shown] at h ⊢
  -- family by family: the filters drop it on both sides, or its metric reads back as it
  induction families with
  | nil => rfl
  | cons f families ih =>
    have hdecode := GatheredFamily.decode_convertMetricFamily (h f List.mem_cons_self)
      b.startWallclock now
    have hrest := ih fun f hf => h f (List.mem_cons_of_mem _ hf)
    cases hskip : shouldSkipMetric f.name with
    | true => simpa [hskip] using hrest
    | false =>
      cases hpoints : f.hasPoints with
      | true =>
        rw [hpoints] at hdecode
        obtain ⟨metric, hmetric, hfamily⟩ := Option.map_eq_some_iff.mp hdecode
        simpa [hskip, hpoints, hmetric, hfamily] using hrest
      | false =>
        rw [hpoints] at hdecode
        have hnone := Option.map_eq_none_iff.mp hdecode
        simpa [hskip, hpoints, hnone] using hrest

theorem isEmpty_otlpMetrics (h : ∀ f ∈ t.families, f.Ok) :
    (b.otlpMetrics t).isEmpty = t.shown.isEmpty := by
  rw [← decode_otlpMetrics (b := b) h, List.isEmpty_map]

theorem delivers_otlpMetrics (h : ∀ f ∈ t.families, f.Ok) :
    Delivers b.resource b.startWallclock ⟨b.resource, buildScope, b.otlpMetrics t⟩ t where
  resource := rfl
  scope := rfl
  families := decode_otlpMetrics h
  stamped := by
    intro metric hmetric
    obtain ⟨f, -, hf⟩ := List.mem_filterMap.mp hmetric
    exact (GatheredFamily.stamps_convertMetricFamily hf).1
  cumulative := by
    intro metric hmetric
    obtain ⟨f, -, hf⟩ := List.mem_filterMap.mp hmetric
    exact (GatheredFamily.stamps_convertMetricFamily hf).2

/-- The ticks a collector hears of. -/
def heard (t : BridgeTick) : Bool := t.exported && !t.shown.isEmpty

/-- One tick adds a push that delivers it, or nothing. -/
theorem tick_eq (h : ∀ f ∈ t.families, f.Ok) :
    b.tick t = if heard t then
      { b with received := b.received ++ [⟨b.resource, buildScope, b.otlpMetrics t⟩] }
    else b := by
  have hempty := isEmpty_otlpMetrics (b := b) h
  unfold tick heard
  simp only [hempty]
  cases t.shown.isEmpty <;> cases t.exported <;> rfl

/-- The pushes after some ticks are those before, and one for each tick that was heard. -/
theorem received_foldl (ticks : List BridgeTick) (b : OtlpBridge R)
    (h : ∀ t ∈ ticks, ∀ f ∈ t.families, f.Ok) :
    ∃ pushes, (ticks.foldl tick b).received = b.received ++ pushes ∧
      List.Forall₂ (Delivers b.resource b.startWallclock) pushes (ticks.filter heard) := by
  induction ticks generalizing b with
  | nil => exact ⟨[], by simp, .nil⟩
  | cons t ticks ih =>
    have ht := h t List.mem_cons_self
    obtain ⟨pushes, hreceived, hdelivers⟩ :=
      ih (b.tick t) fun t ht => h t (List.mem_cons_of_mem _ ht)
    rw [List.foldl_cons, hreceived]
    rw [tick_eq ht] at hdelivers ⊢
    cases hheard : heard t with
    | true =>
      rw [hheard] at hdelivers
      refine ⟨⟨b.resource, buildScope, b.otlpMetrics t⟩ :: pushes, by simp, ?_⟩
      rw [List.filter_cons_of_pos hheard]
      exact .cons (delivers_otlpMetrics ht) hdelivers
    | false =>
      rw [hheard] at hdelivers
      refine ⟨pushes, by simp, ?_⟩
      rwa [List.filter_cons_of_neg (by simp [hheard])]

/-- Whatever is gathered at the ticks of a bridge, and whichever of its pushes fail: what the
    collector has received are the registries of the ticks whose push went through, each as it was
    gathered, in their order and from the resource of the configuration. Ticks with nothing to show
    send nothing. -/
theorem received_run (sdk : ResourceSdk R) (hsdk : sdk.KeepsLast) (args : OtlpArgs) (env : OtlpEnv)
    (buildExporter : OtlpConfig → Except String Unit) (startWallclock : ℕ) (ticks : List BridgeTick)
    (cfg : OtlpConfig) (hcfg : OtlpConfig.resolve args env = .ok (some cfg))
    (b : OtlpBridge R) (hstart : start sdk cfg env buildExporter startWallclock = .ok b)
    (h : ∀ t ∈ ticks, ∀ f ∈ t.families, f.Ok) :
    List.Forall₂ (Delivers b.resource startWallclock) (ticks.foldl tick b).received
        (ticks.filter heard) ∧
      ∀ key, sdk.get b.resource key =
        (lastValue ((args.otlpResourceAttrs.map parseKvList).getD []) key).or
          (lastValue (defaultAttrs cfg env) key) := by
  -- a bridge that starts has sent nothing
  have hb : b = ⟨buildResource sdk cfg env, startWallclock, []⟩ := by
    unfold start at hstart
    cases hexporter : buildExporter cfg with
    | error e => simp [hexporter, Bind.bind, Except.bind] at hstart
    | ok u =>
      simp only [hexporter, Bind.bind, Except.bind, Pure.pure, Except.pure,
        Except.ok.injEq] at hstart
      exact hstart.symm
  -- a configuration takes the attributes over, whatever else it resolves
  have hattrs : cfg.resourceAttrs = (args.otlpResourceAttrs.map parseKvList).getD [] := by
    unfold OtlpConfig.resolve at hcfg
    cases hendpoint : OtlpConfig.resolveEndpoint args with
    | none => simp [hendpoint] at hcfg
    | some endpoint =>
      cases hprotocol : OtlpConfig.parseProtocol args.otlpProtocol with
      | error e => simp [hendpoint, hprotocol, Bind.bind, Except.bind] at hcfg
      | ok protocol =>
        cases hinterval : OtlpConfig.resolveInterval args env with
        | error e => simp [hendpoint, hprotocol, hinterval, Bind.bind, Except.bind] at hcfg
        | ok interval =>
          simp only [hendpoint, hprotocol, hinterval, Bind.bind, Except.bind, Pure.pure,
            Except.pure, Except.ok.injEq, Option.some.injEq] at hcfg
          rw [← hcfg]
  subst hb
  obtain ⟨pushes, hreceived, hdelivers⟩ := received_foldl ticks _ h
  constructor
  · rw [hreceived]
    exact hdelivers
  · intro key
    rw [← hattrs]
    exact get_buildResource hsdk cfg env key

/-- A histogram with an explicit bucket at infinity, beside a family about the agent. -/
def latencyTick (now : ℕ) (exported : Bool) : BridgeTick where
  now := now
  families :=
    [⟨"profi_nccl_duration_seconds", "",
        .histogram [([], ⟨[⟨0x3ff0000000000000, 2⟩, ⟨0x7ff0000000000000, 7⟩], 7, 0⟩)]⟩,
      ⟨"profi_system_cache_series", "", .gauge [([], 0)]⟩]
  exported := exported

/-- A resource that is its pairs, read from the back. -/
def pairsSdk : ResourceSdk (List (String × String)) := ⟨id, lastValue⟩

/-- The first push fails, and the collector has the second one, from a service with the name that
    the user gave last. -/
theorem received_run_after_failure :
    ∃ b : OtlpBridge (List (String × String)), List.Forall₂ (Delivers b.resource 0)
        ([latencyTick 1 false, latencyTick 2 true].foldl tick b).received [latencyTick 2 true] ∧
      pairsSdk.get b.resource "service.name" = some "b" := by
  have hok : ∀ now exported, ∀ f ∈ (latencyTick now exported).families, f.Ok := by
    intro now exported f hf
    simp only [latencyTick, List.mem_cons, List.not_mem_nil, or_false] at hf
    rcases hf with rfl | rfl
    · refine ⟨by simp [GatheredFamily.labelSets], fun h hh => ?_⟩
      cases List.mem_singleton.mp hh
      exact ⟨by decide, by decide⟩
    · exact ⟨by simp [GatheredFamily.labelSets], by simp [GatheredFamily.histograms]⟩
  obtain ⟨hreceived, hresource⟩ := received_run pairsSdk (fun _ _ => rfl)
    { otlpEndpoint := some " http://collector:4317"
      otlpResourceAttrs := some "service.name=a,service.name=b" } {}
    (fun _ => .ok ()) 0 [latencyTick 1 false, latencyTick 2 true] _ rfl _ rfl
    (by simpa using ⟨hok 1 false, hok 2 true⟩)
  exact ⟨_, hreceived, (hresource _).trans (by decide)⟩

end OtlpBridge

end Profi
