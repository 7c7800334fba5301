import Profi.Otlp
import Profi.Lib.WordSum

/-!
# OTLP Data Points

How a series becomes a data point: its labels are renamed to attributes, and the cumulative counts
of a histogram become the counts of its buckets.

Neither loses anything. Label names have no dots, so the attributes of the names that are only
prefixed cannot meet those of the table (`otelKey_injective_on_names`), and running totals can be
read back from the counts of the buckets, for cumulative counts that do not fall
(`histogramToOtlp_spec`).
-/

namespace Profi

/-! ## Labels -/

/-- The first character of a label name: `[a-zA-Z_]`. -/
def isLabelStart (c : Char) : Bool := c.isAlpha || c == '_'

/-- The other characters of a label name: `[a-zA-Z0-9_]`. -/
def isLabelChar (c : Char) : Bool := c.isAlphanum || c == '_'

/-- Names that `prometheus` accepts for labels. -/
def IsLabelName (name : String) : Prop :=
  ∃ c cs, name.toList = c :: cs ∧ isLabelStart c = true ∧ cs.all isLabelChar = true

theorem IsLabelName.dot_notMem {name : String} (h : IsLabelName name) : '.' ∉ name.toList := by
  obtain ⟨c, cs, hname, hc, hcs⟩ := h
  intro hdot
  rw [hname] at hdot
  rcases List.mem_cons.mp hdot with rfl | hmem
  · exact absurd hc (by decide)
  · exact absurd (List.all_eq_true.mp hcs '.' hmem) (by decide)

/-- Where the table prefixes a name as well, the name is in the table, or has a dot in it. -/
theorem labelMap_prefixed {pair : String × String} (hpair : pair ∈ labelMap) {name : String}
    (h : pair.2 = "profi." ++ name) :
    name ∈ labelMap.map Prod.fst ∨ '.' ∈ name.toList := by
  -- the table is small enough to look at every row that starts like a prefixed name
  have htable : ∀ pair ∈ labelMap, pair.2.toList.take 6 = "profi.".toList →
      pair.2.toList.drop 6 ∈ labelMap.map (·.1.toList) ∨ '.' ∈ pair.2.toList.drop 6 := by
    decide
  have hchars : pair.2.toList = "profi.".toList ++ name.toList := by
    rw [h, String.toList_append]
  have hlength : "profi.".toList.length = 6 := rfl
  have htake : pair.2.toList.take 6 = "profi.".toList := by
    rw [hchars, List.take_left' hlength]
  have hdrop : pair.2.toList.drop 6 = name.toList := by
    rw [hchars, List.drop_left' hlength]
  rcases htable pair hpair htake with hmem | hdot
  · left
    obtain ⟨other, hother, heq⟩ := List.mem_map.mp hmem
    rw [hdrop, String.toList_inj] at heq
    exact List.mem_map.mpr ⟨other, hother, heq⟩
  · right
    rwa [hdrop] at hdot

/-- A row of the table and a prefixed name never meet. -/
theorem labelMap_ne_prefixed {pair : String × String} (hpair : pair ∈ labelMap) {name : String}
    (hname : IsLabelName name) (hout : name ∉ labelMap.map Prod.fst) :
    pair.2 ≠ "profi." ++ name := by
  intro heq
  rcases labelMap_prefixed hpair heq with hin | hdot
  · exact hout hin
  · exact hname.dot_notMem hdot

/-- A name is renamed by a row of the table, or prefixed if the table does not have it. -/
theorem otelKey_cases (name : String) :
    (∃ pair ∈ labelMap, pair.1 = name ∧ otelKey name = pair.2) ∨
      name ∉ labelMap.map Prod.fst ∧ otelKey name = "profi." ++ name := by
  unfold otelKey
  cases hlookup : labelMap.lookup name with
  | some key =>
    obtain ⟨before, after, htable, -⟩ := List.lookup_eq_some_iff.mp hlookup
    refine .inl ⟨(name, key), ?_, rfl, rfl⟩
    rw [htable]
    simp
  | none =>
    refine .inr ⟨?_, rfl⟩
    intro hmem
    obtain ⟨pair, hpair, rfl⟩ := List.mem_map.mp hmem
    have hne := List.lookup_eq_none_iff.mp hlookup pair hpair
    simp at hne

/-- Different label names become different attributes. -/
theorem otelKey_injective_on_names {a b : String} (ha : IsLabelName a) (hb : IsLabelName b)
    (h : otelKey a = otelKey b) : a = b := by
  have htargets : ∀ p ∈ labelMap, ∀ q ∈ labelMap, p.2 = q.2 → p.1 = q.1 := by decide
  -- both by the table, both prefixed, or one of each, which cannot meet
  rcases otelKey_cases a with ⟨p, hp, rfl, hpa⟩ | ⟨haout, hka⟩
  · rcases otelKey_cases b with ⟨q, hq, rfl, hqb⟩ | ⟨hbout, hkb⟩
    · exact htargets p hp q hq (by rw [← hpa, ← hqb, h])
    · exact absurd (by rw [← hpa, ← hkb, h]) (labelMap_ne_prefixed hp hb hbout)
  · rcases otelKey_cases b with ⟨q, hq, rfl, hqb⟩ | ⟨hbout, hkb⟩
    · exact absurd (by rw [← hqb, ← hka, h]) (labelMap_ne_prefixed hq ha haout)
    · rwa [hka, hkb, String.append_right_inj] at h

/-- The labels are named as `prometheus` allows, and no name is there twice. -/
structure LabelsOk (labels : List (String × String)) : Prop where
  names : ∀ label ∈ labels, IsLabelName label.1
  nodup : (labels.map Prod.fst).Nodup

/-- Over label names, an attribute comes from one label. -/
theorem mem_of_mem_translateLabels {labels : List (String × String)} {label : String × String}
    (hnames : ∀ l ∈ labels, IsLabelName l.1) (hlabel : IsLabelName label.1)
    (h : (otelKey label.1, label.2) ∈ translateLabels labels) : label ∈ labels := by
  obtain ⟨source, hsource, heq⟩ := List.mem_map.mp h
  rw [Prod.mk.injEq] at heq
  have hname : source.1 = label.1 :=
    otelKey_injective_on_names (hnames source hsource) hlabel heq.1
  have hsame : source = label := Prod.ext hname heq.2
  rwa [← hsame]

theorem toFinset_subset_of_translateLabels {labels labels' : List (String × String)}
    (h : LabelsOk labels) (h' : LabelsOk labels')
    (hsub : (translateLabels labels).toFinset ⊆ (translateLabels labels').toFinset) :
    labels.toFinset ⊆ labels'.toFinset := by
  intro label hlabel
  rw [List.mem_toFinset] at hlabel ⊢
  apply mem_of_mem_translateLabels h'.names (h.names label hlabel)
  have hattribute : (otelKey label.1, label.2) ∈ translateLabels labels :=
    List.mem_map_of_mem hlabel
  exact List.mem_toFinset.mp (hsub (List.mem_toFinset.mpr hattribute))

/-- Different sets of labels have different sets of attributes. -/
theorem toFinset_translateLabels_ne {labels labels' : List (String × String)}
    (h : LabelsOk labels) (h' : LabelsOk labels') (hne : labels.toFinset ≠ labels'.toFinset) :
    (translateLabels labels).toFinset ≠ (translateLabels labels').toFinset := by
  intro heq
  apply hne
  exact (toFinset_subset_of_translateLabels h h' heq.subset).antisymm
    (toFinset_subset_of_translateLabels h' h heq.symm.subset)

/-- The attributes are the labels in the same order, with the same values and with keys that differ
    from each other, so that different sets of labels have different sets of attributes. -/
theorem translateLabels_spec (labels : List (String × String)) (h : LabelsOk labels) :
    ((translateLabels labels).map Prod.fst).Nodup ∧
      (translateLabels labels).map Prod.fst = labels.map (fun label => otelKey label.1) ∧
      (translateLabels labels).map Prod.snd = labels.map Prod.snd ∧
      ∀ labels', LabelsOk labels' → labels.toFinset ≠ labels'.toFinset →
        (translateLabels labels).toFinset ≠ (translateLabels labels').toFinset := by
  have hkeys : (translateLabels labels).map Prod.fst =
      (labels.map Prod.fst).map otelKey := by
    simp [translateLabels]
  refine ⟨?_, by simp [translateLabels], by simp [translateLabels], ?_⟩
  · rw [hkeys]
    apply h.nodup.map_on
    intro a ha b hb heq
    obtain ⟨la, hla, rfl⟩ := List.mem_map.mp ha
    obtain ⟨lb, hlb, rfl⟩ := List.mem_map.mp hb
    exact otelKey_injective_on_names (h.names la hla) (h.names lb hlb) heq
  · intro labels' h' hne
    exact toFinset_translateLabels_ne h h' hne

/-- A name of the table and one that looks like its attribute. -/
theorem translateLabels_spec_kernel :
    ((translateLabels [("kernel_class", "gemm"), ("kernel", "k"), ("device", "0")]).map
      Prod.fst).Nodup := by
  refine (translateLabels_spec _ ⟨?_, by decide⟩).1
  intro label hlabel
  simp only [List.mem_cons, List.not_mem_nil, or_false] at hlabel
  rcases hlabel with rfl | rfl | rfl <;> exact ⟨_, _, rfl, by decide, by decide⟩

/-! ## Histograms -/

/-- The bits of an `f64`. -/
abbrev F64 := BitVec 64

/-- `f64::is_finite`: the exponent is not all ones. -/
def F64.isFinite (x : F64) : Bool := x.extractLsb' 52 11 != 0x7ff

/-- `prometheus::proto::Bucket`. -/
structure HistogramBucket where
  upperBound : F64
  cumulativeCount : U64
  deriving DecidableEq

/-- `prometheus::proto::Histogram`. -/
structure PromHistogram where
  bucket : List HistogramBucket
  sampleCount : U64
  sampleSum : F64

/-- A data point of a histogram. It never has exemplars. -/
structure HistogramDataPoint where
  attributes : List (String × String)
  startTime : ℕ
  time : ℕ
  count : U64
  sum : F64
  bounds : List F64
  bucketCounts : List U64
  min : Option F64
  max : Option F64
  deriving DecidableEq

/-- The loop over the finite buckets, with the last cumulative count, and the push after it. -/
def bucketCountsFrom (sampleCount : U64) : U64 → List HistogramBucket → List U64
  -- the overflow bucket, whether or not there was an explicit infinite one
  | prev, [] => [WordSum.saturatingSub sampleCount prev]
  | prev, b :: finite =>
    WordSum.saturatingSub b.cumulativeCount prev ::
      bucketCountsFrom sampleCount b.cumulativeCount finite

def histogramToOtlp (h : PromHistogram) (attributes : List (String × String))
    (startTime now : ℕ) : HistogramDataPoint :=
  let finite := h.bucket.filter fun b => F64.isFinite b.upperBound
  { attributes
    startTime
    time := now
    count := h.sampleCount
    sum := h.sampleSum
    bounds := finite.map (·.upperBound)
    bucketCounts := bucketCountsFrom h.sampleCount 0 finite
    min := none
    max := none }

/-- A metric whose data is a histogram. -/
structure HistogramMetric where
  name : String
  description : String
  unit : String
  dataPoints : List HistogramDataPoint
  temporality : Temporality

/-- `histogram_family_to_otlp`, on a family of histograms: the label pairs of each series and its
    histogram. -/
def histogramFamilyToOtlp (name help : String)
    (metrics : List (List (String × String) × PromHistogram)) (startTime now : ℕ) :
    Option HistogramMetric :=
  let dataPoints := metrics.map fun m => histogramToOtlp m.2 (translateLabels m.1) startTime now
  if dataPoints.isEmpty then none
  else
    some
      { name
        description := help
        unit := ""
        dataPoints
        temporality := .cumulative }

namespace PromHistogram

/-- The buckets with a finite bound. -/
def finite (h : PromHistogram) : List HistogramBucket :=
  h.bucket.filter fun b => F64.isFinite b.upperBound

/-- The cumulative counts of the finite buckets, and the count of all samples for what is beyond
    them. -/
def cumulativeCounts (h : PromHistogram) : List U64 :=
  h.finite.map (·.cumulativeCount) ++ [h.sampleCount]

/-- The cumulative counts do not fall, and none exceeds the count of the samples. -/
structure Cumulative (h : PromHistogram) : Prop where
  nondecreasing : (h.finite.map (·.cumulativeCount)).Pairwise (· ≤ ·)
  atMost : ∀ b ∈ h.finite, b.cumulativeCount ≤ h.sampleCount

theorem Cumulative.pairwise {h : PromHistogram} (hcum : h.Cumulative) :
    ((0 : U64) :: h.cumulativeCounts).Pairwise (· ≤ ·) := by
  apply List.Pairwise.cons
  · intro x _
    exact BitVec.le_def.mpr (Nat.zero_le _)
  · apply List.pairwise_append.mpr
    refine ⟨hcum.nondecreasing, List.pairwise_singleton _ _, ?_⟩
    intro x hx y hy
    obtain ⟨b, hb, rfl⟩ := List.mem_map.mp hx
    rw [List.mem_singleton.mp hy]
    exact hcum.atMost b hb

end PromHistogram

/-- The loop takes the deltas of the cumulative counts. -/
theorem bucketCountsFrom_eq (sampleCount prev : U64) (finite : List HistogramBucket) :
    bucketCountsFrom sampleCount prev finite =
      WordSum.deltas prev (finite.map (·.cumulativeCount) ++ [sampleCount]) := by
  induction finite generalizing prev with
  | nil => rfl
  | cons b finite ih =>
    rw [bucketCountsFrom, ih]
    rfl

/-- The bounds of a data point are the finite ones. It has one bucket more than bounds; the buckets
    add up to the samples, and up to each of them to the cumulative counts. Buckets whose bound is
    not finite make no difference. -/
theorem histogramToOtlp_spec (h : PromHistogram) (attributes : List (String × String))
    (startTime now : ℕ) (hcum : h.Cumulative) :
    let point := histogramToOtlp h attributes startTime now
    point.bounds = (h.bucket.filter fun b => F64.isFinite b.upperBound).map (·.upperBound) ∧
      point.bucketCounts.length = point.bounds.length + 1 ∧
      WordSum.total point.bucketCounts = h.sampleCount.toNat ∧
      (point.bucketCounts.map BitVec.toNat).scanl (· + ·) 0 =
        0 :: h.cumulativeCounts.map BitVec.toNat ∧
      ∀ h' : PromHistogram, h'.finite = h.finite → h'.sampleCount = h.sampleCount →
        h'.sampleSum = h.sampleSum → histogramToOtlp h' attributes startTime now = point := by
  intro point
  have hcounts : point.bucketCounts = WordSum.deltas 0 h.cumulativeCounts :=
    bucketCountsFrom_eq h.sampleCount 0 h.finite
  have hpairwise := hcum.pairwise
  refine ⟨rfl, ?_, ?_, ?_, ?_⟩
  · rw [hcounts, WordSum.length_deltas, PromHistogram.cumulativeCounts, List.length_append,
      List.length_map]
    simp [point, histogramToOtlp, PromHistogram.finite]
  · have htotal : (0 : U64).toNat + WordSum.total (WordSum.deltas 0 h.cumulativeCounts) =
        h.sampleCount.toNat := WordSum.total_deltas hpairwise
    rw [hcounts]
    simpa using htotal
  · rw [hcounts]
    exact WordSum.scanl_deltas hpairwise
  · intro h' hfinite hcount hsum
    unfold PromHistogram.finite at hfinite
    simp only [histogramToOtlp, hfinite, hcount, hsum, point]

/-- Bounds of one and two, and an explicit infinite bucket. -/
theorem histogramToOtlp_spec_infinite :
    let h : PromHistogram :=
      ⟨[⟨0x3ff0000000000000, 2⟩, ⟨0x4000000000000000, 5⟩, ⟨0x7ff0000000000000, 7⟩], 7, 0⟩
    (histogramToOtlp h [] 0 0).bucketCounts = [2, 3, 2] ∧
      ((histogramToOtlp h [] 0 0).bucketCounts.map BitVec.toNat).scanl (· + ·) 0 =
        0 :: h.cumulativeCounts.map BitVec.toNat := by
  intro h
  have hcum : h.Cumulative := ⟨by decide, by decide⟩
  exact ⟨by decide, (histogramToOtlp_spec h [] 0 0 hcum).2.2.2.1⟩

end Profi
