import Profi.Enricher
import Profi.Lib.Occurrence
import Profi.Lib.Utf8
import Profi.Lib.Fallible

/-!
# Container Ids

A process is connected to its pod by the id of its container, cut to twelve bytes. It is read in two
places: from the cgroup file of the process, where runtimes write it in different ways, and from the
status of the pod, where it follows the name of the runtime.

The first part is about the slices. `extract_container_id` takes them at byte positions, and only
the cut at byte 12 can be out of place: behind a marker or a slash a text can always be cut. When
that cut is in place is said in `containerIds_no_panic_iff`. The second part is about the ids: where
a cgroup file names one container, both sides agree on it (`containerIds_agree`).
-/

namespace Profi

open Text Fallible

/-! ## Slices at Byte Positions -/

/-- `line.find(marker)`, the position of the first occurrence. -/
def findBytes (marker line : List Char) : Option ℕ :=
  (line.tails.find? fun tail => marker.isPrefixOf tail).map fun tail =>
    String.utf8Len line - String.utf8Len tail

/-- `&s[n..]`. -/
def sliceFrom (s : List Char) (n : ℕ) : Except Panic (List Char) :=
  match Utf8.splitAt s n with
  | some (_, rest) => .ok rest
  | none => .error .slice

/-- One of the first two patterns, with every slice as it is written. -/
def runtimeIdBytes (marker line : List Char) : Except Panic (Option String) :=
  match findBytes marker line with
  | none => return none
  | some idx => do
    let rest ← sliceFrom line (idx + String.utf8Len marker)
    let id := rest.takeWhile (· ≠ '.')
    if String.utf8Len id ≥ 12 then do
      let short ← sliceTo id 12
      return some (String.ofList short)
    else return none

/-- The third pattern. -/
def segmentIdBytes (line : List Char) : Except Panic (Option String) :=
  match Utf8.rfind (· = '/') line with
  | none => return none
  | some lastSlash => do
    let segment ← sliceFrom line (lastSlash + 1)
    let id := segment.takeWhile (· ≠ '.')
    if String.utf8Len id ≥ 64 ∧ id.all isAsciiHexdigit = true then do
      let short ← sliceTo id 12
      return some (String.ofList short)
    else return none

def lineContainerIdBytes (line : List Char) : Except Panic (Option String) := do
  match ← runtimeIdBytes "cri-containerd-".toList line with
  | some id => return some id
  | none =>
    match ← runtimeIdBytes "crio-".toList line with
    | some id => return some id
    | none => segmentIdBytes line

/-- `extract_container_id`, with every slice as it is written. -/
def extractContainerIdBytes (cgroup : String) : Except Panic (Option String) :=
  (textLines cgroup.toList).findSomeM? lineContainerIdBytes

/-! ### Slices That Cannot Fail -/

theorem sliceFrom_append (p t : List Char) : sliceFrom (p ++ t) (String.utf8Len p) = .ok t := by
  unfold sliceFrom
  rw [Utf8.splitAt_append]

variable (marker line : List Char) {id : List Char}

/-- The search by bytes is the one by characters. -/
theorem runtimeIdBytes_eq : runtimeIdBytes marker line = runtimeId marker line := by
  unfold runtimeIdBytes runtimeId findBytes afterFirst
  cases hfind : line.tails.find? fun tail => marker.isPrefixOf tail with
  | none => rfl
  | some tail =>
    obtain ⟨rest, rfl⟩ := List.isPrefixOf_iff_prefix.mp (List.find?_some hfind)
    obtain ⟨p, rfl⟩ := (List.mem_tails _ _).mp (List.mem_of_find?_eq_some hfind)
    have hidx : String.utf8Len (p ++ (marker ++ rest)) - String.utf8Len (marker ++ rest) +
        String.utf8Len marker = String.utf8Len (p ++ marker) := by
      rw [String.utf8Len_append, String.utf8Len_append p marker]
      omega
    simp only [Option.map_some, hidx]
    rw [← List.append_assoc, sliceFrom_append, List.drop_left]
    rfl

theorem lastSegment_append (q t : List Char) (ht : '/' ∉ t) :
    ((q ++ '/' :: t).reverse.takeWhile (· ≠ '/')).reverse = t := by
  rw [List.reverse_append, List.reverse_cons, List.append_assoc, List.takeWhile_append_of_pos]
  · simp
  · intro c hc
    have hne : c ≠ '/' := fun h => ht (h ▸ List.mem_reverse.mp hc)
    simp [hne]

/-- So is the split at the last slash. -/
theorem segmentIdBytes_eq (line : List Char) : segmentIdBytes line = segmentId line := by
  unfold segmentIdBytes segmentId
  cases hfind : Utf8.rfind (· = '/') line with
  | none =>
    have hno : '/' ∉ line := fun h => by simpa using Utf8.rfind_eq_none_iff.mp hfind _ h
    rw [if_neg hno]
  | some n =>
    obtain ⟨q, c, t, rfl, rfl, hc, ht⟩ := Utf8.rfind_eq_some_iff.mp hfind
    obtain rfl : c = '/' := of_decide_eq_true hc
    have hslash : '/' ∉ t := fun h => by simpa using ht _ h
    have hlen : String.utf8Len q + 1 = String.utf8Len (q ++ ['/']) := by
      rw [String.utf8Len_append]
      rfl
    have hcut : sliceFrom (q ++ '/' :: t) (String.utf8Len q + 1) = .ok t := by
      rw [hlen, List.append_cons]
      exact sliceFrom_append _ _
    rw [if_pos (List.mem_append_right _ List.mem_cons_self)]
    simp only [hcut, lastSegment_append q t hslash]
    rfl

theorem extractContainerIdBytes_eq (cgroup : String) :
    extractContainerIdBytes cgroup = extractContainerId cgroup := by
  have hline : lineContainerIdBytes = lineContainerId := by
    funext line
    unfold lineContainerIdBytes
    simp only [runtimeIdBytes_eq, segmentIdBytes_eq]
    rfl
  unfold extractContainerIdBytes extractContainerId
  rw [hline]

/-! ### The Cut at Byte 12 -/

theorem returns_sliceTo_iff (s : List Char) (n : ℕ) :
    Returns (sliceTo s n) ↔ Utf8.isCharBoundary s n = true := by
  unfold Returns Utf8.isCharBoundary
  rw [sliceTo_eq]
  cases Utf8.splitAt s n with
  | none => simp
  | some parts => simp

/-- If the id is long enough to be cut, byte 12 begins a character or ends the id. -/
def CutsWhole (id : List Char) : Prop :=
  12 ≤ String.utf8Len id → Utf8.isCharBoundary id 12 = true

/-- What stands between a marker and the next dot. -/
def markedId (marker line : List Char) : Option (List Char) :=
  (afterFirst marker line).map fun rest => rest.takeWhile (· ≠ '.')

/-- The first 12 bytes of an id that has as many. -/
def shortId (id : List Char) : Except Panic (Option String) :=
  if 12 ≤ String.utf8Len id then (sliceTo id 12).map fun short => some (String.ofList short)
  else .ok none

theorem returns_shortId_iff (id : List Char) : Returns (shortId id) ↔ CutsWhole id := by
  unfold shortId CutsWhole
  rw [← returns_sliceTo_iff]
  split
  next hlong =>
    cases sliceTo id 12 with
    | error e => simp [Returns, hlong, Except.map]
    | ok short => simp [Returns, Except.map]
  next hshort => simp [Returns, hshort]

theorem shortId_eq_none_iff (id : List Char) : shortId id = .ok none ↔ String.utf8Len id < 12 := by
  unfold shortId
  split
  next hlong =>
    refine iff_of_false ?_ (by omega)
    cases sliceTo id 12 with
    | error e => simp [Except.map]
    | ok short => simp [Except.map]
  next hshort => exact iff_of_true rfl (by omega)

theorem runtimeId_eq :
    runtimeId marker line =
      match markedId marker line with
      | none => .ok none
      | some id => shortId id := by
  unfold runtimeId markedId
  cases afterFirst marker line with
  | none => rfl
  | some rest => rfl

theorem shortContainerId_eq (fullId : String) :
    shortContainerId fullId = shortId (afterProtocol fullId.toList) := rfl

theorem returns_runtimeId_iff :
    Returns (runtimeId marker line) ↔ ∀ id, markedId marker line = some id → CutsWhole id := by
  rw [runtimeId_eq]
  cases markedId marker line with
  | none => simp [Returns]
  | some id =>
    simp only [Option.some.injEq, forall_eq']
    exact returns_shortId_iff id

theorem runtimeId_eq_none_iff :
    runtimeId marker line = .ok none ↔
      ∀ id, markedId marker line = some id → String.utf8Len id < 12 := by
  rw [runtimeId_eq]
  cases markedId marker line with
  | none => simp
  | some id =>
    simp only [Option.some.injEq, forall_eq']
    exact shortId_eq_none_iff id

/-- Hexadecimal digits are single bytes. -/
theorem isAsciiHexdigit_ascii {c : Char} (h : isAsciiHexdigit c = true) : c.val.toNat ≤ 127 := by
  unfold isAsciiHexdigit at h
  simp only [Bool.or_eq_true, Bool.and_eq_true, decide_eq_true_eq] at h
  rcases h with (⟨-, h⟩ | ⟨-, h⟩) | ⟨-, h⟩
  · exact (Char.le_def.mp h).trans (by decide : '9'.val.toNat ≤ 127)
  · exact (Char.le_def.mp h).trans (by decide : 'f'.val.toNat ≤ 127)
  · exact (Char.le_def.mp h).trans (by decide : 'F'.val.toNat ≤ 127)

theorem singleBytes_hex (h : id.all isAsciiHexdigit = true) : ∀ c ∈ id, c.utf8Size = 1 :=
  fun c hc => Utf8.utf8Size_ascii (isAsciiHexdigit_ascii (List.all_eq_true.mp h c hc))

theorem utf8Len_hex (h : id.all isAsciiHexdigit = true) : String.utf8Len id = id.length :=
  Utf8.utf8Len_eq_length (singleBytes_hex h)

/-- An id of hexadecimal digits is cut behind the twelfth. -/
theorem sliceTo_hex (h : id.all isAsciiHexdigit = true) (hlong : 12 ≤ id.length) :
    sliceTo id 12 = .ok (id.take 12) := by
  rw [sliceTo_eq, Utf8.splitAt_eq_take (singleBytes_hex h) hlong]

theorem returns_segmentId (line : List Char) : Returns (segmentId line) := by
  unfold segmentId
  split
  · simp only
    split
    next hid =>
      rw [utf8Len_hex hid.2] at hid
      rw [sliceTo_hex hid.2 (by omega)]
      exact ⟨_, rfl⟩
    · exact ⟨none, rfl⟩
  · exact ⟨none, rfl⟩

/-- The ids of a line that are cut can be cut: the one behind the first marker, and the one behind
    the second if the first is missing or too short. -/
def LineCutsWhole (line : List Char) : Prop :=
  (∀ id, markedId "cri-containerd-".toList line = some id → CutsWhole id) ∧
  ((∀ id, markedId "cri-containerd-".toList line = some id → String.utf8Len id < 12) →
    ∀ id, markedId "crio-".toList line = some id → CutsWhole id)

theorem returns_lineContainerId_iff (line : List Char) :
    Returns (lineContainerId line) ↔ LineCutsWhole line := by
  unfold LineCutsWhole lineContainerId
  rw [← returns_runtimeId_iff, ← runtimeId_eq_none_iff, ← returns_runtimeId_iff]
  cases runtimeId "cri-containerd-".toList line with
  | error e => simp [Returns, bind, Except.bind]
  | ok first =>
    cases first with
    | some id => simp [Returns, bind, Except.bind, pure, Except.pure]
    | none =>
      -- only now the second marker is looked for
      cases runtimeId "crio-".toList line with
      | error e => simp [Returns, bind, Except.bind]
      | ok second =>
        cases second with
        | some id => simp [Returns, bind, Except.bind, pure, Except.pure]
        | none =>
          -- the last pattern cuts nothing but hexadecimal digits
          refine iff_of_true (returns_segmentId line) ?_
          simp [Returns]

/-- Every line that is reached can be cut: those up to the first that names a container. -/
def TextCutsWhole (cgroup : String) : Prop :=
  ∀ k line, (textLines cgroup.toList)[k]? = some line →
    (∀ earlier ∈ (textLines cgroup.toList).take k, lineContainerId earlier = .ok none) →
      LineCutsWhole line

/-- Neither side panics exactly if the ids it comes to can be cut at byte 12. -/
theorem containerIds_no_panic_iff (cgroup fullId : String) :
    (Returns (extractContainerIdBytes cgroup) ∧ Returns (shortContainerId fullId)) ↔
      (TextCutsWhole cgroup ∧ CutsWhole (afterProtocol fullId.toList)) := by
  rw [extractContainerIdBytes_eq, shortContainerId_eq, returns_shortId_iff]
  unfold extractContainerId TextCutsWhole
  rw [returns_findSomeM?_iff]
  simp only [returns_lineContainerId_iff]

/-- A name whose twelfth byte is the first of an accented letter. -/
theorem extractContainerId_panics :
    extractContainerIdBytes "0::/kubepods/crio-aaaaaaaaaaaé.scope" = .error .slice := by
  decide +kernel

/-! ## Both Sides Agree -/

/-- The id of a container: 64 hexadecimal digits. -/
structure HexId where
  chars : List Char
  length_eq : chars.length = 64
  hex : chars.all isAsciiHexdigit = true

namespace HexId

variable (h : HexId)

/-- The key under which the id is known. -/
def short : String := String.ofList (h.chars.take 12)

theorem not_mem {c : Char} (hc : isAsciiHexdigit c = false) : c ∉ h.chars := by
  intro hmem
  rw [List.all_eq_true.mp h.hex c hmem] at hc
  cases hc

theorem sliceTo_chars : sliceTo h.chars 12 = .ok (h.chars.take 12) :=
  sliceTo_hex h.hex (by rw [h.length_eq]; decide)

theorem utf8Len_chars : String.utf8Len h.chars = 64 := by rw [utf8Len_hex h.hex, h.length_eq]

/-- Up to the next dot, if there is one, it is the id. -/
theorem takeWhile_chars {rest : List Char} (hrest : rest = [] ∨ ∃ suffix, rest = '.' :: suffix) :
    (h.chars ++ rest).takeWhile (· ≠ '.') = h.chars := by
  have hdot : ∀ c ∈ h.chars, decide (c ≠ '.') = true := by
    intro c hc
    have hne : c ≠ '.' := fun heq => h.not_mem (by decide) (heq ▸ hc)
    exact decide_eq_true hne
  rw [List.takeWhile_append_of_pos hdot]
  rcases hrest with rfl | ⟨suffix, rfl⟩
  · simp
  · rw [List.takeWhile_cons_of_neg (by simp), List.append_nil]

end HexId

/-- A text in which no marker of a runtime occurs. -/
def Unmarked (text : List Char) : Prop :=
  ¬ "cri-containerd-".toList <:+: text ∧ ¬ "crio-".toList <:+: text

/-- The ways in which a line names a container. -/
inductive NamesContainer (h : HexId) : List Char → Prop where
  | containerd (pre suffix : List Char) (hpre : Unmarked pre) (hsuffix : Unmarked suffix)
      (hslash : '/' ∉ suffix) :
      NamesContainer h (pre ++ ("cri-containerd-".toList ++ (h.chars ++ '.' :: suffix)))
  | crio (pre suffix : List Char) (hpre : Unmarked pre) (hsuffix : Unmarked suffix)
      (hslash : '/' ∉ suffix) :
      NamesContainer h (pre ++ ("crio-".toList ++ (h.chars ++ '.' :: suffix)))
  | path (pre : List Char) (hpre : Unmarked pre) : NamesContainer h (pre ++ '/' :: h.chars)
  | pathDot (pre suffix : List Char) (hpre : Unmarked pre) (hsuffix : Unmarked suffix)
      (hslash : '/' ∉ suffix) : NamesContainer h (pre ++ '/' :: (h.chars ++ '.' :: suffix))

/-- The last segment of a path. -/
def lastSegment (line : List Char) : Option (List Char) :=
  if '/' ∈ line then some (line.reverse.takeWhile (· ≠ '/')).reverse else none

/-- 64 or more hexadecimal digits. -/
def LooksLikeId (id : List Char) : Prop := 64 ≤ id.length ∧ id.all isAsciiHexdigit = true

/-- A line that names no container: it has no marker, and its last segment does not look like an id,
    also not up to its first dot. -/
def NamesNone (line : List Char) : Prop :=
  Unmarked line ∧ ∀ segment, lastSegment line = some segment →
    ¬ LooksLikeId (segment.takeWhile (· ≠ '.'))

/-! ### One Line -/

theorem runtimeId_of_not_in {marker line : List Char} (h : ¬ marker <:+: line) :
    runtimeId marker line = .ok none := by
  unfold runtimeId afterFirst
  rw [Occurrence.find?_tails_eq_none h]
  rfl

/-- The id behind the first occurrence of a marker. -/
theorem runtimeId_marked {marker pre : List Char} (hm : Occurrence.Unbordered marker)
    (hpre : ¬ marker <:+: pre) (h : HexId) (suffix : List Char) :
    runtimeId marker (pre ++ (marker ++ (h.chars ++ '.' :: suffix))) = .ok (some h.short) := by
  unfold runtimeId afterFirst
  rw [Occurrence.find?_tails_append hm hpre]
  simp only [Option.map_some, List.drop_left, h.takeWhile_chars (.inr ⟨suffix, rfl⟩),
    h.utf8Len_chars, h.sliceTo_chars]
  rfl

/-- Digits between separators hide no marker. -/
theorem not_infix_hex {marker : List Char} {c : Char} (hc : c ∈ marker)
    (hhex : isAsciiHexdigit c = false) (h : HexId) : ¬ marker <:+: h.chars :=
  fun hin => h.not_mem hhex (hin.subset hc)

/-- Where the first marker ends behind the join with the second, it would have to end with a part of
    it; but no end of the first marker is short enough and begins like the second. -/
theorem containerd_drop : ∀ k < 16, "cri-containerd-".toList.drop k = [] ∨
    'n' ∈ "cri-containerd-".toList.drop k ∨ ("cri-containerd-".toList.drop k).head? ≠ some 'c' := by
  decide

/-- The first marker does not occur in a line with the second. -/
theorem not_containerd_in_crio {pre suffix : List Char} (hpre : Unmarked pre)
    (hsuffix : Unmarked suffix) (h : HexId) :
    ¬ "cri-containerd-".toList <:+: pre ++ ("crio-".toList ++ (h.chars ++ '.' :: suffix)) := by
  intro hin
  have hn : 'n' ∉ "crio-".toList ++ h.chars := by
    intro hmem
    rcases List.mem_append.mp hmem with hmem | hmem
    · exact absurd hmem (by decide)
    · exact h.not_mem (by decide) hmem
  rw [show pre ++ ("crio-".toList ++ (h.chars ++ '.' :: suffix)) =
    (pre ++ ("crio-".toList ++ h.chars)) ++ '.' :: suffix by simp] at hin
  rcases Occurrence.infix_of_separator (by decide) hin with hin | hin
  -- before the dot, it is in `pre`, in what follows it, or across the join as `p ++ q`
  · rcases List.infix_append_iff.mp hin with hin | hin | ⟨p, q, heq, hp, hq⟩
    · exact hpre.1 hin
    · exact hn (hin.subset (by decide))
    · have hdrop : q = "cri-containerd-".toList.drop p.length := by rw [heq, List.drop_left]
      have hlen : p.length < 16 := by
        have hle := congrArg List.length heq
        rw [List.length_append] at hle
        have hmarker : "cri-containerd-".toList.length = 15 := by decide
        omega
      rcases containerd_drop p.length hlen with hnil | hmem | hhead
      · rw [← hdrop] at hnil
        rw [hnil, List.append_nil] at heq
        exact hpre.1 (heq ▸ hp.isInfix)
      · exact hn (hq.subset (hdrop ▸ hmem))
      · rw [← hdrop] at hhead
        cases q with
        | nil =>
          rw [List.append_nil] at heq
          exact hpre.1 (heq ▸ hp.isInfix)
        | cons c q =>
          obtain ⟨rfl, -⟩ := List.cons_prefix_cons.mp hq
          exact hhead rfl
  · exact hsuffix.1 hin

/-- A segment of digits does not complete a marker. -/
theorem not_infix_path {marker pre : List Char} (hslash : '/' ∉ marker) (hr : 'r' ∈ marker)
    (hpre : ¬ marker <:+: pre) (h : HexId) : ¬ marker <:+: pre ++ '/' :: h.chars := by
  intro hin
  rcases Occurrence.infix_of_separator hslash hin with hin | hin
  · exact hpre hin
  · exact not_infix_hex hr (by decide) h hin

theorem unmarked_path {pre : List Char} (hpre : Unmarked pre) (h : HexId) :
    Unmarked (pre ++ '/' :: h.chars) :=
  ⟨not_infix_path (by decide) (by decide) hpre.1 h, not_infix_path (by decide) (by decide) hpre.2 h⟩

theorem unmarked_pathDot {pre suffix : List Char} (hpre : Unmarked pre) (hsuffix : Unmarked suffix)
    (h : HexId) : Unmarked (pre ++ '/' :: (h.chars ++ '.' :: suffix)) := by
  have hpath := unmarked_path hpre h
  rw [show pre ++ '/' :: (h.chars ++ '.' :: suffix) = (pre ++ '/' :: h.chars) ++ '.' :: suffix
    by simp]
  constructor
  · intro hin
    exact (Occurrence.infix_of_separator (by decide) hin).elim hpath.1 hsuffix.1
  · intro hin
    exact (Occurrence.infix_of_separator (by decide) hin).elim hpath.2 hsuffix.2

theorem lineContainerId_unmarked {line : List Char} (h : Unmarked line) :
    lineContainerId line = segmentId line := by
  unfold lineContainerId
  rw [runtimeId_of_not_in h.1, runtimeId_of_not_in h.2]
  rfl

/-- The last segment of a path that is an id, perhaps with more behind a dot. -/
theorem segmentId_path (pre : List Char) (h : HexId) {rest : List Char}
    (hrest : rest = [] ∨ ∃ suffix, rest = '.' :: suffix) (hslash : '/' ∉ rest) :
    segmentId (pre ++ '/' :: (h.chars ++ rest)) = .ok (some h.short) := by
  have hsegment : '/' ∉ h.chars ++ rest := by
    intro hmem
    rcases List.mem_append.mp hmem with hmem | hmem
    · exact h.not_mem (by decide) hmem
    · exact hslash hmem
  unfold segmentId
  rw [if_pos (List.mem_append_right _ List.mem_cons_self)]
  simp only [lastSegment_append pre _ hsegment, h.takeWhile_chars hrest, h.utf8Len_chars, h.hex,
    h.sliceTo_chars]
  rfl

/-- Each line that names the container yields its key. -/
theorem lineContainerId_names {h : HexId} {line : List Char} (hline : NamesContainer h line) :
    lineContainerId line = .ok (some h.short) := by
  cases hline with
  | containerd pre suffix hpre _ _ =>
    unfold lineContainerId
    rw [runtimeId_marked (by decide) hpre.1]
    rfl
  | crio pre suffix hpre hsuffix _ =>
    unfold lineContainerId
    rw [runtimeId_of_not_in (not_containerd_in_crio hpre hsuffix h),
      runtimeId_marked (by decide) hpre.2]
    rfl
  | path pre hpre =>
    rw [lineContainerId_unmarked (unmarked_path hpre h)]
    have hpath := segmentId_path pre h (.inl rfl) List.not_mem_nil
    rwa [List.append_nil] at hpath
  | pathDot pre suffix hpre hsuffix hslash =>
    rw [lineContainerId_unmarked (unmarked_pathDot hpre hsuffix h)]
    exact segmentId_path pre h (.inr ⟨suffix, rfl⟩) (by simpa using hslash)

theorem lineContainerId_none {line : List Char} (h : NamesNone line) :
    lineContainerId line = .ok none := by
  obtain ⟨hunmarked, hsegment⟩ := h
  rw [lineContainerId_unmarked hunmarked]
  unfold segmentId
  split
  next hslash =>
    simp only
    split
    next hid =>
      rw [utf8Len_hex hid.2] at hid
      exact absurd hid (hsegment _ (if_pos hslash))
    · rfl
  · rfl

/-! ### The Whole File -/

/-- What follows the last separator is what follows this one, if there is none behind it. -/
theorem afterProtocol_append (s : List Char) (hcolon : ':' ∉ id) :
    afterProtocol (s ++ ("://".toList ++ id)) = id := by
  have hlast : ((s ++ ("://".toList ++ id)).tails.filter
      fun tail => "://".toList.isPrefixOf tail).getLast? = some ("://".toList ++ id) := by
    induction s with
    | nil =>
      have hbehind : ('/' :: '/' :: id).tails.filter
          (fun tail => "://".toList.isPrefixOf tail) = [] := by
        apply List.filter_eq_nil_iff.mpr
        intro tail htail hsep
        have hmem : ':' ∈ '/' :: '/' :: id :=
          ((List.mem_tails _ _).mp htail).subset
            ((List.isPrefixOf_iff_prefix.mp hsep).subset List.mem_cons_self)
        simp [hcolon] at hmem
      have htails : ("://".toList ++ id).tails =
          ("://".toList ++ id) :: ('/' :: '/' :: id).tails := rfl
      rw [List.nil_append, htails, List.filter_cons_of_pos (by simp), hbehind]
      rfl
    | cons c s ih =>
      -- a separator that begins in `s` is not the last one
      rw [List.cons_append, List.tails_cons, List.filter_cons]
      split
      · rw [List.getLast?_cons, ih]
        rfl
      · exact ih
  unfold afterProtocol
  rw [hlast]
  rfl

theorem shortContainerId_protocol (s : String) (h : HexId) :
    shortContainerId (s ++ "://" ++ String.ofList h.chars) = .ok (some h.short) := by
  have hraw : afterProtocol (s ++ "://" ++ String.ofList h.chars).toList = h.chars := by
    have htext : (s ++ "://" ++ String.ofList h.chars).toList =
        s.toList ++ ("://".toList ++ h.chars) := by simp
    rw [htext]
    exact afterProtocol_append s.toList (h.not_mem (by decide))
  unfold shortContainerId
  simp only [hraw, h.utf8Len_chars, h.sliceTo_chars]
  rfl

/-- A process whose cgroup file names one container, and the pod status that names the same, come to
    the same key. -/
theorem containerIds_agree (h : HexId) (s cgroup : String)
    (hlines : ∀ line ∈ textLines cgroup.toList, NamesContainer h line ∨ NamesNone line)
    (hnamed : ∃ line ∈ textLines cgroup.toList, NamesContainer h line) :
    extractContainerId cgroup = .ok (some h.short) ∧
      shortContainerId (s ++ "://" ++ String.ofList h.chars) = .ok (some h.short) := by
  refine ⟨?_, shortContainerId_protocol s h⟩
  apply findSomeM?_of_forall
  · intro line hline
    rcases hlines line hline with hnames | hnone
    · exact .inr (lineContainerId_names hnames)
    · exact .inl (lineContainerId_none hnone)
  · obtain ⟨line, hline, hnames⟩ := hnamed
    exact ⟨line, hline, lineContainerId_names hnames⟩

/-! ### Two Files -/

/-- The id of the digit `c`, 64 times. -/
def repeatedId (c : Char) (hc : isAsciiHexdigit c = true) : HexId where
  chars := List.replicate 64 c
  length_eq := List.length_replicate
  hex := by
    apply List.all_eq_true.mpr
    intro d hd
    rw [List.eq_of_mem_replicate hd]
    exact hc

/-- The line of a container in a pod. -/
def podLine (h : HexId) : List Char := "1:cpu:/kubepods".toList ++ '/' :: h.chars

theorem podLine_names (h : HexId) : NamesContainer h (podLine h) :=
  .path _ ⟨by decide +kernel, by decide +kernel⟩

/-- A process in a pod, with a line of the unified hierarchy. -/
theorem containerIds_agree_pod :
    extractContainerId (String.ofList ("0::/init.scope\n".toList ++
        podLine (repeatedId 'a' (by decide)))) = .ok (some "aaaaaaaaaaaa") ∧
      shortContainerId ("containerd" ++ "://" ++ String.ofList (List.replicate 64 'a')) =
        .ok (some "aaaaaaaaaaaa") := by
  have hlines : textLines (String.ofList ("0::/init.scope\n".toList ++
      podLine (repeatedId 'a' (by decide)))).toList =
      ["0::/init.scope".toList, podLine (repeatedId 'a' (by decide))] := by decide +kernel
  have hnone : NamesNone "0::/init.scope".toList := by
    refine ⟨⟨by decide +kernel, by decide +kernel⟩, ?_⟩
    intro segment hsegment
    obtain rfl : "init.scope".toList = segment := Option.some.inj hsegment
    exact fun h => absurd h.1 (by decide)
  refine containerIds_agree (repeatedId 'a' (by decide)) "containerd" _ ?_ ?_
  · rw [hlines]
    simp only [List.mem_cons, List.not_mem_nil, or_false, forall_eq_or_imp, forall_eq]
    exact ⟨.inr hnone, .inl (podLine_names _)⟩
  · rw [hlines]
    exact ⟨_, List.mem_cons_of_mem _ List.mem_cons_self, podLine_names _⟩

/-- The line of a service whose name has the form of an id. -/
def serviceLine (h : HexId) : List Char := "0::/".toList ++ (h.chars ++ ".service".toList)

/-- The last segment of a service's line is not all digits, and yet the service is taken for the
    container. -/
theorem extractContainerId_service :
    let h := repeatedId 'a' (by decide)
    let cgroup := String.ofList (serviceLine (repeatedId 'f' (by decide)) ++ '\n' :: podLine h)
    (∀ line ∈ textLines cgroup.toList, NamesContainer h line ∨
      (Unmarked line ∧ ∀ segment, lastSegment line = some segment → ¬ LooksLikeId segment)) ∧
    (∃ line ∈ textLines cgroup.toList, NamesContainer h line) ∧
    extractContainerId cgroup = .ok (some "ffffffffffff") ∧ h.short = "aaaaaaaaaaaa" := by
  have hlines : textLines (String.ofList (serviceLine (repeatedId 'f' (by decide)) ++
      '\n' :: podLine (repeatedId 'a' (by decide)))).toList =
      [serviceLine (repeatedId 'f' (by decide)), podLine (repeatedId 'a' (by decide))] := by
    decide +kernel
  have hservice : Unmarked (serviceLine (repeatedId 'f' (by decide))) ∧
      ∀ segment, lastSegment (serviceLine (repeatedId 'f' (by decide))) = some segment →
        ¬ LooksLikeId segment := by
    refine ⟨⟨by decide +kernel, by decide +kernel⟩, ?_⟩
    intro segment hsegment
    -- the segment ends in `.service`
    have heq : lastSegment (serviceLine (repeatedId 'f' (by decide))) =
        some (List.replicate 64 'f' ++ ".service".toList) := by decide +kernel
    rw [heq] at hsegment
    cases hsegment
    exact fun h => absurd h.2 (by decide +kernel)
  refine ⟨?_, ?_, by decide +kernel, by decide +kernel⟩
  · rw [hlines]
    simp only [List.mem_cons, List.not_mem_nil, or_false, forall_eq_or_imp, forall_eq]
    exact ⟨.inr hservice, .inl (podLine_names _)⟩
  · rw [hlines]
    exact ⟨_, List.mem_cons_of_mem _ List.mem_cons_self, podLine_names _⟩

end Profi
