import Mathlib

/-!
# C Struct Layout

How a C compiler places the members of a struct: in order, each at the next multiple of its
alignment, the whole rounded up to the largest alignment. Members are words of a power of two bytes
or arrays of such words, so a member is aligned to the width of its words; words are stored with the
least significant byte first.

- `write`: the bytes of a struct, for any contents of the padding
- `readFrom`: the words found at the members' offsets
- `readFrom_write`: what was written is read back, whatever the padding holds
- `write_eq_of_packed`: a struct without padding has one representation

`Layout` ties a type of records to a struct: how a record is cut into words, and how it is put
together again.
-/

namespace CLayout

abbrev Byte := BitVec 8

/-! ## Byte order -/

/-- The `count` low bytes of a number, the least significant first. -/
def leBytes : ℕ → ℕ → List Byte
  | 0, _ => []
  | count + 1, x => BitVec.ofNat 8 x :: leBytes count (x / 256)

def ofLeBytes : List Byte → ℕ
  | [] => 0
  | b :: bs => b.toNat + 256 * ofLeBytes bs

@[simp] theorem length_leBytes (count x : ℕ) : (leBytes count x).length = count := by
  induction count generalizing x with
  | zero => rfl
  | succ count ih => simp [leBytes, ih]

theorem ofLeBytes_leBytes {count x : ℕ} (h : x < 256 ^ count) :
    ofLeBytes (leBytes count x) = x := by
  induction count generalizing x with
  | zero =>
    have hx : x = 0 := by simpa using h
    rw [hx]
    rfl
  | succ count ih =>
    have hrest : x / 256 < 256 ^ count := by
      apply Nat.div_lt_of_lt_mul
      rwa [Nat.pow_succ, Nat.mul_comm] at h
    have hlow : (BitVec.ofNat 8 x).toNat = x % 256 := BitVec.toNat_ofNat x 8
    rw [leBytes, ofLeBytes, ih hrest, hlow]
    omega

/-! ## Members -/

/-- A member of a struct: `count` words of `width` bytes, one word for a plain member. -/
structure Member where
  name : String
  width : ℕ
  count : ℕ := 1
  deriving DecidableEq, Repr

namespace Member

def size (m : Member) : ℕ := m.width * m.count

/-- The words a member can hold. -/
def Fits (m : Member) (words : List ℕ) : Prop :=
  words.length = m.count ∧ ∀ x ∈ words, x < 256 ^ m.width

/-- The bytes of a member. -/
def bytes (m : Member) (words : List ℕ) : List Byte := words.flatMap (leBytes m.width)

/-- `count` words of `width` bytes each. -/
def readWords (width : ℕ) : ℕ → List Byte → List ℕ
  | 0, _ => []
  | count + 1, bytes => ofLeBytes (bytes.take width) :: readWords width count (bytes.drop width)

theorem length_bytes {m : Member} {words : List ℕ} (h : m.Fits words) :
    (m.bytes words).length = m.size := by
  have hsum : ∀ words : List ℕ, (m.bytes words).length = m.width * words.length := by
    intro words
    induction words with
    | nil => rfl
    | cons x words ih =>
      have hcons : m.bytes (x :: words) = leBytes m.width x ++ m.bytes words := rfl
      rw [hcons, List.length_append, length_leBytes, ih, List.length_cons]
      ring
  rw [hsum, h.1]
  rfl

theorem readWords_bytes {m : Member} {words : List ℕ} (h : m.Fits words) (rest : List Byte) :
    readWords m.width m.count (m.bytes words ++ rest) = words := by
  obtain ⟨hlength, hfits⟩ := h
  rw [← hlength]
  clear hlength
  induction words with
  | nil => rfl
  | cons x words ih =>
    have hcons : m.bytes (x :: words) ++ rest = leBytes m.width x ++ (m.bytes words ++ rest) := by
      simp [bytes]
    have hx : x < 256 ^ m.width := hfits x List.mem_cons_self
    have ih := ih fun y hy => hfits y (List.mem_cons_of_mem x hy)
    rw [hcons, List.length_cons, readWords, List.take_left' (length_leBytes _ _),
      List.drop_left' (length_leBytes _ _), ofLeBytes_leBytes hx, ih]

/-! Members of the fixed-width types, and that they hold what they are made for. -/

def u32 (name : String) : Member := ⟨name, 4, 1⟩

def u64 (name : String) : Member := ⟨name, 8, 1⟩

/-- An array of bytes. -/
def u8s (name : String) (count : ℕ) : Member := ⟨name, 1, count⟩

def u32s (name : String) (count : ℕ) : Member := ⟨name, 4, count⟩

variable (name : String)

theorem fits_u32_of_lt {x : ℕ} (h : x < 2 ^ 32) : (u32 name).Fits [x] :=
  ⟨rfl, by simpa [u32] using h⟩

theorem fits_u64_of_lt {x : ℕ} (h : x < 2 ^ 64) : (u64 name).Fits [x] :=
  ⟨rfl, by simpa [u64] using h⟩

theorem fits_u32 (x : BitVec 32) : (u32 name).Fits [x.toNat] :=
  fits_u32_of_lt name x.isLt

theorem fits_u64 (x : BitVec 64) : (u64 name).Fits [x.toNat] :=
  fits_u64_of_lt name x.isLt

theorem fits_u8s {count : ℕ} {bytes : List Byte} (h : bytes.length = count) :
    (u8s name count).Fits (bytes.map BitVec.toNat) := by
  refine ⟨by rw [List.length_map, h]; rfl, fun x hx => ?_⟩
  obtain ⟨b, -, rfl⟩ := List.mem_map.mp hx
  exact b.isLt

theorem fits_u32s {count : ℕ} (xs : Fin count → BitVec 32) :
    (u32s name count).Fits (List.ofFn fun i => (xs i).toNat) := by
  refine ⟨List.length_ofFn, fun x hx => ?_⟩
  obtain ⟨i, rfl⟩ := List.mem_ofFn.mp hx
  exact (xs i).isLt

end Member

/-! ## Offsets -/

/-- The next multiple of an alignment. -/
def roundUp (n alignment : ℕ) : ℕ := (n + (alignment - 1)) / alignment * alignment

/-- Where members laid out from position `start` on begin. -/
def offsetsFrom : ℕ → List Member → List ℕ
  | _, [] => []
  | start, m :: ms => roundUp start m.width :: offsetsFrom (roundUp start m.width + m.size) ms

/-- Where the last of them ends. -/
def endFrom : ℕ → List Member → ℕ
  | start, [] => start
  | start, m :: ms => endFrom (roundUp start m.width + m.size) ms

def offsets (ms : List Member) : List ℕ := offsetsFrom 0 ms

def alignment (ms : List Member) : ℕ := (ms.map Member.width).foldr max 1

def size (ms : List Member) : ℕ := roundUp (endFrom 0 ms) (alignment ms)

/-- No member is moved by its alignment. -/
def PackedFrom : ℕ → List Member → Prop
  | _, [] => True
  | start, m :: ms => roundUp start m.width = start ∧ PackedFrom (start + m.size) ms

instance PackedFrom.decidable : ∀ (start : ℕ) (ms : List Member), Decidable (PackedFrom start ms)
  | _, [] => inferInstanceAs (Decidable True)
  | start, m :: ms =>
    have : Decidable (PackedFrom (start + m.size) ms) := PackedFrom.decidable _ ms
    inferInstanceAs (Decidable (_ ∧ _))

/-- A struct without padding, between its members or at its end. -/
def Packed (ms : List Member) : Prop := PackedFrom 0 ms ∧ size ms = endFrom 0 ms

instance (ms : List Member) : Decidable (Packed ms) := inferInstanceAs (Decidable (_ ∧ _))

/-! ## Writing and reading -/

/-- The padding between two positions. -/
def padding (pad : ℕ → Byte) (start stop : ℕ) : List Byte :=
  (List.range' start (stop - start)).map pad

/-- The bytes of members laid out from position `start` on. -/
def writeFrom (pad : ℕ → Byte) : ℕ → List Member → List (List ℕ) → List Byte
  | start, m :: ms, ws :: words =>
    padding pad start (roundUp start m.width) ++ m.bytes ws ++
      writeFrom pad (roundUp start m.width + m.size) ms words
  | _, _, _ => []

/-- The bytes of a struct, with `pad` in its padding. -/
def write (pad : ℕ → Byte) (ms : List Member) (words : List (List ℕ)) : List Byte :=
  writeFrom pad 0 ms words ++ padding pad (endFrom 0 ms) (size ms)

/-- The words of members laid out from position `start` on. -/
def readFrom (bytes : List Byte) : ℕ → List Member → List (List ℕ)
  | _, [] => []
  | start, m :: ms =>
    Member.readWords m.width m.count (bytes.drop (roundUp start m.width)) ::
      readFrom bytes (roundUp start m.width + m.size) ms

variable (pad : ℕ → Byte)

theorem length_padding (start stop : ℕ) : (padding pad start stop).length = stop - start := by
  simp [padding]

theorem le_roundUp {alignment : ℕ} (h : 0 < alignment) (n : ℕ) : n ≤ roundUp n alignment := by
  unfold roundUp
  have hdiv := Nat.div_add_mod (n + (alignment - 1)) alignment
  have hmod := Nat.mod_lt (n + (alignment - 1)) h
  rw [Nat.mul_comm] at hdiv
  omega

variable {ms : List Member} {words : List (List ℕ)}

/-- The words fit their members, and no member is made of empty words. -/
def FitsAll (ms : List Member) (words : List (List ℕ)) : Prop :=
  List.Forall₂ Member.Fits ms words ∧ ∀ m ∈ ms, 0 < m.width

theorem FitsAll.cons {m : Member} {ws : List ℕ}
    (h : FitsAll (m :: ms) (ws :: words)) : m.Fits ws ∧ 0 < m.width ∧ FitsAll ms words := by
  obtain ⟨hfits, hwidths⟩ := h
  rw [List.forall₂_cons] at hfits
  refine ⟨hfits.1, hwidths m List.mem_cons_self, hfits.2, ?_⟩
  exact fun m' hm' => hwidths m' (List.mem_cons_of_mem m hm')

theorem length_writeFrom (h : FitsAll ms words) (start : ℕ) :
    start + (writeFrom pad start ms words).length = endFrom start ms := by
  induction ms generalizing start words with
  | nil =>
    cases words with
    | nil => rfl
    | cons ws words => cases h.1
  | cons m ms ih =>
    cases words with
    | nil => cases h.1
    | cons ws words =>
      obtain ⟨hm, hwidth, hrest⟩ := h.cons
      have hle := le_roundUp hwidth start
      have ih := ih hrest (roundUp start m.width + m.size)
      rw [writeFrom, endFrom, List.length_append, List.length_append, length_padding,
        Member.length_bytes hm]
      omega

theorem alignment_pos (ms : List Member) : 0 < alignment ms := by
  unfold alignment
  induction ms with
  | nil => exact Nat.one_pos
  | cons m ms ih =>
    exact lt_of_lt_of_le ih (le_max_right _ _)

theorem length_write (h : FitsAll ms words) : (write pad ms words).length = size ms := by
  have hlength := length_writeFrom pad h 0
  have hle : endFrom 0 ms ≤ size ms := le_roundUp (alignment_pos ms) _
  rw [write, List.length_append, length_padding]
  omega

/-- The members are found behind whatever stands before them. -/
theorem readFrom_append_writeFrom (h : FitsAll ms words) (before after : List Byte) :
    readFrom (before ++ writeFrom pad before.length ms words ++ after) before.length ms =
      words := by
  induction ms generalizing before words with
  | nil =>
    cases words with
    | nil => rfl
    | cons ws words => cases h.1
  | cons m ms ih =>
    cases words with
    | nil => cases h.1
    | cons ws words =>
      obtain ⟨hm, hwidth, hrest⟩ := h.cons
      -- the member starts behind the padding, the others behind the member
      let padded := before ++ padding pad before.length (roundUp before.length m.width)
      have hle := le_roundUp hwidth before.length
      have hpadded : padded.length = roundUp before.length m.width := by
        rw [List.length_append, length_padding]
        omega
      have hbehind : (padded ++ m.bytes ws).length = roundUp before.length m.width + m.size := by
        rw [List.length_append, hpadded, Member.length_bytes hm]
      have ih := ih hrest (padded ++ m.bytes ws)
      rw [hbehind] at ih
      have hsplit : before ++ writeFrom pad before.length (m :: ms) (ws :: words) ++ after =
          padded ++ (m.bytes ws ++
            (writeFrom pad (roundUp before.length m.width + m.size) ms words ++ after)) := by
        simp only [writeFrom, padded, List.append_assoc]
      rw [readFrom, hsplit, List.drop_left' hpadded, Member.readWords_bytes hm]
      simpa only [List.append_assoc] using congrArg (ws :: ·) ih

/-- What is written to a struct is read from it, whatever is in its padding. -/
theorem readFrom_write (h : FitsAll ms words) : readFrom (write pad ms words) 0 ms = words :=
  readFrom_append_writeFrom pad h [] _

theorem writeFrom_eq_of_packedFrom (pad pad' : ℕ → Byte) {start : ℕ}
    (h : PackedFrom start ms) (words : List (List ℕ)) :
    writeFrom pad start ms words = writeFrom pad' start ms words := by
  induction ms generalizing start words with
  | nil => rfl
  | cons m ms ih =>
    cases words with
    | nil => rfl
    | cons ws words =>
      obtain ⟨hstart, hrest⟩ := h
      have hnone : ∀ pad : ℕ → Byte, padding pad start start = [] := by
        intro pad
        simp [padding]
      rw [writeFrom, writeFrom, hstart, hnone, hnone, ih hrest]

/-- A struct without padding is represented in one way. -/
theorem write_eq_of_packed (pad pad' : ℕ → Byte) (h : Packed ms) (words : List (List ℕ)) :
    write pad ms words = write pad' ms words := by
  have hnone : ∀ pad : ℕ → Byte, padding pad (endFrom 0 ms) (size ms) = [] := by
    intro pad
    rw [h.2]
    simp [padding]
  rw [write, write, writeFrom_eq_of_packedFrom pad pad' h.1, hnone, hnone]

end CLayout

/-! ## Records -/

/-- A type of records with the struct they are stored in. `Ok` are the records that fit. -/
structure Layout (α : Type) where
  members : List CLayout.Member
  words : α → List (List ℕ)
  ofWords : List (List ℕ) → Option α
  Ok : α → Prop
  fits : ∀ a, Ok a → CLayout.FitsAll members (words a)
  ofWords_words : ∀ a, Ok a → ofWords (words a) = some a

namespace Layout

open CLayout

variable {α : Type} (L : Layout α)

/-- `sizeof`. -/
def size : ℕ := CLayout.size L.members

/-- The bytes hold the record. -/
def Represents (bytes : List Byte) (a : α) : Prop :=
  L.Ok a ∧ ∃ pad, bytes = write pad L.members (L.words a)

/-- The record read from the bytes, which have to be at least as many as the struct has. -/
def read (bytes : List Byte) : Option α := L.ofWords (readFrom bytes 0 L.members)

variable {L}

theorem Represents.read {bytes : List Byte} {a : α} (h : L.Represents bytes a) :
    L.read bytes = some a := by
  obtain ⟨hok, pad, rfl⟩ := h
  rw [Layout.read, readFrom_write pad (L.fits a hok), L.ofWords_words a hok]

theorem Represents.length {bytes : List Byte} {a : α} (h : L.Represents bytes a) :
    bytes.length = L.size := by
  obtain ⟨hok, pad, rfl⟩ := h
  exact length_write pad (L.fits a hok)

theorem Represents.unique {bytes bytes' : List Byte} {a : α} (hpacked : Packed L.members)
    (h : L.Represents bytes a) (h' : L.Represents bytes' a) : bytes = bytes' := by
  obtain ⟨-, pad, rfl⟩ := h
  obtain ⟨-, pad', rfl⟩ := h'
  exact write_eq_of_packed pad pad' hpacked _

theorem exists_represents {a : α} (h : L.Ok a) : ∃ bytes, L.Represents bytes a :=
  ⟨_, h, fun _ => 0, rfl⟩

end Layout
