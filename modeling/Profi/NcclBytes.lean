import Profi.System

/-!
# Bytes of a Collective

The bytes of an NCCL call are counted twice over: `emit_exit` adds them to `NCCL_AGG`, and
`nccl_event_bytes` computes them from a ring event. Both multiply the element count by the size of
the datatype, which they look up in the same table.

They read the datatype at different widths. The program takes the whole 64-bit register, user space
the low 32 bits, which is all the caller of the function has to set. With anything in the upper half
the program is past the end of the table and takes the size for one byte, so that the two agree only
if that is the size anyway, or nothing is sent (`bytes_eq_iff`).
-/

namespace Profi

variable {n : ℕ}

/-! ## The size of a datatype -/

/-- User space looks the low half of the register up. -/
theorem ncclEventBytes_eq (event : CudaEvent) :
    ncclEventBytes event = event.size * Bpf.dtypeSize (event.memcpyKind.setWidth 64) := by
  have hwidth : (event.memcpyKind.setWidth 64).toNat = event.memcpyKind.toNat := by
    rw [BitVec.toNat_setWidth]
    apply Nat.mod_eq_of_lt
    omega
  unfold ncclEventBytes Bpf.dtypeSize
  simp only [hwidth]

namespace Bpf

/-- Past the table the size is one. -/
theorem dtypeSize_of_le {datatype : U64} (h : 10 ≤ datatype.toNat) : dtypeSize datatype = 1 :=
  dif_neg (not_lt.mpr h)

/-- The sizes of the table are one, or one more than an odd number. -/
theorem dtypeSize_cases (datatype : U64) :
    dtypeSize datatype = 1 ∨ Odd ((dtypeSize datatype).toNat - 1) := by
  have htable : ∀ i, ncclDtypeSizes i = 1 ∨ Odd ((ncclDtypeSizes i).toNat - 1) := by decide
  by_cases h : datatype.toNat < 10
  · rw [dtypeSize, dif_pos h]
    apply htable
  · exact .inl (dtypeSize_of_le (not_lt.mp h))

/-- The low half of a register, as a register. -/
def lowHalf (x : U64) : U64 := (x.setWidth 32).setWidth 64

theorem lowHalf_toNat (x : U64) : (lowHalf x).toNat = x.toNat % 2 ^ 32 := by
  simp only [lowHalf, BitVec.toNat_setWidth]
  omega

theorem lowHalf_of_lt {x : U64} (h : x.toNat < 2 ^ 32) : lowHalf x = x := by
  apply BitVec.eq_of_toNat_eq
  rw [lowHalf_toNat, Nat.mod_eq_of_lt h]

/-! ## Where the two agree -/

/-- A product with a size of the table is the count itself only for single bytes and for nothing:
    one less than the other sizes is odd, and so cancels. -/
theorem mul_dtypeSize_eq_self_iff (count datatype : U64) :
    count * dtypeSize datatype = count ↔ dtypeSize datatype = 1 ∨ count = 0 := by
  constructor
  · intro h
    rcases dtypeSize_cases datatype with hone | hodd
    · exact .inl hone
    · right
      have hmod : count.toNat * (dtypeSize datatype).toNat % 2 ^ 64 = count.toNat := by
        rw [← BitVec.toNat_mul, h]
      -- so the range divides the count times an odd number, hence the count
      have hdiv := Nat.div_add_mod (count.toNat * (dtypeSize datatype).toNat) (2 ^ 64)
      have hdvd : 2 ^ 64 ∣ count.toNat * ((dtypeSize datatype).toNat - 1) := by
        refine ⟨count.toNat * (dtypeSize datatype).toNat / 2 ^ 64, ?_⟩
        rw [Nat.mul_sub, mul_one]
        omega
      have hcoprime : Nat.Coprime (2 ^ 64) ((dtypeSize datatype).toNat - 1) :=
        (Nat.coprime_two_left.mpr hodd).pow_left 64
      apply BitVec.eq_of_toNat_eq
      exact Nat.eq_zero_of_dvd_of_lt (hcoprime.dvd_of_dvd_mul_right hdvd) count.isLt
  · rintro (h | rfl)
    · rw [h, BitVec.ofNat_eq_ofNat, BitVec.mul_one]
    · rw [BitVec.ofNat_eq_ofNat, BitVec.zero_mul]

/-- The register and its low half look the same size up, or the size does not matter. -/
def DatatypeAgrees (count datatype : U64) : Prop :=
  datatype.toNat < 2 ^ 32 ∨ dtypeSize (lowHalf datatype) = 1 ∨ count = 0

instance (count datatype : U64) : Decidable (DatatypeAgrees count datatype) :=
  inferInstanceAs (Decidable (_ ∨ _))

/-- The bytes `emit_exit` adds to `NCCL_AGG` and those user space computes from the ring event of
    the same entry are the same number exactly under `DatatypeAgrees`. -/
theorem bytes_eq_iff (s : Bpf n) (ctx : Ctx n) (entry : EntryData) :
    (ncclItem ctx entry).bytes = ncclEventBytes (s.cudaEvent ctx entry) ↔
      DatatypeAgrees entry.arg0 entry.arg1 := by
  rw [ncclEventBytes_eq]
  change entry.arg0 * dtypeSize entry.arg1 = entry.arg0 * dtypeSize (lowHalf entry.arg1) ↔ _
  by_cases hlow : entry.arg1.toNat < 2 ^ 32
  · rw [lowHalf_of_lt hlow]
    exact ⟨fun _ => .inl hlow, fun _ => rfl⟩
  · -- the register is past the table, whatever its low half says
    have hone : dtypeSize entry.arg1 = 1 := dtypeSize_of_le (by omega)
    rw [hone, BitVec.ofNat_eq_ofNat, BitVec.mul_one, eq_comm, mul_dtypeSize_eq_self_iff]
    simp only [DatatypeAgrees, hlow, false_or]

/-- One element of a datatype of eight bytes, with a bit left over in the upper half of the
    register: the program counts one byte, user space eight. -/
theorem bytes_dirtyRegister :
    let ctx := Sys.bareCtx 0x100000001 0 0
    let s := Probe.enter (Bpf.init 1 {}) ctx (.ncclAllReduce 1 0x100000007)
    ∃ entry, s.inflight.lookup ctx.pidTgid = some entry ∧ (ncclItem ctx entry).bytes = 1 ∧
      ncclEventBytes (s.cudaEvent ctx entry) = 8 :=
  ⟨{ timestampNs := 0, arg0 := 1, arg1 := 0x100000007, arg2 := 0, eventType := .ncclAllReduce },
    by decide, by decide, by decide⟩

end Bpf

end Profi
