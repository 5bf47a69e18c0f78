import NetStack.Tcp.Write

/-! The window gate (`is_allow_to_send`).

A write sleeps after each segment until the gate returns something other than 0. What it
returns is the window in segments less the segments in flight, and the conversions between
`u32`, `int` and `size_t` leave that difference alone modulo 2^32
(`isAllowToSend_toInt`). The `max` with 0 is taken of the `size_t`, which is never negative,
and cuts nothing off. -/
namespace NetStack.Tcp.TcpSock

/-- The window in whole segments, less those in flight and not counted back by duplicate
ACKs, over the integers. -/
def spareSegments (tsk : TcpSock) : Int :=
  (tsk.sndWnd.toNat / mss : Nat) - (((tsk.sndNxt - tsk.sndUna).toNat / mss : Nat) - (tsk.dupacks.toNat : Int))

theorem signExtend_setWidth (x : U32) : (x.signExtend 64).setWidth 32 = x := by
  ext i hi
  rw [BitVec.getElem_setWidth, BitVec.getLsbD_signExtend]
  simp [hi, show i < 64 by omega]

theorem setWidth_sub (a b : U64) : (a - b).setWidth 32 = a.setWidth 32 - b.setWidth 32 := by
  rw [BitVec.sub_eq_add_neg, BitVec.sub_eq_add_neg, BitVec.setWidth_add _ _ (by decide),
    BitVec.setWidth_neg_of_le (by decide)]

/-- A number of whole segments, back in 32 bits. -/
theorem segments_setWidth (x : U32) :
    (x.setWidth 64 / BitVec.ofNat 64 mss).setWidth 32 = BitVec.ofNat 32 (x.toNat / mss) := by
  apply BitVec.eq_of_toNat_eq
  have hx : x.toNat % 2 ^ 64 = x.toNat := Nat.mod_eq_of_lt (by omega)
  rw [BitVec.toNat_setWidth, BitVec.toNat_udiv, BitVec.toNat_setWidth, BitVec.toNat_ofNat, hx,
    Nat.mod_eq_of_lt (by decide : mss < 2 ^ 64), BitVec.toNat_ofNat]

/-- The gate in 32 bits throughout. -/
theorem isAllowToSend_eq (tsk : TcpSock) :
    tsk.isAllowToSend = BitVec.ofNat 32 (tsk.sndWnd.toNat / mss) -
      (BitVec.ofNat 32 ((tsk.sndNxt - tsk.sndUna).toNat / mss) - tsk.dupacks) := by
  simp only [isAllowToSend]
  rw [setWidth_sub, signExtend_setWidth, setWidth_sub, segments_setWidth, segments_setWidth]
  simp

/-- The gate returns the spare segments, wrapped to an `int`. -/
theorem isAllowToSend_toInt (tsk : TcpSock) : tsk.isAllowToSend.toInt = tsk.spareSegments.bmod (2 ^ 32) := by
  rw [isAllowToSend_eq, spareSegments, BitVec.toInt_sub, BitVec.toInt_sub, BitVec.toInt_ofNat',
    BitVec.toInt_ofNat', BitVec.toInt_eq_toNat_bmod]
  simp only [Int.sub_bmod_bmod, Int.bmod_sub_bmod]

/-- `is_allow_to_send` returns the spare segments, 0 if they are negative, and so no write
goes on while none is spare. -/
def Gated (tsk : TcpSock) : Prop :=
  tsk.isAllowToSend.toInt = max tsk.spareSegments 0 ∧
  (tsk.spareSegments ≤ 0 → ∀ rest, tsk.writeResume (.gate rest) = none)

/-- **The gate is the one of the integers** exactly where the spare segments are no negative
number and fit an `int`. -/
theorem gated_iff {tsk : TcpSock} (hwnd : tsk.sndWnd.toNat < 2 ^ 31)
    (hflight : (tsk.sndNxt - tsk.sndUna).toNat < 2 ^ 31) (hdup : tsk.dupacks.toNat < 2 ^ 31) :
    tsk.Gated ↔ 0 ≤ tsk.spareSegments ∧ tsk.spareSegments < 2 ^ 31 := by
  have hlow : -2 ^ 31 ≤ tsk.spareSegments := by
    simp only [spareSegments, mss]
    omega
  have hhigh : tsk.spareSegments < 2 ^ 32 - 2 ^ 31 + 2 ^ 31 / mss + 1 := by
    simp only [spareSegments, mss]
    omega
  simp only [mss] at hhigh
  rw [Gated, isAllowToSend_toInt]
  by_cases hfits : tsk.spareSegments < 2 ^ 31
  · have hsame : tsk.spareSegments.bmod (2 ^ 32) = tsk.spareSegments := by
      apply Int.bmod_eq_of_le_mul_two <;> omega
    rw [hsame]
    constructor
    · exact fun h => ⟨by omega, hfits⟩
    · intro h
      refine ⟨by omega, fun hnone rest => ?_⟩
      have hzero : tsk.isAllowToSend = 0 := by
        apply BitVec.eq_of_toInt_eq
        rw [isAllowToSend_toInt, hsame]
        show tsk.spareSegments = 0
        omega
      rw [writeResume, if_pos hzero]
  · -- a difference over the range of an `int` comes out negative
    have hwrap := Int.bmod_le (x := tsk.spareSegments) (m := 2 ^ 32) (by decide)
    constructor
    · intro hyp
      obtain ⟨hvalue, -⟩ := hyp
      omega
    · exact fun h => absurd h.2 hfits

/-- Five segments in flight under a window of ten, two of them counted back. -/
theorem gated_inFlight :
    let tsk : TcpSock := { allocTcpSock with sndWnd := 14600, sndNxt := 7300, dupacks := 2 }
    tsk.spareSegments = 7 ∧ tsk.Gated :=
  ⟨by decide, (gated_iff (by decide) (by decide) (by decide)).mpr (by decide)⟩

/-- Two segments in flight under a window of one: the gate returns -1, and is open. -/
theorem gate_open_at_overrun : ¬ Gated { allocTcpSock with sndWnd := 1460, sndNxt := 2920 } := by
  intro h
  have hnone := h.2 (by decide) []
  revert hnone
  decide

end NetStack.Tcp.TcpSock
