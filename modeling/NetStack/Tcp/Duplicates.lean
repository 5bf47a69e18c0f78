import NetStack.Tcp.NewReno

/-! Duplicate ACKs are counted.

In `TCP_OPEN` none has been counted, in `TCP_DISORDER` one or two, in `TCP_RECOVERY` three
or more; in `TCP_LOSS`, where timeouts lead from anywhere, there is nothing to say. A
connection in `TCP_DISORDER` has had as many duplicates since it was last in `TCP_OPEN` as
it has counted (`SinceOpen`), so the one that leads to `TCP_RECOVERY` is the third. -/
namespace NetStack.Tcp
open TcpSock NrEvent

variable {s₀ s t : TcpSock} {e : NrEvent} {es mid : List NrEvent} {k : Nat}

/-- A step with no timeout and no new ACK. -/
def DupStep (s : TcpSock) (e : NrEvent) (t : TcpSock) : Prop := Step s e t ∧ Undisturbed s e

/-- The count of duplicate ACKs goes with the state. -/
structure Counted (r : NewReno) : Prop where
  «open» : r.state = .open → r.dupacks = 0
  disorder : r.state = .disorder → r.dupacks = 1 ∨ r.dupacks = 2
  recovery : r.state = .recovery → 3 ≤ r.dupacks

/-- From the last time in `TCP_OPEN` to here there were `k` ACKs, none of them new, and no
timeout. -/
def SinceOpen (s₀ : TcpSock) (es : List NrEvent) (s : TcpSock) (k : Nat) : Prop :=
  ∃ before mid o, es = before ++ mid ∧ Run Step s₀ before o ∧ o.nrState = .open ∧ Run DupStep o mid s ∧
    acks mid = k

/-- The event is the third duplicate ACK in a row since the connection was in `TCP_OPEN`,
with no timeout in between. -/
def ThirdDuplicate (s₀ : TcpSock) (es : List NrEvent) (s : TcpSock) (e : NrEvent) : Prop :=
  (∃ cb, e = .ack cb ∧ s.advances cb.ack = false) ∧ SinceOpen s₀ es s 2

/-- The step enters `TCP_RECOVERY`. -/
def EntersRecovery (s t : TcpSock) : Prop := s.nrState ≠ .recovery ∧ t.nrState = .recovery

namespace NewReno

variable {r : NewReno} {isNewAck : Bool} {number sndNxt : U32}

/-- An ACK leaves the count, adds one to it or clears it. -/
theorem ack_dupacks : (r.ack isNewAck number sndNxt).dupacks = r.dupacks ∨
    (r.ack isNewAck number sndNxt).dupacks = r.dupacks + 1 ∨
    (r.ack isNewAck number sndNxt).dupacks = 0 := by
  unfold ack
  split
  case h_4 | h_5 | h_6 => split <;> simp
  all_goals simp

theorem ack_dupacks_le : (r.ack isNewAck number sndNxt).dupacks.toNat ≤ r.dupacks.toNat + 1 := by
  have hadd : (r.dupacks + 1).toNat ≤ r.dupacks.toNat + 1 := by
    rw [BitVec.toNat_add]
    exact Nat.mod_le _ _
  obtain h | h | h : _ ∨ _ ∨ (r.ack isNewAck number sndNxt).dupacks = 0 := ack_dupacks
  · rw [h]
    exact Nat.le_succ _
  · rw [h]
    exact hadd
  · rw [h]
    exact Nat.zero_le _

/-- An ACK keeps the count and the state together, unless the count wraps around. -/
theorem ack_counted (h : Counted r) (hfits : r.dupacks.toNat + 1 < 2 ^ 32) :
    Counted (r.ack isNewAck number sndNxt) := by
  unfold ack
  split
  case h_1 => exact h
  case h_2 hstate =>
    exact ⟨fun heq => (by cases heq), fun _ => .inl (by rw [h.open hstate]; rfl), fun heq => (by cases heq)⟩
  case h_3 => exact ⟨fun _ => rfl, fun heq => (by cases heq), fun heq => (by cases heq)⟩
  case h_4 hstate =>
    split
    · rename_i hthird
      exact ⟨fun heq => (by cases heq), fun heq => (by cases heq), fun _ => hthird ▸ BitVec.le_refl _⟩
    · rename_i hthird
      refine ⟨fun heq => absurd (hstate.symm.trans heq) (by decide), fun _ => ?_,
        fun heq => absurd (hstate.symm.trans heq) (by decide)⟩
      rcases h.disorder hstate with hone | htwo
      · exact .inr (by rw [hone]; rfl)
      · exact absurd (by rw [htwo]; rfl) hthird
  case h_5 =>
    split
    · exact ⟨fun _ => rfl, fun heq => (by cases heq), fun heq => (by cases heq)⟩
    · exact h
  case h_6 =>
    split
    · exact h
    · exact ⟨fun _ => rfl, fun heq => (by cases heq), fun heq => (by cases heq)⟩
  case h_7 hstate =>
    exact ⟨fun heq => absurd (hstate.symm.trans heq) (by decide),
      fun heq => absurd (hstate.symm.trans heq) (by decide),
      fun heq => absurd (hstate.symm.trans heq) (by decide)⟩
  case h_8 hstate =>
    refine ⟨fun heq => absurd (hstate.symm.trans heq) (by decide),
      fun heq => absurd (hstate.symm.trans heq) (by decide), fun _ => ?_⟩
    have hthree : 3 ≤ r.dupacks.toNat := h.recovery hstate
    have hadd : (r.dupacks + 1).toNat = r.dupacks.toNat + 1 := by
      rw [BitVec.toNat_add]
      exact Nat.mod_eq_of_lt hfits
    show 3 ≤ (r.dupacks + 1).toNat
    omega
  case h_9 => exact h

theorem timeout_counted : Counted (r.timeout sndNxt) := by
  constructor <;> intro hstate <;> cases hstate

/-- Only the third duplicate in `TCP_DISORDER` leads to `TCP_RECOVERY`. -/
theorem ack_recovery_iff (hout : r.state ≠ .recovery) :
    (r.ack isNewAck number sndNxt).state = .recovery ↔
      r.state = .disorder ∧ isNewAck = false ∧ r.dupacks + 1 = 3 := by
  unfold ack
  split
  case h_4 hstate => split <;> simp_all
  case h_5 => split <;> simp_all
  case h_6 hstate => exact absurd hstate hout
  case h_8 hstate => exact absurd hstate hout
  all_goals simp_all

/-- Only a duplicate leads to `TCP_DISORDER` or keeps it, and it is counted. -/
theorem disorder_of_ack (h : (r.ack isNewAck number sndNxt).state = .disorder) :
    isNewAck = false ∧ (r.state = .open ∨ r.state = .disorder) ∧
      (r.ack isNewAck number sndNxt).dupacks = r.dupacks + 1 := by
  revert h
  unfold ack
  split
  case h_4 => split <;> simp_all
  case h_5 | h_6 => split <;> simp_all
  all_goals simp_all

end NewReno

/-! ### Since the last time in `TCP_OPEN` -/

theorem SinceOpen.here (hrun : Run Step s₀ es s) (hopen : s.nrState = .open) : SinceOpen s₀ es s 0 :=
  ⟨es, [], s, (List.append_nil es).symm, hrun, hopen, .nil s, rfl⟩

theorem SinceOpen.snoc (h : SinceOpen s₀ es s k) (hstep : DupStep s e t) :
    SinceOpen s₀ (es ++ [e]) t (k + acks [e]) := by
  obtain ⟨before, mid, o, rfl, hbefore, hopen, hmid, rfl⟩ := h
  exact ⟨before, mid ++ [e], o, List.append_assoc .., hbefore, hopen, hmid.snoc hstep, by simp⟩

/-- Up to two duplicates are counted in `TCP_DISORDER`. -/
def CountsDups (mid : List NrEvent) (s : TcpSock) : Prop :=
  acks mid ≤ 2 →
    s.nrState = (if acks mid = 0 then .open else .disorder) ∧ s.dupacks = BitVec.ofNat 32 (acks mid)

theorem CountsDups.step (h : CountsDups mid s) (hstep : DupStep s e t) : CountsDups (mid ++ [e]) t := by
  intro hle
  rw [acks_append] at hle ⊢
  obtain ⟨hstate, hdups⟩ := h (by omega)
  rcases step_newReno hstep.1 with ⟨cb, rfl, hreno⟩ | ⟨rfl, hout, -⟩ | ⟨hquiet, -, hreno⟩
  · have hone : acks [NrEvent.ack cb] = 1 := rfl
    have hdup : s.advances cb.ack = false := hstep.2
    rw [hone] at hle ⊢
    rw [hdup] at hreno
    have hafter : t.nrState = .disorder ∧ t.dupacks = s.dupacks + 1 := by
      obtain hnone | hsome : acks mid = 0 ∨ acks mid = 1 := by omega
      · have hopen : s.newReno.state = .open := hstate.trans (if_pos hnone)
        simp only [NewReno.ack, hopen] at hreno
        exact ⟨congrArg NewReno.state hreno, congrArg NewReno.dupacks hreno⟩
      · have hdis : s.newReno.state = .disorder := hstate.trans (if_neg (by omega))
        have hnot : s.newReno.dupacks + 1 ≠ 3 := by
          show s.dupacks + 1 ≠ 3
          rw [hdups, hsome]
          decide
        simp only [NewReno.ack, hdis, if_neg hnot] at hreno
        exact ⟨congrArg NewReno.state hreno, congrArg NewReno.dupacks hreno⟩
    rw [if_neg (Nat.succ_ne_zero _), hafter.2, hdups, BitVec.ofNat_add]
    exact ⟨hafter.1, rfl⟩
  · exact absurd (hout.symm.trans hstep.2) (by decide)
  · have hnone : acks [e] = 0 := by simp [acks, hquiet]
    rw [hnone, Nat.add_zero]
    exact ⟨(congrArg NewReno.state hreno).trans hstate, (congrArg NewReno.dupacks hreno).trans hdups⟩

/-- What holds of a connection after any events. -/
structure Tracked (s₀ : TcpSock) (es : List NrEvent) (s : TcpSock) : Prop where
  bounded : s.dupacks.toNat ≤ acks es
  counted : Counted s.newReno
  disorder : s.nrState = .disorder → SinceOpen s₀ es s s.dupacks.toNat

theorem Tracked.step (h : Tracked s₀ es s) (hrun : Run Step s₀ es s) (hstep : Step s e t)
    (hacks : acks (es ++ [e]) < 2 ^ 32) : Tracked s₀ (es ++ [e]) t := by
  rw [acks_append] at hacks
  have hbounded := h.bounded
  rcases step_newReno hstep with ⟨cb, rfl, hreno⟩ | ⟨rfl, -, hreno⟩ | ⟨hquiet, hundisturbed, hreno⟩
  · have hone : acks [NrEvent.ack cb] = 1 := rfl
    rw [hone] at hacks
    have hdups : t.dupacks = (s.newReno.ack (s.advances cb.ack) cb.ack s.sndNxt).dupacks :=
      congrArg NewReno.dupacks hreno
    refine ⟨?_, ?_, ?_⟩
    · have hle : (s.newReno.ack (s.advances cb.ack) cb.ack s.sndNxt).dupacks.toNat ≤ s.dupacks.toNat + 1 :=
        NewReno.ack_dupacks_le
      rw [acks_append, hone, hdups]
      exact hle.trans (Nat.succ_le_succ hbounded)
    · rw [hreno]
      exact NewReno.ack_counted h.counted (by show s.dupacks.toNat + 1 < 2 ^ 32; omega)
    · intro hdis
      obtain ⟨hdup, hbefore, hcount⟩ := NewReno.disorder_of_ack ((congrArg NewReno.state hreno).symm.trans hdis)
      have hnext : t.dupacks.toNat = s.dupacks.toNat + 1 := by
        rw [hdups, hcount, BitVec.toNat_add]
        exact Nat.mod_eq_of_lt (by show s.dupacks.toNat + 1 < 2 ^ 32; omega)
      have hsince : SinceOpen s₀ es s s.dupacks.toNat := by
        rcases hbefore with hopen | hdis
        · have hzero : s.dupacks = 0 := h.counted.open hopen
          rw [hzero]
          exact .here hrun hopen
        · exact h.disorder hdis
      rw [hnext]
      exact hsince.snoc ⟨hstep, hdup⟩
  · refine ⟨?_, ?_, ?_⟩
    · rw [acks_append, show t.dupacks = s.dupacks from congrArg NewReno.dupacks hreno]
      exact hbounded.trans (Nat.le_add_right _ _)
    · rw [hreno]
      exact NewReno.timeout_counted
    · intro hdis
      have hloss : t.nrState = .loss := congrArg NewReno.state hreno
      exact absurd (hloss.symm.trans hdis) (by decide)
  · have hnone : acks [e] = 0 := by simp [acks, hquiet]
    have hdups : t.dupacks = s.dupacks := congrArg NewReno.dupacks hreno
    refine ⟨?_, ?_, ?_⟩
    · rw [acks_append, hdups]
      exact hbounded.trans (Nat.le_add_right _ _)
    · rw [hreno]
      exact h.counted
    · intro hdis
      have hsince := (h.disorder ((congrArg NewReno.state hreno).symm.trans hdis)).snoc ⟨hstep, hundisturbed⟩
      rw [hnone, Nat.add_zero] at hsince
      rw [hdups]
      exact hsince

theorem tracked_run (hopen : s₀.nrState = .open) (hdup : s₀.dupacks = 0) (hrun : Run Step s₀ es s)
    (hacks : acks es < 2 ^ 32) : Tracked s₀ es s := by
  have hnil : acks [] < 2 ^ 32 → Tracked s₀ [] s₀ := by
    intro _
    have hzero : s₀.dupacks.toNat = 0 := by
      rw [hdup]
      rfl
    refine ⟨hzero.le, ⟨fun _ => hdup, ?_, ?_⟩, ?_⟩
    all_goals intro hstate; exact absurd (hopen.symm.trans hstate) (by decide)
  have hkeep : ∀ es s e t, Run Step s₀ es s → (acks es < 2 ^ 32 → Tracked s₀ es s) → Step s e t →
      acks (es ++ [e]) < 2 ^ 32 → Tracked s₀ (es ++ [e]) t := by
    intro es s e t hrun ih hstep hacks
    have hbefore : acks es < 2 ^ 32 := by
      rw [acks_append] at hacks
      omega
    exact (ih hbefore).step hrun hstep hacks
  exact Run.history hnil hkeep hrun hacks

theorem counted_dups {o : TcpSock} (hopen : o.nrState = .open) (hdup : o.dupacks = 0)
    (hrun : Run DupStep o mid s) : CountsDups mid s := by
  have hnil : CountsDups [] o := fun _ => ⟨hopen, hdup⟩
  exact Run.history hnil (fun _ _ _ _ _ h hstep => h.step hstep) hrun

/-- The third duplicate, and no other event, leads to `TCP_RECOVERY`. -/
theorem enters_iff (hopen : s₀.nrState = .open) (hdup : s₀.dupacks = 0) (hrun : Run Step s₀ es s)
    (hstep : Step s e t) (hacks : acks es < 2 ^ 32) : EntersRecovery s t ↔ ThirdDuplicate s₀ es s e := by
  have htracked := tracked_run hopen hdup hrun hacks
  constructor
  · intro h
    obtain ⟨hout, hin⟩ := h
    rcases step_newReno hstep with ⟨cb, rfl, hreno⟩ | ⟨rfl, -, hreno⟩ | ⟨-, -, hreno⟩
    · obtain ⟨hdis, hold, hthird⟩ := (NewReno.ack_recovery_iff hout).mp
        ((congrArg NewReno.state hreno).symm.trans hin)
      have htwo : s.dupacks = 2 := by
        have hadd : s.dupacks + 1 = 3 := hthird
        rw [← BitVec.add_sub_cancel s.dupacks 1, hadd]
        rfl
      have hsince := htracked.disorder hdis
      rw [htwo] at hsince
      exact ⟨⟨cb, rfl, hold⟩, hsince⟩
    · have hloss : t.nrState = .loss := congrArg NewReno.state hreno
      exact absurd (hloss.symm.trans hin) (by decide)
    · exact absurd ((congrArg NewReno.state hreno).symm.trans hin) hout
  · intro h
    obtain ⟨⟨cb, rfl, hold⟩, before, mid, o, rfl, hbefore, hoopen, hmid, htwo⟩ := h
    have hofew : acks before < 2 ^ 32 := by
      rw [acks_append] at hacks
      omega
    have hozero := (tracked_run hopen hdup hbefore hofew).counted.open hoopen
    obtain ⟨hstate, hdups⟩ := counted_dups hoopen hozero hmid htwo.le
    rw [htwo] at hstate hdups
    have hout : s.newReno.state ≠ .recovery := by
      show s.nrState ≠ .recovery
      rw [hstate]
      decide
    have hreno : t.newReno = s.newReno.ack (s.advances cb.ack) cb.ack s.sndNxt := by
      rw [show t = (s.newRenoProcess cb).1 from hstep]
      exact (s.newRenoProcess_recovers cb).newReno
    refine ⟨hout, (congrArg NewReno.state hreno).trans ((NewReno.ack_recovery_iff hout).mpr ⟨hstate, hold, ?_⟩)⟩
    show s.dupacks + 1 = 3
    rw [hdups]
    rfl

/-- An ACK that leads to `TCP_RECOVERY` sends the first entry of the send buffer again. -/
theorem enters_sendsAgain (hstep : Step s e t) (h : EntersRecovery s t) :
    ∃ cb, e = .ack cb ∧ SendsAgain (s.deleteSendBufferEntry cb.ack).2 true (s.newRenoProcess cb) := by
  obtain ⟨hout, hin⟩ := h
  rcases step_newReno hstep with ⟨cb, rfl, hreno⟩ | ⟨rfl, -, hreno⟩ | ⟨-, -, hreno⟩
  · obtain ⟨hdis, hold, hthird⟩ := (NewReno.ack_recovery_iff hout).mp
      ((congrArg NewReno.state hreno).symm.trans hin)
    have hagain := (s.newRenoProcess_recovers cb).again
    have hresends : s.newReno.resends (s.advances cb.ack) cb.ack = true := by
      simp only [NewReno.resends, hdis, hold]
      exact decide_eq_true hthird
    rw [hresends] at hagain
    exact ⟨cb, rfl, hagain⟩
  · have hloss : t.nrState = .loss := congrArg NewReno.state hreno
    exact absurd (hloss.symm.trans hin) (by decide)
  · exact absurd ((congrArg NewReno.state hreno).symm.trans hin) hout

/-- **Over any fewer than 2^32 ACKs**, and timeouts and whatever else between them, the
count of duplicates goes with the state; recovery is entered by the third duplicate in a
row since `TCP_OPEN` and in no other way, and sends the first entry left again, once. -/
theorem newReno_counts (hopen : s₀.nrState = .open) (hdup : s₀.dupacks = 0) :
    (∀ es s, Run Step s₀ es s → acks es < 2 ^ 32 → Counted s.newReno) ∧
    ∀ es s e t, Run Step s₀ es s → Step s e t → acks (es ++ [e]) < 2 ^ 32 →
      (EntersRecovery s t ↔ ThirdDuplicate s₀ es s e) ∧
      (EntersRecovery s t → ∃ cb, e = .ack cb ∧
        SendsAgain (s.deleteSendBufferEntry cb.ack).2 true (s.newRenoProcess cb)) := by
  refine ⟨fun es s hrun hacks => (tracked_run hopen hdup hrun hacks).counted, ?_⟩
  intro es s e t hrun hstep hacks
  have hbefore : acks es < 2 ^ 32 := by
    rw [acks_append] at hacks
    omega
  exact ⟨enters_iff hopen hdup hrun hstep hbefore, enters_sendsAgain hstep⟩

/-- A fresh socket. -/
theorem newReno_counts_alloc :
    (∀ es s, Run Step allocTcpSock es s → acks es < 2 ^ 32 → Counted s.newReno) ∧
    ∀ es s e t, Run Step allocTcpSock es s → Step s e t → acks (es ++ [e]) < 2 ^ 32 →
      (EntersRecovery s t ↔ ThirdDuplicate allocTcpSock es s e) ∧
      (EntersRecovery s t → ∃ cb, e = .ack cb ∧
        SendsAgain (s.deleteSendBufferEntry cb.ack).2 true (s.newRenoProcess cb)) :=
  newReno_counts rfl rfl

end NetStack.Tcp
