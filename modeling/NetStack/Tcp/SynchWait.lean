import NetStack.Types
import Mathlib.Tactic.Common

/-! Two threads on one wait structure (`include/synch_wait.h`).

A thread tests a condition, and while it holds calls `sleep_on`; after it changed what
the other may be waiting for it calls `wake_up`. Both threads share the flags, and the
test is made outside the lock. `Paired` is what keeps the two from sleeping on stale
tests: a thread about to sleep or asleep still has its reason, or is notified, or is
about to be. Each step of one thread keeps it, a `sleep_on` on the condition that the
notification it takes is not the one the other still needs. -/
namespace NetStack.Tcp

/-- `struct synch_wait`, less the lock and the condition variable. `dead` is set by
`wait_exit` only, which neither thread calls. -/
structure SynchWait where
  notified : Bool
  sleep : Bool
deriving DecidableEq, Repr

/-- Where a thread stands: about to test its condition, told by the test to sleep,
waiting for the signal, signalled, about to touch the buffer, about to call `wake_up`. -/
inductive Stand where
  | test | enter | waiting | woken | copy | announce
deriving DecidableEq, Repr

/-- About to sleep, or asleep. -/
def Stand.Sleepy (p : Stand) : Prop := p = .enter ∨ p = .waiting

instance (p : Stand) : Decidable p.Sleepy := by
  unfold Stand.Sleepy
  infer_instance

namespace SynchWait

/-- `wait_init`. -/
def init : SynchWait := ⟨false, false⟩

/-- `sleep_on` up to the wait, or through it when a notification is there to take. -/
def sleepOn (wait : SynchWait) : Stand × SynchWait :=
  if wait.notified then (.test, ⟨false, false⟩) else (.waiting, { wait with sleep := true })

/-- `sleep_on` from the wait on. -/
def awake : SynchWait := ⟨false, false⟩

/-- `wake_up`, with where it leaves the other thread. -/
def wakeUp (wait : SynchWait) (other : Stand) : SynchWait × Stand :=
  if wait.notified then (wait, other)
  else ({ wait with notified := true }, if wait.sleep && other = .waiting then .woken else other)

theorem wakeUp_notified (wait : SynchWait) (other : Stand) :
    (wait.wakeUp other).1.notified = true := by
  unfold wakeUp
  split
  · assumption
  · rfl

end SynchWait

/-! ### One thread's reason to sleep -/

/-- Thread `p` sleeps on condition `P`, next to thread `q`. -/
structure Excused (wait : SynchWait) (p q : Stand) (P : Prop) : Prop where
  reason : p.Sleepy → P ∨ wait.notified = true ∨ q = .announce
  fresh : p.Sleepy → q = .waiting ∨ q = .woken → P

/-- A thread that does not sleep needs no reason. -/
theorem Excused.of_awake {wait : SynchWait} {p q : Stand} {P : Prop} (hp : ¬ p.Sleepy) :
    Excused wait p q P :=
  ⟨fun h => absurd h hp, fun h => absurd h hp⟩

/-- A thread whose reason holds is excused. -/
theorem Excused.of_reason {wait : SynchWait} {p q : Stand} {P : Prop} (hP : p.Sleepy → P) :
    Excused wait p q P :=
  ⟨fun h => .inl (hP h), fun h _ => hP h⟩

/-- The other thread's own steps, short of sleeping, take no reason away. -/
theorem Excused.of_test {wait : SynchWait} {p q : Stand} {P : Prop} (h : Excused wait p .test P)
    (hwaiting : q ≠ .waiting) (hwoken : q ≠ .woken) : Excused wait p q P where
  reason hp := by
    cases h.reason hp with
    | inl hP => exact .inl hP
    | inr hrest => exact .inr (.inl (hrest.resolve_right (by decide)))
  fresh _ hq := absurd hq (not_or.mpr ⟨hwaiting, hwoken⟩)

/-- A notified thread, or one about to be, is excused. -/
theorem Excused.of_notified {wait : SynchWait} {p q : Stand} {P : Prop}
    (hnotified : wait.notified = true ∨ q = .announce) (hwaiting : q ≠ .waiting)
    (hwoken : q ≠ .woken) : Excused wait p q P where
  reason _ := .inr hnotified
  fresh _ hq := absurd hq (not_or.mpr ⟨hwaiting, hwoken⟩)

/-- Two threads on one wait structure, each with its condition. -/
structure Paired (wait : SynchWait) (p q : Stand) (P Q : Prop) : Prop where
  left : Excused wait p q P
  right : Excused wait q p Q
  either : p.Sleepy → q.Sleepy → P ∨ Q

namespace Paired
variable {wait : SynchWait} {p q : Stand} {P Q P' : Prop}

theorem symm (h : Paired wait p q P Q) : Paired wait q p Q P :=
  ⟨h.right, h.left, fun hq hp => (h.either hp hq).symm⟩

/-- Two waiting threads both still have their reason. -/
theorem both_waiting (h : Paired wait .waiting .waiting P Q) : P ∧ Q :=
  ⟨h.left.fresh (.inr rfl) (.inl rfl), h.right.fresh (.inr rfl) (.inl rfl)⟩

theorem not_sleepy_test : ¬ Stand.Sleepy .test := by decide
theorem not_sleepy_copy : ¬ Stand.Sleepy .copy := by decide
theorem not_sleepy_announce : ¬ Stand.Sleepy .announce := by decide

/-- The test holds. -/
theorem enter (h : Paired wait .test q P Q) (hP : P) : Paired wait .enter q P Q where
  left := .of_reason fun _ => hP
  right := h.right.of_test (by decide) (by decide)
  either _ _ := .inl hP

/-- A thread that is neither sleeping nor about to announce moves on, to whatever its
condition is next. -/
theorem move (h : Paired wait .test q P Q) : Paired wait .test q P' Q where
  left := .of_awake not_sleepy_test
  right := h.right
  either hp := absurd hp not_sleepy_test

theorem copy (h : Paired wait .test q P Q) : Paired wait .copy q P Q where
  left := .of_awake not_sleepy_copy
  right := h.right.of_test (by decide) (by decide)
  either hp := absurd hp not_sleepy_copy

/-- The buffer changes, and with it what either thread waits for. -/
theorem announce : Paired wait .announce q P Q where
  left := .of_awake not_sleepy_announce
  right := .of_notified (.inr rfl) (by decide) (by decide)
  either hp := absurd hp not_sleepy_announce

/-- `wake_up`. -/
theorem wakeUp : Paired (wait.wakeUp q).1 .test (wait.wakeUp q).2 P Q where
  left := .of_awake not_sleepy_test
  right := .of_notified (.inl (wait.wakeUp_notified q)) (by decide) (by decide)
  either hp := absurd hp not_sleepy_test

/-- `sleep_on`, up to the wait: a notification it takes is none the other still needs. -/
theorem sleepOn (h : Paired wait .enter q P Q) (htimely : wait.notified = true → q.Sleepy → Q) :
    Paired wait.sleepOn.2 wait.sleepOn.1 q P Q := by
  unfold SynchWait.sleepOn
  split
  · rename_i hnotified
    exact ⟨.of_awake not_sleepy_test, .of_reason (htimely hnotified),
      fun hp => absurd hp not_sleepy_test⟩
  · rename_i hnotified
    have hQ : q.Sleepy → Q := by
      intro hq
      cases h.right.reason hq with
      | inl hQ => exact hQ
      | inr hrest =>
        cases hrest with
        | inl hn => exact absurd hn hnotified
        | inr hannounce => cases hannounce
    refine ⟨⟨fun _ => ?_, fun _ => h.left.fresh (.inl rfl)⟩, .of_reason hQ, fun _ hq => .inr (hQ hq)⟩
    cases h.left.reason (.inl rfl) with
    | inl hP => exact .inl hP
    | inr hrest => exact .inr (hrest.imp_left fun hn => absurd hn hnotified)

/-- `sleep_on`, from the wait on, signalled or not. -/
theorem awake (h : Paired wait p q P Q) (hp : p = .waiting ∨ p = .woken) :
    Paired SynchWait.awake .test q P Q where
  left := .of_awake not_sleepy_test
  right := .of_reason fun hq => h.right.fresh hq hp
  either hp := absurd hp not_sleepy_test

/-- What makes a `sleep_on` untimely also makes the thread that calls it test in vain. -/
theorem untimely (h : Paired wait .enter q P Q) (hq : q.Sleepy) (hQ : ¬ Q) : P :=
  (h.either (.inl rfl) hq).resolve_right hQ

end Paired

end NetStack.Tcp
