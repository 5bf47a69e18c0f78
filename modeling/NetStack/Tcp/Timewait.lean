import NetStack.Lib.Run
import NetStack.Tcp.In

/-! `TIME_WAIT` (`tcp_set_timewait_timer`, `tcp_scan_timer_list` in `tcp_timer.c` of
`EXP18-TCP_Stack_4/code/18-tcp_stack`).

The time a socket is put in `TIME_WAIT` is kept in seconds and multiplied by a million as an
`int`, which from 2148 seconds after 1970 on is too much. What is left of it lies so far
before the clock that the timer is due at the first scan (`due_iff`). -/
namespace NetStack.Tcp
open TcpSock

/-- The last second whose product with `TCP_MSL` is an `int`. -/
def lastSecond : Int := 2147

/-- When a timer started at second `t` is due. -/
theorem due_iff {timer : TcpTimer} {t now : Int} (henable : timer.enable = true)
    (htimeout : timer.timeout = t) (hstart : 0 ≤ t) (hle : t ≤ now) :
    timer.due now = true ↔ lastSecond < t ∨ 2 < now - t := by
  have hlast : lastSecond = 2147 := rfl
  simp only [TcpTimer.due, henable, htimeout, Bool.true_and, decide_eq_true_eq, tcpMsl, tcpTimewaitTimeout]
  by_cases hlow : t ≤ 2147
  · rw [toCInt_eq (by omega) (by omega)]
    omega
  · -- the product lost at least one multiple of 2^32
    have hlost : toCInt (t * 1000000) ≤ t * 1000000 - 2 ^ 32 := by
      rw [toCInt, Int.bmod_def]
      split <;> omega
    omega

/-- The sockets and `timer_list`, with the clock, and when each socket was put in
`TIME_WAIT`. -/
structure Waiting where
  socks : Nat → TcpSock
  timerList : List Nat
  clock : Int
  since : Nat → Int

namespace Waiting

/-- Any sockets, before any timer is set. -/
def start (socks : Nat → TcpSock) : Waiting := ⟨socks, [], 0, fun _ => 0⟩

/-- A packet to a socket in `TCP_FIN_WAIT_2`. -/
def receive (w : Waiting) (id : Nat) (now : Int) (cb : TcpCb) : Option Waiting :=
  if (w.socks id).state = .finWait2 then
    let outcome := (w.socks id).processFinWait2 now cb
    let w := { w with socks := Function.update w.socks id outcome.tsk, clock := now }
    if hasFlag cb.flags tcpFin then
      some { w with timerList := w.timerList ++ [id], since := Function.update w.since id now }
    else some w
  else none

/-- The loop of `tcp_scan_timer_list`, less `tcp_bind_unhash`: the sockets, and the timers
left on the list. -/
def scanTimers (now : Int) : List Nat → (Nat → TcpSock) → (Nat → TcpSock) × List Nat
  | [], socks => (socks, [])
  | id :: rest, socks =>
    if (socks id).timewait.due now then
      scanTimers now rest (Function.update socks id { socks id with state := .closed })
    else
      let (socks, left) := scanTimers now rest socks
      (socks, id :: left)

/-- `tcp_scan_timer_list`. -/
def scanTimerList (w : Waiting) (now : Int) : Waiting :=
  let (socks, timerList) := scanTimers now w.timerList w.socks
  { w with socks, timerList, clock := now }

/-- A packet to a socket in `TCP_FIN_WAIT_2`, or a scan, and the time in seconds. -/
inductive Event
  | receive (id : Nat) (now : Int) (cb : TcpCb)
  | scan (now : Int)

def Event.now : Event → Int
  | .receive _ now _ | .scan now => now

def step (w : Waiting) : Event → Option Waiting
  | .receive id now cb => w.receive id now cb
  | .scan now => some (w.scanTimerList now)

abbrev Step (w : Waiting) (e : Event) (w' : Waiting) : Prop := w.step e = some w'

/-- The clock does not go back, and is not beyond 2038. -/
def InTime (w : Waiting) (e : Event) : Prop := w.clock ≤ e.now ∧ e.now < 2 ^ 31

instance (w : Waiting) (e : Event) : Decidable (InTime w e) := inferInstanceAs (Decidable (_ ∧ _))

/-- A scan closes the sockets in `TIME_WAIT` that have been there for more than two seconds,
and no others. -/
def Lasts (w : Waiting) : Event → Prop
  | .receive _ _ _ => True
  | .scan now => ∀ id, id ∈ w.timerList → (w.socks id).state = .timeWait →
      (((w.scanTimerList now).socks id).state = .closed ↔ 2 < now - w.since id)

/-- A scan within two seconds finds only timers started in the first 2147 seconds. -/
def Early (w : Waiting) : Event → Prop
  | .receive _ _ _ => True
  | .scan now => ∀ id ∈ w.timerList, w.since id ≤ lastSecond ∨ 2 < now - w.since id

/-! ### One scan -/

variable {w w' : Waiting} {e : Event} {now : Int}

/-- The loop leaves on the list the timers that are not due, and closes the sockets of the
others. -/
theorem scanTimers_eq (now : Int) {ids : List Nat} (hnodup : ids.Nodup) (socks : Nat → TcpSock) :
    (scanTimers now ids socks).2 = ids.filter (fun id => !(socks id).timewait.due now) ∧
      ∀ id, (scanTimers now ids socks).1 id =
        if id ∈ ids ∧ (socks id).timewait.due now = true then { socks id with state := .closed } else socks id := by
  induction ids generalizing socks with
  | nil => exact ⟨rfl, fun id => by simp [scanTimers]⟩
  | cons first rest ih =>
    obtain ⟨hnot, hnodup⟩ := List.nodup_cons.mp hnodup
    unfold scanTimers
    split
    · rename_i hdue
      obtain ⟨hleft, hsocks⟩ := ih hnodup (Function.update socks first { socks first with state := .closed })
      have hother : ∀ id, id ≠ first →
          Function.update socks first { socks first with state := .closed } id = socks id :=
        fun id hid => Function.update_of_ne hid ..
      refine ⟨?_, fun id => ?_⟩
      · rw [hleft, List.filter_cons_of_neg (by simp [hdue])]
        refine List.filter_congr fun id hid => ?_
        rw [hother id fun heq => hnot (heq ▸ hid)]
      · rw [hsocks]
        by_cases hid : id = first
        · subst hid
          rw [if_neg fun h => hnot h.1, Function.update_self, if_pos ⟨List.mem_cons_self, hdue⟩]
        · rw [hother id hid]
          simp [hid]
    · rename_i hdue
      obtain ⟨hleft, hsocks⟩ := ih hnodup socks
      refine ⟨?_, fun id => ?_⟩
      · rw [List.filter_cons_of_pos (by simpa using hdue), ← hleft]
      · refine (hsocks id).trans ?_
        by_cases hid : id = first
        · subst hid
          rw [if_neg fun h => hdue h.2, if_neg fun h => hdue h.2]
        · simp [hid]

/-- The timers on the list are enabled, hold the second they were started, and are those of
sockets in `TIME_WAIT`. -/
structure Sound (w : Waiting) : Prop where
  clock : 0 ≤ w.clock
  nodup : w.timerList.Nodup
  state : ∀ id ∈ w.timerList, (w.socks id).state = .timeWait
  enable : ∀ id ∈ w.timerList, (w.socks id).timewait.enable = true
  timeout : ∀ id ∈ w.timerList, (w.socks id).timewait.timeout = w.since id
  since : ∀ id ∈ w.timerList, 0 ≤ w.since id ∧ w.since id ≤ w.clock

theorem Sound.due_iff (h : w.Sound) {id : Nat} (hid : id ∈ w.timerList) (htime : w.InTime (.scan now)) :
    (w.socks id).timewait.due now = true ↔ lastSecond < w.since id ∨ 2 < now - w.since id := by
  obtain ⟨hstart, hle⟩ := h.since id hid
  exact Tcp.due_iff (h.enable id hid) (h.timeout id hid) hstart (hle.trans htime.1)

/-- A scan closes a socket in `TIME_WAIT` if its timer is due. -/
theorem Sound.scan_closes (h : w.Sound) {id : Nat} (hid : id ∈ w.timerList) :
    ((w.scanTimerList now).socks id).state = .closed ↔ (w.socks id).timewait.due now = true := by
  have hsock := (scanTimers_eq now h.nodup w.socks).2 id
  rw [show (w.scanTimerList now).socks id = _ from hsock]
  split
  · rename_i hdue
    exact iff_of_true rfl hdue.2
  · rename_i hnot
    rw [h.state id hid]
    exact iff_of_false (by decide) fun hdue => hnot ⟨hid, hdue⟩

theorem Sound.lasts_iff (h : w.Sound) (htime : w.InTime e) : w.Lasts e ↔ w.Early e := by
  cases e with
  | receive id now cb => exact Iff.rfl
  | scan now =>
    constructor
    · intro hlasts id hid
      have hdue := (h.scan_closes hid).symm.trans (hlasts id hid (h.state id hid))
      by_contra hearly
      obtain ⟨hlate, hshort⟩ := not_or.mp hearly
      exact hshort (hdue.mp ((h.due_iff hid htime).mpr (.inl (not_le.mp hlate))))
    · intro hearly id hid _
      rw [h.scan_closes hid, h.due_iff hid htime]
      exact or_iff_right_of_imp fun hlate => (hearly id hid).resolve_left (not_le.mpr hlate)

/-! ### Runs -/

theorem Sound.scan (h : w.Sound) (htime : w.InTime (.scan now)) : (w.scanTimerList now).Sound := by
  obtain ⟨hleft, hsocks⟩ := scanTimers_eq now h.nodup w.socks
  have hkept : ∀ id ∈ (w.scanTimerList now).timerList,
      id ∈ w.timerList ∧ (w.scanTimerList now).socks id = w.socks id := by
    intro id hid
    rw [show (w.scanTimerList now).timerList = _ from hleft, List.mem_filter] at hid
    refine ⟨hid.1, (hsocks id).trans (if_neg fun hdue => ?_)⟩
    simp [hdue.2] at hid
  refine ⟨h.clock.trans htime.1, ?_, fun id hid => ?_, fun id hid => ?_, fun id hid => ?_, fun id hid => ?_⟩
  · rw [show (w.scanTimerList now).timerList = _ from hleft]
    exact h.nodup.filter _
  · rw [(hkept id hid).2]
    exact h.state id (hkept id hid).1
  · rw [(hkept id hid).2]
    exact h.enable id (hkept id hid).1
  · rw [(hkept id hid).2]
    exact h.timeout id (hkept id hid).1
  · obtain ⟨hstart, hle⟩ := h.since id (hkept id hid).1
    exact ⟨hstart, hle.trans htime.1⟩

/-- Nothing happens to the sockets on the list but that a scan closes them. -/
theorem Sound.other (h : w.Sound) {id : Nat} (hstate : (w.socks id).state = .finWait2) (tsk : TcpSock)
    (hclock : w.clock ≤ now) : { w with socks := Function.update w.socks id tsk, clock := now }.Sound := by
  have hother : ∀ other ∈ w.timerList, Function.update w.socks id tsk other = w.socks other := by
    intro other hmem
    refine Function.update_of_ne ?_ ..
    intro heq
    obtain rfl := heq
    cases hstate.symm.trans (h.state other hmem)
  refine ⟨h.clock.trans hclock, h.nodup, fun other hmem => ?_, fun other hmem => ?_, fun other hmem => ?_,
    fun other hmem => ⟨(h.since other hmem).1, (h.since other hmem).2.trans hclock⟩⟩
  · exact (congrArg TcpSock.state (hother other hmem)).trans (h.state other hmem)
  · exact (congrArg (fun tsk => tsk.timewait.enable) (hother other hmem)).trans (h.enable other hmem)
  · exact (congrArg (fun tsk => tsk.timewait.timeout) (hother other hmem)).trans (h.timeout other hmem)

theorem Sound.receive (h : w.Sound) {id : Nat} {cb : TcpCb} (htime : w.InTime (.receive id now cb))
    (hstep : w.receive id now cb = some w') : w'.Sound := by
  unfold Waiting.receive at hstep
  split at hstep
  swap
  · cases hstep
  rename_i hstate
  have hsound := h.other hstate ((w.socks id).processFinWait2 now cb).tsk htime.1
  dsimp only at hstep
  split at hstep
  swap
  · cases hstep
    exact hsound
  rename_i hfin
  cases hstep
  have hnotin : id ∉ w.timerList := by
    intro hmem
    cases hstate.symm.trans (h.state id hmem)
  have hne : ∀ other ∈ w.timerList, other ≠ id := by
    intro other hmem heq
    obtain rfl := heq
    exact hnotin hmem
  have hnow : 0 ≤ now := h.clock.trans htime.1
  -- the socket itself, with the timer just set
  have hself : ((w.socks id).processFinWait2 now cb).tsk.state = .timeWait ∧
      ((w.socks id).processFinWait2 now cb).tsk.timewait.enable = true ∧
      ((w.socks id).processFinWait2 now cb).tsk.timewait.timeout = now := by
    have hint : toCInt now = now := toCInt_eq (by omega) htime.2
    simp [processFinWait2, hfin, only, setTimewaitTimer, hint]
  have hsnoc : ∀ {P : Nat → Prop}, (∀ other ∈ w.timerList, P other) → P id → ∀ other ∈ w.timerList ++ [id], P other := by
    intro P hold hnew other hmem
    rcases List.mem_append.mp hmem with hmem | hmem
    · exact hold other hmem
    · rw [List.mem_singleton.mp hmem]
      exact hnew
  refine ⟨hsound.clock, ?_, hsnoc hsound.state ?_, hsnoc hsound.enable ?_, hsnoc ?_ ?_, hsnoc ?_ ?_⟩
  · exact List.nodup_append.mpr ⟨h.nodup, List.nodup_singleton id, fun a ha b hb hab =>
      hnotin (List.mem_singleton.mp hb ▸ hab ▸ ha)⟩
  · simpa using hself.1
  · simpa using hself.2.1
  · intro other hmem
    exact (hsound.timeout other hmem).trans (Function.update_of_ne (hne other hmem) now w.since).symm
  · simpa using hself.2.2
  · intro other hmem
    dsimp only
    rw [Function.update_of_ne (hne other hmem)]
    exact hsound.since other hmem
  · simpa using hnow

theorem Sound.step (h : w.Sound) (htime : w.InTime e) (hstep : Step w e w') : w'.Sound := by
  cases e with
  | receive id now cb => exact h.receive htime hstep
  | scan now =>
    cases hstep
    exact h.scan htime

theorem sound_start (socks : Nat → TcpSock) : (start socks).Sound := by
  constructor <;> simp [start]

/-- **`TIME_WAIT` lasts** two seconds along a run exactly if no scan within two seconds finds
a timer started later than 2147 seconds after 1970. -/
theorem timewait_lasts_iff (socks : Nat → TcpSock) (events : List Event)
    (htime : Along Step InTime (start socks) events) :
    Along Step Lasts (start socks) events ↔ Along Step Early (start socks) events :=
  along_iff_of (fun _ _ _ h htime _ hstep => h.step htime hstep) (fun _ _ h htime => h.lasts_iff htime)
    (sound_start socks) htime

/-- A socket that waits for the FIN. -/
def finWaiting : TcpSock := { allocTcpSock with state := .finWait2 }

/-- The FIN. -/
def finCb : TcpCb := ⟨1, 2, 80, 12345, 7, 8, 1, 65535, tcpFin ||| tcpAck, []⟩

theorem timewait_lasts_once : Along Step Lasts (start fun _ => finWaiting) [.receive 0 100 finCb, .scan 103] ↔
    Along Step Early (start fun _ => finWaiting) [.receive 0 100 finCb, .scan 103] := by
  refine timewait_lasts_iff _ _ ⟨by decide, fun w hw => ?_⟩
  cases hw
  exact ⟨by decide, fun _ _ => trivial⟩

/-- In 2023 the socket is closed in the second it was put in `TIME_WAIT`. -/
theorem timewait_cut_short : Along Step InTime (start fun _ => finWaiting)
      [.receive 0 1700000000 finCb, .scan 1700000000] ∧
    ¬ Along Step Lasts (start fun _ => finWaiting) [.receive 0 1700000000 finCb, .scan 1700000000] := by
  refine ⟨⟨by decide, fun w hw => ?_⟩, fun h => ?_⟩
  · cases hw
    exact ⟨by decide, fun _ _ => trivial⟩
  · have hscan := (h.2 _ rfl).1 0 (by decide) (by decide)
    exact absurd (hscan.mp (by decide)) (by decide)

end Waiting

end NetStack.Tcp
