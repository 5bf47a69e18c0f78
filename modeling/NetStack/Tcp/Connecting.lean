import NetStack.Lib.Run
import NetStack.Tcp.Bookkeeping

/-! What `tcp_sock_connect` returns (`tcp_sock_connect` in `tcp_sock.c`, `sleep_on` in
`include/synch_wait.h`, `tcp_scan_retrans_timer_list` in `tcp_timer.c`).

The call sleeps once and then returns its port, however it was woken. The timer that gives
up on the SYN marks `wait_connect` dead and wakes it too, and `sleep_on` says so, but nobody
looks at what it returns. A connect that returns a port has its connection as long as no
timer gives up before the SYN is answered, and no wait ends on its own (`truthful_iff`). -/
namespace NetStack.Tcp

/-- `struct synch_wait`, less the lock and the condition variable. -/
structure WaitConnect where
  notified : Bool
  dead : Bool
  sleep : Bool
deriving DecidableEq, Repr

/-- Where `tcp_sock_connect` stands: before each thing it does, waiting for a signal and
woken in `sleep_on`, or back with its result. -/
inductive ConnectPc
  | port | setTimer | sendSyn | setState | hash | sleep | waiting | woken
  | returned (result : Int)
deriving DecidableEq, Repr

/-- The socket in `tcp_sock_connect`; whether lookups find it, and whether its
retransmission timer has been set; and whether `tcp_process` has moved it to
`TCP_ESTABLISHED`. -/
structure Connect where
  tsk : TcpSock
  wait : WaitConnect
  pc : ConnectPc
  hashed : Bool
  timed : Bool
  established : Bool

namespace Connect
open TcpSock

/-- A fresh socket. -/
def start : Connect := ⟨allocTcpSock, ⟨false, false, false⟩, .port, false, false, false⟩

/-- `wait_exit`. -/
def waitExit (c : Connect) : Connect :=
  if c.wait.dead then c
  else
    { c with
      wait := { c.wait with dead := true }
      pc := if c.wait.sleep && c.pc = .waiting then .woken else c.pc }

/-- `wake_up`. -/
def wakeUp (c : Connect) : Connect :=
  if c.wait.dead || c.wait.notified then c
  else
    { c with
      wait := { c.wait with notified := true }
      pc := if c.wait.sleep && c.pc = .waiting then .woken else c.pc }

/-- `sleep_on` from the wait on, and the return of `tcp_sock_connect`. -/
def awake (c : Connect) (sport : U16) : Connect :=
  { c with wait := { c.wait with notified := false, sleep := false }, pc := .returned sport.toNat }

/-- `sleep_on` up to the wait. -/
def sleepOn (c : Connect) (sport : U16) : Connect :=
  if c.wait.dead then { c with pc := .returned sport.toNat }
  else if c.wait.notified then c.awake sport
  else { c with wait := { c.wait with sleep := true }, pc := .waiting }

/-- What happens: the call goes on, a packet comes for the socket, the scan comes to its
timer, or the wait ends without a signal. -/
inductive Event
  | advance
  | packet (now : Int) (iss : U32) (sleeps : List (List Nat)) (cb : TcpCb)
  | scan
  | spurious

instance (tsk : TcpSock) : Decidable tsk.GivesUp := inferInstanceAs (Decidable (_ ∧ _ ∧ _))

/-- The 4-tuple of the connection, with the port that `tcp_get_port` finds, and whether the
established table has it already. -/
structure Request where
  sip : U32
  sport : U16
  dip : U32
  dport : U16
  taken : Bool

section

variable (r : Request)

/-- `tcp_sock_connect` from one place to the next. -/
def advance (c : Connect) : Option Connect :=
  match c.pc with
  | .port =>
    if r.sport = 0 then some { c with pc := .returned (-1) }
    else some { c with
      tsk := { c.tsk with skSip := r.sip, skSport := r.sport, skDip := r.dip, skDport := r.dport }
      pc := .setTimer }
  | .setTimer => some { c with tsk := c.tsk.setRetransTimer, timed := true, pc := .sendSyn }
  | .sendSyn => some { c with tsk := (c.tsk.sendControlPacket tcpSyn).1, pc := .setState }
  | .setState => some { c with tsk := { c.tsk with state := .synSent }, pc := .hash }
  | .hash => some { c with hashed := c.tsk.state ≠ .closed ∧ r.taken = false, pc := .sleep }
  | .sleep => some (c.sleepOn r.sport)
  | .waiting => none
  | .woken => some (c.awake r.sport)
  | .returned _ => none

/-- `tcp_process` on the socket; the branch that establishes it is the one that calls `wake_up`. -/
def packet (c : Connect) (now : Int) (iss : U32) (sleeps : List (List Nat)) (cb : TcpCb) : Option Connect :=
  if c.hashed then
    match tcpProcess now 0 iss none sleeps c.tsk cb with
    | none => none
    | some outcome =>
      let connected := c.tsk.state = .synSent ∧ outcome.tsk.state = .established
      let c' : Connect := { c with
        tsk := outcome.tsk
        hashed := !outcome.unhash
        established := c.established || connected }
      some (if connected then c'.wakeUp else c')
  else none

/-- `tcp_scan_retrans_timer_list` at the socket's timer. No unlinking takes it off the list,
once it is linked twice. -/
def scan (c : Connect) : Option Connect :=
  if c.timed then
    let c' : Connect := { c with tsk := c.tsk.scanRetransTimer.1 }
    some (if c.tsk.GivesUp then c'.waitExit else c')
  else none

def step (c : Connect) : Event → Option Connect
  | .advance => c.advance r
  | .packet now iss sleeps cb => c.packet now iss sleeps cb
  | .scan => c.scan
  | .spurious => if c.pc = .waiting then some { c with pc := .woken } else none

def Step (c : Connect) (e : Event) (c' : Connect) : Prop := c.step r e = some c'

/-- However far the call goes on by itself, it returns a port only if the socket was
established. -/
def Truthful (c : Connect) : Prop :=
  ∀ n c' result, runAll (step r) c (List.replicate n .advance) = some c' →
    c'.pc = .returned result → 0 ≤ result → c'.established = true

end

/-- The timer does not give up on the SYN before it is answered, nor does the wait end
by itself. -/
def Patient (c : Connect) : Event → Prop
  | .advance | .packet _ _ _ _ => True
  | .scan => c.timed = true → c.tsk.GivesUp → c.established = true
  | .spurious => c.pc = .waiting → c.established = true

/-- What holds until the socket is established: nothing ends the sleep. -/
structure Unanswered (c : Connect) : Prop where
  dead : c.wait.dead = false
  notified : c.wait.notified = false
  woken : c.pc ≠ .woken
  returned : ∀ result, c.pc = .returned result → result < 0
  state : c.tsk.state = .closed ∨ c.tsk.state = .synSent ∧ (c.pc = .hash ∨ c.pc = .sleep ∨ c.pc = .waiting)
  waiting : c.pc = .waiting → c.wait.sleep = true

def Sound (c : Connect) : Prop := c.established = false → c.Unanswered

variable {r : Request} {c c' : Connect} {e : Event}

/-! ### One step -/

theorem advance_established (hstep : c.advance r = some c') :
    c'.established = c.established := by
  unfold Connect.advance at hstep
  split at hstep
  case h_1 => split at hstep <;> cases hstep <;> rfl
  case h_6 =>
    cases hstep
    unfold sleepOn
    split
    · rfl
    · split <;> rfl
  all_goals cases hstep <;> rfl

theorem Unanswered.advance (h : c.Unanswered) (hstep : c.advance r = some c') :
    c'.Unanswered := by
  obtain ⟨hdead, hnotified, hwoken, hreturned, hstate, hwaiting⟩ := h
  unfold Connect.advance at hstep
  split at hstep
  · rename_i hpc
    have hclosed : c.tsk.state = .closed := by simpa [hpc] using hstate
    split at hstep
    · cases hstep
      exact ⟨hdead, hnotified, by simp, by simp, .inl hclosed, by simp⟩
    · cases hstep
      exact ⟨hdead, hnotified, by simp, by simp, .inl hclosed, by simp⟩
  · rename_i hpc
    have hclosed : c.tsk.state = .closed := by simpa [hpc] using hstate
    cases hstep
    refine ⟨hdead, hnotified, by simp, by simp, .inl ?_, by simp⟩
    dsimp only
    rw [setRetransTimer_eq]
    exact hclosed
  · rename_i hpc
    have hclosed : c.tsk.state = .closed := by simpa [hpc] using hstate
    cases hstep
    exact ⟨hdead, hnotified, by simp, by simp, .inl ((control_state c.tsk tcpSyn).trans hclosed), by simp⟩
  · cases hstep
    exact ⟨hdead, hnotified, by simp, by simp, .inr ⟨rfl, by simp⟩, by simp⟩
  · cases hstep
    exact ⟨hdead, hnotified, by simp, by simp, hstate.imp_right fun h => ⟨h.1, by simp⟩, by simp⟩
  · cases hstep
    simp only [sleepOn, hdead, hnotified, Bool.false_eq_true, if_false]
    exact ⟨rfl, rfl, by simp, by simp, hstate.imp_right fun h => ⟨h.1, by simp⟩, by simp⟩
  · cases hstep
  · rename_i hpc
    exact absurd hpc hwoken
  · cases hstep

/-- A packet for a socket that is closed does nothing, and one for a socket that has sent its
SYN leaves it there, closes it, or establishes it. -/
theorem tcpProcess_unanswered {now : Int} {iss : U32} {sleeps : List (List Nat)} {tsk : TcpSock} {cb : TcpCb}
    {outcome : Outcome} (hstate : tsk.state = .closed ∨ tsk.state = .synSent)
    (h : tcpProcess now 0 iss none sleeps tsk cb = some outcome) :
    outcome.tsk.state = .closed ∨ tsk.state = .synSent ∧
      (outcome.tsk.state = .synSent ∨ outcome.tsk.state = .established) := by
  unfold tcpProcess at h
  rcases hstate with hclosed | hsent
  · left
    split at h
    · cases h
      simp [sockClose, hclosed, only]
    · simp only [hclosed] at h
      cases h
      exact hclosed
  · split at h
    · cases h
      exact .inl (by simp [sockClose, hsent, only])
    · simp only [hsent] at h
      cases h
      refine .inr ⟨hsent, ?_⟩
      unfold processSynSent
      split
      · exact .inr (control_state _ tcpAck)
      · exact .inl hsent

theorem Unanswered.packet (h : c.Unanswered) {now : Int} {iss : U32} {sleeps : List (List Nat)} {cb : TcpCb}
    (hstep : c.packet now iss sleeps cb = some c') (hnot : c'.established = false) : c'.Unanswered := by
  obtain ⟨hdead, hnotified, hwoken, hreturned, hstate, hwaiting⟩ := h
  unfold Connect.packet at hstep
  split at hstep
  swap
  · cases hstep
  split at hstep
  · cases hstep
  rename_i outcome hout
  dsimp only at hstep
  split at hstep
  · -- `wake_up` keeps the mark
    rename_i hconnected
    cases hstep
    unfold wakeUp at hnot
    split at hnot <;> simp [hconnected] at hnot
  · rename_i hconnected
    cases hstep
    have hafter := tcpProcess_unanswered (hstate.imp_right And.left) hout
    refine ⟨hdead, hnotified, hwoken, hreturned, ?_, hwaiting⟩
    rcases hafter with hclosed | ⟨hsent, hstill | hopen⟩
    · exact .inl hclosed
    · exact .inr ⟨hstill, (hstate.resolve_left (by simp [hsent])).2⟩
    · exact absurd ⟨hsent, hopen⟩ hconnected

theorem Unanswered.scan (h : c.Unanswered) (hgives : ¬ c.tsk.GivesUp) (hstep : c.scan = some c') :
    c'.Unanswered := by
  obtain ⟨hdead, hnotified, hwoken, hreturned, hstate, hwaiting⟩ := h
  unfold Connect.scan at hstep
  split at hstep
  · cases hstep
    have hkept := (scanRetransTimer_placed c.tsk).2.2 hgives
    exact ⟨hdead, hnotified, hwoken, hreturned, by rwa [hkept], hwaiting⟩
  · cases hstep

/-- Once established, always established. -/
theorem established_step (hestablished : c.established = true)
    (hstep : Step r c e c') : c'.established = true := by
  unfold Step step at hstep
  cases e with
  | advance => exact (advance_established hstep).trans hestablished
  | packet now iss sleeps cb =>
    dsimp only [Connect.packet] at hstep
    split at hstep
    swap
    · cases hstep
    split at hstep
    · cases hstep
    · rename_i outcome hout
      obtain rfl := Option.some.inj hstep
      split
      · unfold wakeUp
        split <;> simp [hestablished]
      · simp [hestablished]
  | scan =>
    dsimp only [Connect.scan] at hstep
    split at hstep
    swap
    · cases hstep
    · obtain rfl := Option.some.inj hstep
      split
      · unfold waitExit
        split <;> exact hestablished
      · exact hestablished
  | spurious =>
    dsimp only at hstep
    split at hstep <;> cases hstep
    exact hestablished

/-- **A patient step keeps the call asleep** until the socket is established. -/
theorem Sound.step (h : c.Sound) (hpatient : c.Patient e) (hstep : Step r c e c') :
    c'.Sound := by
  intro hnot
  have hbefore : c.established = false := by
    by_contra hestablished
    rw [established_step (by simpa using hestablished) hstep] at hnot
    cases hnot
  have hunanswered := h hbefore
  cases e with
  | advance => exact hunanswered.advance hstep
  | packet now iss sleeps cb => exact hunanswered.packet hstep hnot
  | scan =>
    have hstep : c.scan = some c' := hstep
    have htimed : c.timed = true := by
      unfold Connect.scan at hstep
      by_contra htimed
      simp [htimed] at hstep
    refine hunanswered.scan (fun hgives => ?_) hstep
    rw [hpatient htimed hgives] at hbefore
    cases hbefore
  | spurious =>
    dsimp only [Step, Connect.step] at hstep
    split at hstep
    · rename_i hpc
      rw [hpatient hpc] at hbefore
      cases hbefore
    · cases hstep

/-! ### Runs -/

theorem patient_advance (n : Nat) (c : Connect) :
    Along (Step r) Patient c (List.replicate n .advance) := by
  induction n generalizing c with
  | zero => trivial
  | succ n ih => exact ⟨trivial, fun c' _ => ih c'⟩

theorem Sound.truthful (h : c.Sound) : c.Truthful r := by
  intro n c' result hrun hreturned hresult
  have hsound : c'.Sound := (Run.of_runAll hrun).invariant
    (fun _ _ _ h hpatient hstep => h.step hpatient hstep) (patient_advance n c) h
  by_contra hnot
  exact absurd hresult (not_le.mpr ((hsound (by simpa using hnot)).returned result hreturned))

/-- A call whose sleep is ended returns its port, whether the socket is established or not. -/
theorem not_truthful (hnot : c.established = false)
    (hended : c.pc = .woken ∨ c.wait.dead = true ∧ (c.pc = .hash ∨ c.pc = .sleep)) :
    ¬ c.Truthful r := by
  intro h
  have hfalse : ∀ n c', runAll (step r) c (List.replicate n .advance) = some c' →
      c'.pc = .returned r.sport.toNat → c'.established = c.established → False := by
    intro n c' hrun hpc hsame
    have htrue := h n c' _ hrun hpc (Int.natCast_nonneg _)
    rw [hsame, hnot] at htrue
    cases htrue
  rcases hended with hwoken | ⟨hdead, hhash | hsleep⟩
  · refine hfalse 1 (c.awake r.sport) ?_ rfl rfl
    simp [runAll, Connect.step, Connect.advance, hwoken]
  · let c' : Connect := { c with hashed := c.tsk.state ≠ .closed ∧ r.taken = false, pc := .sleep }
    refine hfalse 2 { c' with pc := .returned r.sport.toNat } ?_ rfl rfl
    simp [runAll, Connect.step, Connect.advance, hhash, sleepOn, hdead, c']
  · refine hfalse 1 { c with pc := .returned r.sport.toNat } ?_ rfl rfl
    simp [runAll, Connect.step, Connect.advance, hsleep, sleepOn, hdead]

/-- A step that is not patient ends the sleep of a call that is not answered. -/
theorem Sound.breaks (h : c.Sound) (hnot : ¬ c.Patient e) :
    ∃ c', Step r c e c' ∧ ¬ c'.Truthful r := by
  cases e with
  | advance => exact absurd trivial hnot
  | packet now iss sleeps cb => exact absurd trivial hnot
  | scan =>
    simp only [Patient, Classical.not_imp, Bool.not_eq_true] at hnot
    obtain ⟨htimed, hgives, hnot⟩ := hnot
    obtain ⟨hdead, -, -, -, hstate, hwaiting⟩ := h hnot
    have hpc := (hstate.resolve_left hgives.2.1).2
    refine ⟨({ c with tsk := c.tsk.scanRetransTimer.1 } : Connect).waitExit, ?_, not_truthful ?_ ?_⟩
    · simp [Step, Connect.step, Connect.scan, htimed, hgives]
    · simp [waitExit, hdead, hnot]
    · simp only [waitExit, hdead, Bool.false_eq_true, if_false]
      rcases hpc with hpc | hpc | hpc
      · simp [hpc]
      · simp [hpc]
      · simp [hpc, hwaiting hpc]
  | spurious =>
    simp only [Patient, Classical.not_imp, Bool.not_eq_true] at hnot
    obtain ⟨hpc, hnot⟩ := hnot
    refine ⟨{ c with pc := .woken }, ?_, not_truthful hnot (.inl rfl)⟩
    simp [Step, Connect.step, hpc]

theorem sound_start : start.Sound := fun _ =>
  ⟨rfl, rfl, by decide, (fun _ hpc => nomatch hpc), .inl rfl, by decide⟩

/-- **A connect tells the truth** throughout a run exactly if the timer does not give up, and
the wait not end by itself, before the socket is established. -/
theorem truthful_iff (r : Request) (events : List Event) :
    Throughout (Step r) (Truthful r) start events ↔
      Along (Step r) Patient start events :=
  throughout_iff_along (fun _ h => h.truthful) (fun _ _ _ h hpatient hstep => h.step hpatient hstep)
    (fun _ _ h hnot => h.breaks hnot) sound_start events

/-! ### A SYN that is never answered -/

/-- The number of scans from timeout `n` to the next. -/
def patience : Nat → Nat
  | 0 => 20
  | n + 1 => 20 * (2 * 2 ^ (n + 1))

/-- The call waits, the timer was over `n` times and will be after `m` more scans. -/
structure Silent (c : Connect) (n m : Nat) : Prop where
  timeout : c.tsk.retransTimer.timeout = tcpRetransScanInterval * m
  retransTime : c.tsk.retransTimer.retransTime = n
  state : c.tsk.state = .synSent
  pc : c.pc = .waiting
  wait : c.wait = ⟨false, false, true⟩
  timed : c.timed = true
  established : c.established = false

variable {n m : Nat}

theorem Silent.scan (h : c.Silent n m) (hm : 1 < m) :
    ∃ c', Step r c .scan c' ∧ c'.Silent n (m - 1) := by
  obtain ⟨htimeout, htime, hstate, hpc, hwait, htimed, hestablished⟩ := h
  have hinterval : tcpRetransScanInterval = 10000 := rfl
  have hleft : ¬ c.tsk.retransTimer.timeout - tcpRetransScanInterval ≤ 0 := by
    rw [htimeout, hinterval]
    omega
  have hgives : ¬ c.tsk.GivesUp := fun hgives => hleft hgives.1
  refine ⟨{ c with tsk := c.tsk.scanRetransTimer.1 }, ?_, ?_⟩
  · simp [Step, Connect.step, Connect.scan, htimed, hgives]
  · have hscan : c.tsk.scanRetransTimer.1 = { c.tsk with retransTimer := { c.tsk.retransTimer with
        timeout := c.tsk.retransTimer.timeout - tcpRetransScanInterval } } := by
      unfold scanRetransTimer
      dsimp only
      rw [if_neg fun hdue => hleft hdue.1]
    rw [hscan]
    refine ⟨?_, htime, hstate, hpc, hwait, htimed, hestablished⟩
    dsimp only
    rw [htimeout, hinterval]
    omega

theorem retransSendBufferPacket_timer (tsk : TcpSock) :
    tsk.retransSendBufferPacket.1.retransTimer = tsk.retransTimer := by
  unfold retransSendBufferPacket
  split <;> rfl

theorem Silent.timeout_step (h : c.Silent n 1) (hn : n < 8) :
    ∃ c', Step r c .scan c' ∧ c'.Silent (n + 1) (patience (n + 1)) := by
  obtain ⟨htimeout, htime, hstate, hpc, hwait, htimed, hestablished⟩ := h
  have hdue : c.tsk.retransTimer.timeout - tcpRetransScanInterval ≤ 0 ∧ c.tsk.state ≠ .closed := by
    rw [htimeout, hstate]
    exact ⟨by omega, by decide⟩
  have hfew : ¬ c.tsk.retransTimer.retransTime ≥ 8 := by omega
  have hgives : ¬ c.tsk.GivesUp := fun hgives => hfew hgives.2.2
  have hkept := (scanRetransTimer_placed c.tsk).2.2 hgives
  refine ⟨{ c with tsk := c.tsk.scanRetransTimer.1 }, ?_, ?_⟩
  · simp [Step, Connect.step, Connect.scan, htimed, hgives]
  · have htimer : c.tsk.scanRetransTimer.1.retransTimer = { c.tsk.retransTimer with
        retransTime := c.tsk.retransTimer.retransTime + 1
        timeout := tcpRetransIntervalInitial * (2 * 2 ^ (c.tsk.retransTimer.retransTime + 1).toNat) } := by
      unfold scanRetransTimer
      dsimp only
      rw [if_pos hdue, if_neg hfew]
      rw [retransSendBufferPacket_timer]
    have hexp : ((n : Int) + 1).toNat = n + 1 := by omega
    refine ⟨?_, ?_, hkept.trans hstate, hpc, hwait, htimed, hestablished⟩
    · dsimp only
      rw [htimer, htime, hexp]
      simp only [tcpRetransIntervalInitial, tcpRetransScanInterval, patience]
      push_cast
      ring
    · dsimp only
      rw [htimer, htime]
      rfl

theorem Silent.scans (h : c.Silent n m) {k : Nat} (hk : k < m) :
    ∃ c', Run (Step r) c (List.replicate k .scan) c' ∧ c'.Silent n (m - k) := by
  induction k with
  | zero => exact ⟨c, .nil c, h⟩
  | succ k ih =>
    obtain ⟨c', hrun, hc'⟩ := ih (by omega)
    obtain ⟨c'', hstep, hc''⟩ := hc'.scan (r := r) (by omega)
    rw [List.replicate_succ']
    exact ⟨c'', hrun.snoc hstep, hc''⟩

/-- The scans of the first `n` timeouts. -/
def timeouts : Nat → List Event
  | 0 => []
  | n + 1 => timeouts n ++ (List.replicate (patience n - 1) .scan ++ [.scan])

theorem patience_pos (n : Nat) : 0 < patience n := by
  cases n <;> simp [patience]

theorem Silent.timeouts (h : c.Silent 0 (patience 0)) (hn : n ≤ 8) :
    ∃ c', Run (Step r) c (timeouts n) c' ∧ c'.Silent n (patience n) := by
  induction n with
  | zero => exact ⟨c, .nil c, h⟩
  | succ n ih =>
    obtain ⟨c', hrun, hc'⟩ := ih (by omega)
    have hpos := patience_pos n
    obtain ⟨last, hscans, hlast⟩ := hc'.scans (r := r) (k := patience n - 1) (by omega)
    rw [show patience n - (patience n - 1) = 1 by omega] at hlast
    obtain ⟨c'', hstep, hc''⟩ := hlast.timeout_step (r := r) (by omega)
    exact ⟨c'', hrun.append (hscans.snoc hstep), hc''⟩

def synRequest : Request := ⟨1, 12345, 2, 80, false⟩

/-- The ninth timeout ends a connect to a host that does not answer, and it returns port
12345 over a socket that is closed. -/
theorem unanswered_connect_returns : ¬ Throughout (Step synRequest) (Truthful synRequest) start
    (List.replicate 6 .advance ++ timeouts 8 ++ List.replicate (patience 8 - 1) .scan ++ [.scan]) := by
  intro h
  have hsleep : ((runAll (step synRequest) start (List.replicate 6 .advance)).isSome) = true := by decide
  have hrun := Run.of_isSome hsleep
  have hsilent : ((runAll (step synRequest) start (List.replicate 6 .advance)).get hsleep).Silent 0
      (patience 0) :=
    ⟨rfl, rfl, rfl, rfl, rfl, rfl, rfl⟩
  obtain ⟨c, hretry, hc⟩ := hsilent.timeouts (r := synRequest) (le_refl 8)
  obtain ⟨last, hscans, hlast⟩ := hc.scans (r := synRequest) (k := patience 8 - 1) (by decide)
  have hgives : last.tsk.GivesUp := by
    refine ⟨?_, by rw [hlast.state]; decide, by rw [hlast.retransTime]; decide⟩
    rw [hlast.timeout]
    decide
  have hsound : last.Sound := fun _ =>
    ⟨by rw [hlast.wait], by rw [hlast.wait], by rw [hlast.pc]; decide, (fun _ hpc => by simp [hlast.pc] at hpc),
      .inr ⟨hlast.state, .inr (.inr hlast.pc)⟩, fun _ => by rw [hlast.wait]⟩
  obtain ⟨c', hstep, hnot⟩ := hsound.breaks (r := synRequest) (e := .scan) fun hpatient => by
      have := hpatient hlast.timed hgives
      simp [hlast.established] at this
  exact hnot (h.last (((hrun.append hretry).append hscans).snoc hstep))

end Connect

end NetStack.Tcp
