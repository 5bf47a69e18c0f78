import NetStack.Lib.LinkedList
import NetStack.Lib.Run
import NetStack.Tcp.Sock

/-! The list of retransmission timers (`tcp_set_retrans_timer`, `tcp_update_retrans_timer`,
`tcp_unset_retrans_timer` in `tcp_timer.c` of `EXP18-TCP_Stack_4/code/18-tcp_stack`).

`enable` is to tell a timer that is on the list from one that is not, and nothing sets it.
So every set and every update links the timer's node in at the tail, wherever it is, and
every unset has its node's old neighbours link past it, whatever lies between them now.
The list keeps the timers it should have as long as no timer is linked in that is on it and
no node is unlinked past others (`timer_list_iff`). -/
namespace NetStack.Tcp
open LinkedList (Heap Node OnList Adjacent)

/-- The sockets, and `retrans_timer_list` with the node `retrans_timer.list` of each. -/
structure TimerList where
  socks : Nat → TcpSock
  nodes : Heap Unit Nat

/-- A call for the timer of a socket. -/
inductive TimerCall
  | set (id : Nat)
  | update (id : Nat)
  | unset (id : Nat)
deriving DecidableEq, Repr

namespace TimerCall

def sock : TimerCall → Nat
  | .set id | .update id | .unset id => id

/-- The call puts the timer on the list. -/
def arms : TimerCall → Bool
  | .set _ | .update _ => true
  | .unset _ => false

/-- The last of the calls for a socket puts its timer on the list. -/
def armed (calls : List TimerCall) (id : Nat) : Bool :=
  ((calls.filter fun call => call.sock = id).getLast?.map arms).getD false

theorem armed_snoc (calls : List TimerCall) (call : TimerCall) (id : Nat) :
    armed (calls ++ [call]) id = if call.sock = id then call.arms else armed calls id := by
  unfold armed
  rw [List.filter_append]
  split
  · rename_i hid
    simp [hid]
  · rename_i hid
    simp [hid]

end TimerCall

open TimerCall

namespace TimerList

/-- Fresh sockets and an empty list. Their own nodes may link anywhere: a child's is a copy
of its listener's. -/
def start (links : Nat → Node Unit Nat × Node Unit Nat) : TimerList where
  socks _ := allocTcpSock
  nodes
    | .head _ => ⟨some (.head ()), some (.head ())⟩
    | .entry id => ⟨some (links id).1, some (links id).2⟩

/-- The node's part of `tcp_set_retrans_timer`. -/
def link (nodes : Heap Unit Nat) (id : Nat) : Option (Heap Unit Nat) :=
  (nodes.init (.entry id)).addTail (.entry id) (.head ())

/-- `tcp_set_retrans_timer`. -/
def setRetransTimer (l : TimerList) (id : Nat) : Option TimerList :=
  if (l.socks id).retransTimer.enable then some l
  else
    (link l.nodes id).map fun nodes => ⟨Function.update l.socks id (l.socks id).setRetransTimer, nodes⟩

/-- `tcp_update_retrans_timer`. -/
def updateRetransTimer (l : TimerList) (id : Nat) : Option TimerList :=
  (if (l.socks id).retransTimer.enable then some l else l.setRetransTimer id).map fun linked =>
    { linked with socks := Function.update l.socks id (l.socks id).updateRetransTimer }

/-- `tcp_unset_retrans_timer`. -/
def unsetRetransTimer (l : TimerList) (id : Nat) : Option TimerList :=
  (l.nodes.deleteEntry (.entry id)).map fun nodes => { l with nodes }

def call (l : TimerList) : TimerCall → Option TimerList
  | .set id => l.setRetransTimer id
  | .update id => l.updateRetransTimer id
  | .unset id => l.unsetRetransTimer id

/-- No timer is enabled. -/
def Disabled (l : TimerList) : Prop := ∀ id, (l.socks id).retransTimer.enable = false

variable {l l' : TimerList} {id : Nat}

theorem setRetransTimer_disabled {tsk : TcpSock} (h : tsk.retransTimer.enable = false) :
    tsk.setRetransTimer.retransTimer.enable = false ∧ tsk.updateRetransTimer.retransTimer.enable = false := by
  simp [TcpSock.setRetransTimer, TcpSock.updateRetransTimer, h]

theorem Disabled.update (h : l.Disabled) {tsk : TcpSock} (htsk : tsk.retransTimer.enable = false) :
    ∀ other, (Function.update l.socks id tsk other).retransTimer.enable = false := by
  intro other
  by_cases hid : other = id
  · rw [hid, Function.update_self]
    exact htsk
  · rw [Function.update_of_ne hid]
    exact h other

/-- A set or update links the node in, and no timer comes to be enabled. -/
theorem call_arms (h : l.Disabled) {c : TimerCall} (harms : c.arms = true) :
    (l.call c = none ∧ link l.nodes c.sock = none) ∨
      ∃ l', l.call c = some l' ∧ link l.nodes c.sock = some l'.nodes ∧ l'.Disabled := by
  have htsk := fun id => setRetransTimer_disabled (h id)
  cases c with
  | set id =>
    simp only [call, setRetransTimer, h id, sock, Bool.false_eq_true, if_false]
    cases link l.nodes id with
    | none => exact .inl ⟨rfl, rfl⟩
    | some nodes => exact .inr ⟨_, rfl, rfl, h.update (htsk id).1⟩
  | update id =>
    simp only [call, updateRetransTimer, setRetransTimer, h id, sock, Bool.false_eq_true, if_false]
    cases link l.nodes id with
    | none => exact .inl ⟨rfl, rfl⟩
    | some nodes => exact .inr ⟨_, rfl, rfl, h.update (htsk id).2⟩
  | unset id => cases harms

end TimerList

/-- The list and the calls so far. -/
structure TimerLog where
  list : TimerList
  calls : List TimerCall

namespace TimerLog
open TimerList

def Step (s : TimerLog) (c : TimerCall) (t : TimerLog) : Prop :=
  ∃ l, s.list.call c = some l ∧ t = ⟨l, s.calls ++ [c]⟩

/-- The list's links, both ways, go once through the timers whose last call put them on it,
and through no others. -/
def Kept (s : TimerLog) : Prop :=
  ∃ ids, OnList s.list.nodes () ids ∧ ∀ id, id ∈ ids ↔ armed s.calls id = true

/-- The head of the list, or a timer that should be on it. -/
def OnRing (s : TimerLog) : Node Unit Nat → Prop
  | .head _ => True
  | .entry id => armed s.calls id = true

/-- A timer that is set or updated is not on the list; one that is unset is on it, or the
nodes its own still links to are, as far as they are on the list, next to each other. -/
def Settled (s : TimerLog) (c : TimerCall) : Prop :=
  if c.arms then armed s.calls c.sock = false
  else armed s.calls c.sock = true ∨ ∀ p q, (s.list.nodes (.entry c.sock)).prev = some p →
    (s.list.nodes (.entry c.sock)).next = some q → Adjacent s.list.nodes s.OnRing p q

/-- What the calls keep. -/
structure Sound (s : TimerLog) : Prop where
  disabled : s.list.Disabled
  total : s.list.nodes.Total
  kept : s.Kept

variable {s t : TimerLog} {c : TimerCall} {ids : List Nat}

theorem onRing_iff (hids : ∀ id, id ∈ ids ↔ armed s.calls id = true) (n : Node Unit Nat) :
    s.OnRing n ↔ n ∈ (.head () :: ids.map .entry : List (Node Unit Nat)) := by
  cases n with
  | head u => simp [OnRing]
  | entry id => simp [OnRing, hids]

theorem onRing_eq (hids : ∀ id, id ∈ ids ↔ armed s.calls id = true) :
    s.OnRing = (· ∈ (.head () :: ids.map .entry : List (Node Unit Nat))) :=
  funext fun n => propext (onRing_iff hids n)

/-- Without null pointers every node can be linked in. -/
theorem link_total {nodes : Heap Unit Nat} (htotal : nodes.Total) (id : Nat) :
    ∃ nodes', link nodes id = some nodes' ∧ nodes'.Total := by
  have hinit := htotal.init (.entry id)
  obtain ⟨tail, htail⟩ := (hinit (.head ())).2
  unfold link Heap.addTail
  rw [htail]
  exact ⟨_, rfl, hinit.insert _ _ _⟩

/-! ### One call -/

/-- Setting or updating a timer that is not on the list puts it there. -/
theorem Sound.arm (h : s.Sound) (harms : c.arms = true) (hoff : armed s.calls c.sock = false)
    (hstep : Step s c t) : t.Sound := by
  obtain ⟨l, hcall, rfl⟩ := hstep
  obtain ⟨ids, hes, hids⟩ := h.kept
  rcases call_arms h.disabled harms with ⟨hnone, -⟩ | ⟨l', hsome, hlink, hdisabled⟩
  · rw [hnone] at hcall
    cases hcall
  obtain rfl := Option.some.inj (hsome.symm.trans hcall)
  obtain ⟨nodes, hlinked, htotal⟩ := link_total h.total c.sock
  obtain rfl := Option.some.inj (hlinked.symm.trans hlink)
  have hnotin : c.sock ∉ ids := by
    rw [hids, hoff]
    exact Bool.false_ne_true
  have hinit : OnList (s.list.nodes.init (.entry c.sock)) () ids := by
    refine hes.congr fun n hn => Function.update_of_ne ?_ ..
    intro heq
    obtain rfl := heq
    simp at hn
    exact hnotin hn
  have hrep : LinkedList.Represents (s.list.nodes.init (.entry c.sock)) fun _ => ids := fun _ => hinit
  obtain ⟨nodes, hadd, hrep', -⟩ := hrep.addTail (fun _ => hnotin) ()
  obtain rfl := Option.some.inj (hadd.symm.trans hlink)
  refine ⟨hdisabled, htotal, ids ++ [c.sock], ?_, fun id => ?_⟩
  · have hlist := hrep' ()
    rwa [Function.update_self] at hlist
  · rw [armed_snoc]
    by_cases hid : c.sock = id
    · simp [hid, harms]
    · simp [hid, Ne.symm hid, hids]

/-- Setting or updating a timer that is on the list breaks the list. -/
theorem Sound.not_rearm (h : s.Sound) (harms : c.arms = true) (hon : armed s.calls c.sock = true) :
    ∃ t, Step s c t ∧ ¬ t.Kept := by
  obtain ⟨ids, hes, hids⟩ := h.kept
  obtain ⟨nodes, hlinked, -⟩ := link_total h.total c.sock
  rcases call_arms h.disabled harms with ⟨-, hnone⟩ | ⟨l', hsome, hlink, -⟩
  · rw [hnone] at hlinked
    cases hlinked
  refine ⟨_, ⟨l', hsome, rfl⟩, ?_⟩
  intro hyp
  obtain ⟨fs, hfs, hfids⟩ := hyp
  refine hes.not_addTail ((hids c.sock).mpr hon) hlink hfs fun id hid => ?_
  rw [hfids, armed_snoc]
  split
  · exact harms
  · exact (hids id).mp hid

/-- Unsetting a timer links its node's two neighbours past it. -/
theorem Sound.unset_eq (h : s.Sound) (hunset : c.arms = false) :
    ∃ p q, (s.list.nodes (.entry c.sock)).prev = some p ∧ (s.list.nodes (.entry c.sock)).next = some q ∧
      s.list.nodes.deleteEntry (.entry c.sock) =
        some ((s.list.nodes.setPrev q (some p)).setNext p (some q)) ∧
      s.list.call c =
        some { s.list with nodes := (s.list.nodes.setPrev q (some p)).setNext p (some q) } := by
  obtain ⟨⟨q, hq⟩, p, hp⟩ := h.total (.entry c.sock)
  have hdelete := Heap.deleteEntry_eq hq hp
  refine ⟨p, q, hp, hq, hdelete, ?_⟩
  cases c with
  | unset id =>
    simp only [call, unsetRetransTimer, sock] at hdelete ⊢
    rw [hdelete]
    rfl
  | _ => cases hunset

/-- Unsetting a timer that is on the list takes it off. -/
theorem Sound.disarm (h : s.Sound) (hunset : c.arms = false) (hon : armed s.calls c.sock = true)
    (hstep : Step s c t) : t.Sound := by
  obtain ⟨l, hcall, rfl⟩ := hstep
  obtain ⟨ids, hes, hids⟩ := h.kept
  obtain ⟨p, q, -, -, hdelete, heq⟩ := h.unset_eq hunset
  obtain rfl := Option.some.inj (heq.symm.trans hcall)
  have hrep : LinkedList.Represents s.list.nodes fun _ => ids := fun _ => hes
  obtain ⟨nodes, hrun, hrep', -⟩ := hrep.deleteEntry (t := ()) ((hids c.sock).mpr hon)
  obtain rfl := Option.some.inj (hrun.symm.trans hdelete)
  refine ⟨h.disabled, h.total.unlink p q, ids.erase c.sock, ?_, fun id => ?_⟩
  · have hlist := hrep' ()
    rwa [Function.update_self] at hlist
  · rw [armed_snoc, hes.nodup.mem_erase_iff]
    by_cases hid : c.sock = id
    · simp [hid, hunset]
    · simp [hid, Ne.symm hid, hids]

theorem armed_unset (hunset : c.arms = false) (hoff : armed s.calls c.sock = false) (id : Nat) :
    armed (s.calls ++ [c]) id = armed s.calls id := by
  rw [armed_snoc]
  split
  · rename_i hid
    rw [← hid, hoff, hunset]
  · rfl

/-- Unsetting a timer that is not on the list keeps the list exactly if its node's old
neighbours are, as far as they are on it, next to each other. -/
theorem Sound.unset_iff (h : s.Sound) (hunset : c.arms = false) (hoff : armed s.calls c.sock = false) :
    (∀ t, Step s c t → t.Sound) ↔ Settled s c := by
  obtain ⟨ids, hes, hids⟩ := h.kept
  obtain ⟨p, q, hp, hq, -, hcall⟩ := h.unset_eq hunset
  have hsettled : Settled s c ↔ Adjacent s.list.nodes s.OnRing p q := by
    unfold Settled
    simp only [hunset, hoff, Bool.false_eq_true, if_false, false_or]
    constructor
    · exact fun hyp => hyp p q hp hq
    · intro hadj p' q' hp' hq'
      obtain rfl := Option.some.inj (hp.symm.trans hp')
      obtain rfl := Option.some.inj (hq.symm.trans hq')
      exact hadj
  rw [hsettled, onRing_eq hids]
  constructor
  · intro hsound
    obtain ⟨fs, hfs, hfids⟩ := (hsound _ ⟨_, hcall, rfl⟩).kept
    refine hes.adjacent_of_unlink hfs fun id => ?_
    rw [hfids, hids, armed_unset hunset hoff]
  · intro hadj t hall
    obtain ⟨l, hrun, rfl⟩ := hall
    obtain rfl := Option.some.inj (hcall.symm.trans hrun)
    refine ⟨h.disabled, h.total.unlink p q, ids, hes.unlink hadj, fun id => ?_⟩
    rw [hids, armed_unset hunset hoff]

/-- A call that is not in order breaks the list. -/
theorem Sound.breaks (h : s.Sound) (hnot : ¬ Settled s c) : ∃ t, Step s c t ∧ ¬ t.Kept := by
  cases harms : c.arms with
  | true =>
    apply h.not_rearm harms
    by_contra hon
    exact hnot (by simpa [Settled, harms] using hon)
  | false =>
    have hoff : armed s.calls c.sock = false := by
      by_contra hon
      exact hnot (by simp [Settled, harms, Bool.eq_true_of_not_eq_false hon])
    obtain ⟨p, q, -, -, -, hcall⟩ := h.unset_eq harms
    refine ⟨_, ⟨_, hcall, rfl⟩, fun hkept => hnot ((h.unset_iff harms hoff).mp ?_)⟩
    intro t hyp
    obtain ⟨l, hrun, rfl⟩ := hyp
    obtain rfl := Option.some.inj (hcall.symm.trans hrun)
    exact ⟨h.disabled, h.total.unlink p q, hkept⟩

theorem Sound.step (h : s.Sound) (hsettled : Settled s c) (hstep : Step s c t) : t.Sound := by
  cases harms : c.arms with
  | true => exact h.arm harms (by simpa [Settled, harms] using hsettled) hstep
  | false =>
    cases hon : armed s.calls c.sock with
    | true => exact h.disarm harms hon hstep
    | false => exact (h.unset_iff harms hon).mpr hsettled t hstep

/-! ### Runs -/

def start (links : Nat → Node Unit Nat × Node Unit Nat) : TimerLog := ⟨.start links, []⟩

theorem sound_start (links : Nat → Node Unit Nat × Node Unit Nat) : (start links).Sound where
  disabled _ := rfl
  total n := by
    cases n with
    | head u => exact ⟨⟨_, rfl⟩, _, rfl⟩
    | entry id => exact ⟨⟨_, rfl⟩, _, rfl⟩
  kept := ⟨[], ⟨⟨rfl, rfl⟩, List.nodup_nil⟩, fun id => by simp [armed, start]⟩

/-- **The timer list is well formed**, and has the timers it should have, throughout a run of
calls exactly if every call is in order. -/
theorem timer_list_iff (links : Nat → Node Unit Nat × Node Unit Nat) (calls : List TimerCall) :
    Throughout Step Kept (start links) calls ↔ Along Step Settled (start links) calls :=
  throughout_iff_along (fun _ h => h.kept) (fun _ _ _ h hsettled hstep => h.step hsettled hstep)
    (fun _ _ h hnot => h.breaks hnot) (sound_start links) calls

/-- The timer of a fresh socket set and then updated, as by a connect and its SYN. -/
theorem timer_list_broken :
    ¬ Throughout Step Kept (start fun id => (.entry id, .entry id)) [.set 0, .update 0] := by
  intro h
  have hfirst : Step (start fun id => (.entry id, .entry id)) (.set 0) _ := ⟨_, rfl, rfl⟩
  have hsound := (sound_start _).arm rfl rfl hfirst
  obtain ⟨t, hsecond, hnot⟩ := hsound.not_rearm (c := .update 0) rfl rfl
  exact hnot ((h.2 _ hfirst).2 t hsecond)

end TimerLog

end NetStack.Tcp
