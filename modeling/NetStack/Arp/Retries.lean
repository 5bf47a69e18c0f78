import NetStack.Arp.Pending
import NetStack.Lib.Run
import Mathlib.Data.List.Dedup

/-! When the router gives an address up (`arpcache.c` of `EXP07-Router/07-router`).

Its queues are for an address only, and a packet that joins one sends a request of its own,
which counts as a retry. The count is all that `arpcache_sweep` looks at, and packets can run it
up within a second: host unreachable comes too early if and only if too many have come in
seconds in which the address had been asked for already (`late_iff`).

The sweeper gives the lock back while it sends a message, so it goes entry by entry, and other
packets may come in between. Replies are left out. -/
namespace NetStack.Router
open Arp (IfaceInfo arpRequestMaxRetries icmpDestUnreach icmpHostUnreach)

/-- `struct cached_pkt`. -/
structure CachedPkt where
  packet : Nat
  len : Int
deriving DecidableEq, Repr

/-- `struct arp_req`. -/
structure ArpReq where
  iface : IfaceInfo
  ip4 : U32
  sent : Int
  retries : Nat
  cachedPackets : List CachedPkt
deriving DecidableEq, Repr

/-- What happens to an address: an entry is made, a packet comes for it, a request or host
unreachable is sent, the entry is deleted with the packets still in it. -/
inductive Item
  | made (ip4 : U32)
  | packet (now : Int) (ip4 : U32)
  | request (now : Int) (iface : IfaceInfo) (ip4 : U32)
  | unreach (ip4 : U32) (pkt : CachedPkt) (type code : U8)
  | deleted (ip4 : U32) (left : List CachedPkt)
deriving DecidableEq, Repr

/-- Where the sweeper is: asleep; at an entry, with the lock; or in `icmp_send_packet` without it,
for the first packet of an entry, and whether that packet and that entry were the last. -/
inductive Sweeper
  | asleep
  | visiting (i : Nat)
  | sending (i : Nat) (lastPkt lastReq : Bool)
deriving DecidableEq, Repr

/-- The entries, the time of the last event, and what happened, newest first. -/
structure ArpCache where
  reqList : List ArpReq
  sweeper : Sweeper
  now : Int
  trace : List Item
deriving DecidableEq, Repr

inductive Event
  | append (now : Int) (iface : IfaceInfo) (ip4 : U32) (pkt : CachedPkt)
  | wake
  | visit (now : Int)
  | resume

/-! ### The code -/

/-- A packet at the tail of an entry, and a request sent for it. -/
def ArpReq.addPkt (req : ArpReq) (now : Int) (pkt : CachedPkt) : ArpReq :=
  { req with cachedPackets := req.cachedPackets ++ [pkt], retries := req.retries + 1, sent := now }

/-- `arpcache_append_packet`. -/
def appendPacket (s : ArpCache) (now : Int) (iface : IfaceInfo) (ip4 : U32) (pkt : CachedPkt) : ArpCache :=
  match s.reqList.findIdx? fun req => req.ip4 = ip4 with
  | some i =>
    { s with
      reqList := s.reqList.modify i fun req => req.addPkt now pkt
      now
      trace := .request now iface ip4 :: .packet now ip4 :: s.trace }
  | none =>
    { s with
      reqList := s.reqList ++ [(⟨iface, ip4, 0, 0, []⟩ : ArpReq).addPkt now pkt]
      now
      trace := .request now iface ip4 :: .packet now ip4 :: .made ip4 :: s.trace }

/-- The sweeper is to ask again. -/
def ArpReq.Due (now : Int) (req : ArpReq) : Prop := now - req.sent > 1 ∧ req.retries ≤ arpRequestMaxRetries

instance (now : Int) (req : ArpReq) : Decidable (req.Due now) := inferInstanceAs (Decidable (_ ∧ _))

/-- The entry after the first `if` of the sweeper, -/
def ArpReq.resend (now : Int) (req : ArpReq) : ArpReq :=
  if req.Due now then { req with sent := now, retries := req.retries + 1 } else req

/-- and what that sends. -/
def ArpReq.resent (now : Int) (req : ArpReq) : List Item :=
  if req.Due now then [.request now req.iface req.ip4] else []

/-- The end of the inner loop. -/
def deleteReq (s : ArpCache) (i : Nat) (req : ArpReq) (lastReq : Bool) : ArpCache :=
  { s with
    reqList := s.reqList.eraseIdx i
    sweeper := if lastReq then .asleep else .visiting i
    trace := .deleted req.ip4 req.cachedPackets :: s.trace }

/-- The inner loop goes on with the first packet of an entry, if there is one. -/
def sendUnreach (s : ArpCache) (i : Nat) (req : ArpReq) (lastReq : Bool) : ArpCache :=
  match req.cachedPackets with
  | [] => deleteReq s i req lastReq
  | pkt :: pkts =>
    { s with
      sweeper := .sending i pkts.isEmpty lastReq
      trace := .unreach req.ip4 pkt icmpDestUnreach icmpHostUnreach :: s.trace }

/-- The body of the outer loop, up to where the lock is given back. -/
def visitReq (s : ArpCache) (now : Int) (i : Nat) : ArpCache :=
  match s.reqList[i]? with
  | none => { s with sweeper := .asleep }
  | some req =>
    let s : ArpCache :=
      { s with reqList := s.reqList.modify i (ArpReq.resend now), now, trace := req.resent now ++ s.trace }
    if (req.resend now).retries > arpRequestMaxRetries then
      sendUnreach s i (req.resend now) (i + 1 = s.reqList.length)
    else { s with sweeper := .visiting (i + 1) }

/-- The first packet of an entry freed. -/
def ArpReq.freePkt (req : ArpReq) : ArpReq := { req with cachedPackets := req.cachedPackets.tail }

/-- The lock taken again. -/
def resumeReq (s : ArpCache) (i : Nat) (req : ArpReq) (lastPkt lastReq : Bool) : ArpCache :=
  let s : ArpCache := { s with reqList := s.reqList.modify i ArpReq.freePkt }
  if lastPkt then deleteReq s i req.freePkt lastReq else sendUnreach s i req.freePkt lastReq

/-- Time does not go back, and a packet is not appended while the sweeper has the lock. -/
def step (s : ArpCache) : Event → Option ArpCache
  | .append now iface ip4 pkt =>
    match s.sweeper with
    | .visiting _ => none
    | _ => if now < s.now then none else some (appendPacket s now iface ip4 pkt)
  | .wake =>
    match s.sweeper with
    | .asleep => some { s with sweeper := .visiting 0 }
    | _ => none
  | .visit now =>
    match s.sweeper with
    | .visiting i => if now < s.now then none else some (visitReq s now i)
    | _ => none
  | .resume =>
    match s.sweeper with
    | .sending i lastPkt lastReq => s.reqList[i]?.map fun req => resumeReq s i req lastPkt lastReq
    | _ => none

def arpcacheInit : ArpCache := ⟨[], .asleep, 0, []⟩

/-! ### What was asked -/

/-- When an address was asked for since its entry was made, the last time first. -/
def asked (ip4 : U32) : List Item → List Int
  | [] => []
  | .made ip :: trace => if ip = ip4 then [] else asked ip4 trace
  | .request now _ ip :: trace => if ip = ip4 then now :: asked ip4 trace else asked ip4 trace
  | .packet .. :: trace | .unreach .. :: trace | .deleted .. :: trace => asked ip4 trace

/-- How many packets came since then in a second in which it had been asked for already. -/
def crowded (ip4 : U32) : List Item → Nat
  | [] => 0
  | .made ip :: trace => if ip = ip4 then 0 else crowded ip4 trace
  | .packet now ip :: trace =>
    if ip = ip4 ∧ now ∈ asked ip4 trace then crowded ip4 trace + 1 else crowded ip4 trace
  | .request .. :: trace | .unreach .. :: trace | .deleted .. :: trace => crowded ip4 trace

/-- An address may be given up: enough requests, in enough different seconds. -/
def Exhausted (ip4 : U32) (trace : List Item) : Prop :=
  arpRequestMaxRetries ≤ (asked ip4 trace).length ∧ arpRequestMaxRetries ≤ (asked ip4 trace).dedup.length

/-- No packet was answered, and none dropped, before its address could be given up. -/
def Late : List Item → Prop
  | [] => True
  | .unreach ip4 .. :: trace | .deleted ip4 _ :: trace => Exhausted ip4 trace ∧ Late trace
  | .made _ :: trace | .packet .. :: trace | .request .. :: trace => Late trace

/-- Where the sweeper comes to an address that has been asked for often enough, few enough of
the requests are of packets that came in a second in which it had been asked for already. -/
def Spread (s : ArpCache) : Event → Prop
  | .visit now => ∀ i req, s.sweeper = .visiting i → s.now ≤ now → s.reqList[i]? = some req →
      let trace := req.resent now ++ s.trace
      arpRequestMaxRetries < (asked req.ip4 trace).length →
        crowded req.ip4 trace + arpRequestMaxRetries ≤ (asked req.ip4 trace).length
  | _ => True

variable {l : List ArpReq} {trace trace' : List Item} {req : ArpReq} {s t : ArpCache} {now : Int} {i : Nat}

/-! ### Entries and what happened -/

/-- An entry counts the requests, and but for the crowded packets each has its own second. -/
structure Counted (trace : List Item) (req : ArpReq) : Prop where
  sent : (asked req.ip4 trace).length = req.retries
  seconds : (asked req.ip4 trace).dedup.length + crowded req.ip4 trace = req.retries
  latest : ∀ time ∈ asked req.ip4 trace, time ≤ req.sent

/-- An address has one entry at most, and each entry counts its requests. -/
structure Tracked (l : List ArpReq) (trace : List Item) (now : Int) : Prop where
  one : ∀ (i j : Nat) (req req' : ArpReq), l[i]? = some req → l[j]? = some req' → req.ip4 = req'.ip4 → i = j
  counted : ∀ (i : Nat) (req : ArpReq), l[i]? = some req → Counted trace req ∧ req.sent ≤ now

/-- What has been added concerns one address. -/
def Only (ip4 : U32) (trace trace' : List Item) : Prop :=
  ∀ ip, ip ≠ ip4 → asked ip trace' = asked ip trace ∧ crowded ip trace' = crowded ip trace

theorem Counted.of_eq (h : Counted trace req) (hasked : asked req.ip4 trace' = asked req.ip4 trace)
    (hcrowded : crowded req.ip4 trace' = crowded req.ip4 trace) : Counted trace' req :=
  ⟨hasked ▸ h.sent, by rw [hasked, hcrowded]; exact h.seconds, hasked ▸ h.latest⟩

theorem dedup_length_cons (now : Int) (times : List Int) :
    (now :: times).dedup.length = times.dedup.length + if now ∈ times then 0 else 1 := by
  split
  · next hmem => rw [List.dedup_cons_of_mem hmem, Nat.add_zero]
  · next hnot => rw [List.dedup_cons_of_notMem hnot, List.length_cons]

/-- An entry just made has asked for nothing. -/
theorem counted_made (trace : List Item) (iface : IfaceInfo) (ip4 : U32) (now : Int) :
    Counted (.made ip4 :: trace) ⟨iface, ip4, now, 0, []⟩ := by
  have hnothing : asked ip4 (.made ip4 :: trace) = [] := if_pos rfl
  have hnobody : crowded ip4 (.made ip4 :: trace) = 0 := if_pos rfl
  constructor
  · exact congrArg List.length hnothing
  · show (asked ip4 _).dedup.length + crowded ip4 _ = 0
    rw [hnothing, hnobody]
    rfl
  · show ∀ time ∈ asked ip4 _, time ≤ now
    rw [hnothing]
    exact fun time htime => absurd htime List.not_mem_nil

/-- A packet is crowded or brings a new second. -/
theorem Counted.addPkt (h : Counted trace req) (hnow : req.sent ≤ now) (iface : IfaceInfo) (pkt : CachedPkt) :
    Counted (.request now iface req.ip4 :: .packet now req.ip4 :: trace) (req.addPkt now pkt) := by
  have hasked : asked req.ip4 (.request now iface req.ip4 :: .packet now req.ip4 :: trace) =
      now :: asked req.ip4 trace := if_pos rfl
  have hcrowded : crowded req.ip4 (.request now iface req.ip4 :: .packet now req.ip4 :: trace) =
      crowded req.ip4 trace + if now ∈ asked req.ip4 trace then 1 else 0 := by
    by_cases hmem : now ∈ asked req.ip4 trace
    · rw [crowded, crowded, if_pos ⟨rfl, hmem⟩, if_pos hmem]
    · rw [crowded, crowded, if_neg (fun hand => hmem hand.2), if_neg hmem, Nat.add_zero]
  have hsent := h.sent
  have hseconds := h.seconds
  constructor
  · show (asked req.ip4 _).length = req.retries + 1
    rw [hasked, List.length_cons, hsent]
  · show (asked req.ip4 _).dedup.length + crowded req.ip4 _ = req.retries + 1
    rw [hasked, hcrowded, dedup_length_cons]
    split <;> omega
  · show ∀ time ∈ asked req.ip4 _, time ≤ now
    rw [hasked]
    intro time htime
    rcases List.mem_cons.mp htime with rfl | htime
    · exact le_refl time
    · exact (h.latest time htime).trans hnow

/-- What the sweeper sends always brings one. -/
theorem Counted.resend (h : Counted trace req) (now : Int) : Counted (req.resent now ++ trace) (req.resend now) := by
  unfold ArpReq.resend ArpReq.resent
  split
  · next hdue =>
    have hasked : asked req.ip4 (.request now req.iface req.ip4 :: trace) = now :: asked req.ip4 trace := if_pos rfl
    have hnew : now ∉ asked req.ip4 trace := by
      intro hmem
      have hlatest := h.latest now hmem
      have hgap := hdue.1
      omega
    have hsent := h.sent
    have hseconds := h.seconds
    constructor
    · show (asked req.ip4 _).length = req.retries + 1
      rw [List.singleton_append, hasked, List.length_cons, hsent]
    · show (asked req.ip4 _).dedup.length + crowded req.ip4 trace = req.retries + 1
      rw [List.singleton_append, hasked, dedup_length_cons, if_neg hnew]
      omega
    · show ∀ time ∈ asked req.ip4 _, time ≤ now
      rw [List.singleton_append, hasked]
      intro time htime
      rcases List.mem_cons.mp htime with rfl | htime
      · exact le_refl time
      · have hlatest := h.latest time htime
        have hgap := hdue.1
        omega
  · exact h

/-- An address may be given up exactly if few enough of the packets were crowded. -/
theorem Counted.exhausted_iff (h : Counted trace req) :
    Exhausted req.ip4 trace ↔
      crowded req.ip4 trace + arpRequestMaxRetries ≤ (asked req.ip4 trace).length := by
  have hsent := h.sent
  have hseconds := h.seconds
  rw [Exhausted]
  constructor
  · intro hexhausted
    have hspread := hexhausted.2
    omega
  · intro hcrowded
    exact ⟨by omega, by omega⟩

/-! ### The list -/

/-- One entry changed, with what happened to its address. -/
theorem Tracked.modify {f : ArpReq → ArpReq} {now' : Int} (h : Tracked l trace now) (hi : l[i]? = some req)
    (hip : ∀ req, (f req).ip4 = req.ip4) (honly : Only req.ip4 trace trace') (hnow : now ≤ now')
    (hreq : Counted trace' (f req) ∧ (f req).sent ≤ now') : Tracked (l.modify i f) trace' now' := by
  have hold : ∀ j req', (l.modify i f)[j]? = some req' →
      ∃ old, l[j]? = some old ∧ req' = if i = j then f old else old := by
    intro j req' hj
    rw [List.getElem?_modify] at hj
    obtain ⟨old, hold, rfl⟩ := Option.map_eq_some_iff.mp hj
    exact ⟨old, hold, rfl⟩
  constructor
  · intro j k req₁ req₂ hj hk heq
    obtain ⟨old₁, hold₁, rfl⟩ := hold j req₁ hj
    obtain ⟨old₂, hold₂, rfl⟩ := hold k req₂ hk
    refine h.one j k old₁ old₂ hold₁ hold₂ ?_
    rw [apply_ite ArpReq.ip4, apply_ite ArpReq.ip4, hip, hip, ite_self, ite_self] at heq
    exact heq
  · intro j req' hj
    obtain ⟨old, hat, rfl⟩ := hold j req' hj
    by_cases hij : i = j
    · rw [← hij, hi] at hat
      rw [if_pos hij, ← Option.some.inj hat]
      exact hreq
    · rw [if_neg hij]
      have hne : old.ip4 ≠ req.ip4 := fun heq => hij (h.one i j req old hi hat heq.symm)
      obtain ⟨hcounted, hsent⟩ := h.counted j old hat
      exact ⟨hcounted.of_eq (honly _ hne).1 (honly _ hne).2, hsent.trans hnow⟩

/-- An entry added for an address that has none. -/
theorem Tracked.concat {now' : Int} (h : Tracked l trace now) (hnone : ∀ old ∈ l, old.ip4 ≠ req.ip4)
    (honly : Only req.ip4 trace trace') (hnow : now ≤ now') (hreq : Counted trace' req ∧ req.sent ≤ now') :
    Tracked (l ++ [req]) trace' now' := by
  have hold : ∀ j req', (l ++ [req])[j]? = some req' → l[j]? = some req' ∨ j = l.length ∧ req' = req := by
    intro j req' hj
    rw [List.getElem?_append] at hj
    split at hj
    · exact Or.inl hj
    · next hge =>
      have hlen := (List.getElem?_eq_some_iff.mp hj).1
      rw [List.length_singleton] at hlen
      have hzero : j - l.length = 0 := by omega
      rw [hzero] at hj
      exact Or.inr ⟨by omega, (Option.some.inj hj).symm⟩
  constructor
  · intro j k req₁ req₂ hj hk heq
    rcases hold j req₁ hj with hat | ⟨hj', rfl⟩
    · rcases hold k req₂ hk with hat' | ⟨-, rfl⟩
      · exact h.one j k req₁ req₂ hat hat' heq
      · exact absurd heq (hnone req₁ (List.mem_of_getElem? hat))
    · rcases hold k req₂ hk with hat' | ⟨hk', -⟩
      · exact absurd heq.symm (hnone req₂ (List.mem_of_getElem? hat'))
      · exact hj'.trans hk'.symm
  · intro j req' hj
    rcases hold j req' hj with hat | ⟨-, rfl⟩
    · have hne := hnone req' (List.mem_of_getElem? hat)
      obtain ⟨hcounted, hsent⟩ := h.counted j req' hat
      exact ⟨hcounted.of_eq (honly _ hne).1 (honly _ hne).2, hsent.trans hnow⟩
    · exact hreq

theorem Tracked.eraseIdx (h : Tracked l trace now) (i : Nat) : Tracked (l.eraseIdx i) trace now := by
  have hold : ∀ j req', (l.eraseIdx i)[j]? = some req' → l[if j < i then j else j + 1]? = some req' := by
    intro j req' hj
    rw [List.getElem?_eraseIdx] at hj
    split
    · next hlt => rwa [if_pos hlt] at hj
    · next hge => rwa [if_neg hge] at hj
  constructor
  · intro j k req₁ req₂ hj hk heq
    have hjk := h.one _ _ req₁ req₂ (hold j req₁ hj) (hold k req₂ hk) heq
    split at hjk <;> split at hjk <;> omega
  · intro j req' hj
    exact h.counted _ req' (hold j req' hj)

/-- Messages and deletions change nothing. -/
theorem Tracked.of_eq (h : Tracked l trace now) (hasked : ∀ ip, asked ip trace' = asked ip trace)
    (hcrowded : ∀ ip, crowded ip trace' = crowded ip trace) : Tracked l trace' now where
  one := h.one
  counted j req hj := ⟨(h.counted j req hj).1.of_eq (hasked _) (hcrowded _), (h.counted j req hj).2⟩

/-! ### One event -/

/-- What holds between the events of a run that gives no address up too early. -/
structure Inv (s : ArpCache) : Prop where
  tracked : Tracked s.reqList s.trace s.now
  late : Late s.trace
  sending : ∀ i lastPkt lastReq, s.sweeper = .sending i lastPkt lastReq →
    ∃ req, s.reqList[i]? = some req ∧ Exhausted req.ip4 s.trace

theorem inv_init : Inv arpcacheInit where
  tracked := ⟨fun _ _ _ _ hi => absurd hi (by simp [arpcacheInit]), fun _ _ hi => absurd hi (by simp [arpcacheInit])⟩
  late := trivial
  sending _ _ _ h := by cases h

/-- A further request takes nothing away. -/
theorem Exhausted.cons {ip4 : U32} (h : Exhausted ip4 trace) (now : Int)
    (hasked : asked ip4 trace' = now :: asked ip4 trace) : Exhausted ip4 trace' := by
  obtain ⟨hcount, hseconds⟩ := h
  rw [Exhausted, hasked, dedup_length_cons, List.length_cons]
  exact ⟨by omega, by omega⟩

theorem only_packet (ip4 : U32) (iface : IfaceInfo) :
    Only ip4 trace (.request now iface ip4 :: .packet now ip4 :: trace) := by
  intro ip hne
  refine ⟨if_neg hne.symm, ?_⟩
  rw [crowded, crowded, if_neg fun hand => hne hand.1.symm]

theorem only_made (ip4 : U32) : Only ip4 trace (.made ip4 :: trace) :=
  fun _ hne => ⟨if_neg hne.symm, if_neg hne.symm⟩

theorem only_resent (req : ArpReq) : Only req.ip4 trace (req.resent now ++ trace) := by
  intro ip hne
  unfold ArpReq.resent
  split
  · exact ⟨if_neg hne.symm, rfl⟩
  · exact ⟨rfl, rfl⟩

theorem resend_ip4 (req : ArpReq) : (req.resend now).ip4 = req.ip4 := by
  unfold ArpReq.resend
  split <;> rfl

theorem resend_sent (hsent : req.sent ≤ now) : (req.resend now).sent ≤ now := by
  unfold ArpReq.resend
  split
  · exact le_refl now
  · exact hsent

theorem late_resent (now : Int) (req : ArpReq) : Late (req.resent now ++ trace) ↔ Late trace := by
  unfold ArpReq.resent
  split <;> rfl

/-- Appending a packet. -/
theorem Inv.appendPacket (h : Inv s) (hnow : s.now ≤ now) (iface : IfaceInfo) (ip4 : U32) (pkt : CachedPkt) :
    Inv (appendPacket s now iface ip4 pkt) := by
  unfold Router.appendPacket
  split
  · next i hfind =>
    obtain ⟨hlt, hfor, -⟩ := List.findIdx?_eq_some_iff_getElem.mp hfind
    have hi : s.reqList[i]? = some s.reqList[i] := List.getElem?_eq_getElem hlt
    have hip : s.reqList[i].ip4 = ip4 := of_decide_eq_true hfor
    obtain ⟨hcounted, hsent⟩ := h.tracked.counted i _ hi
    have htracked := h.tracked.modify (f := fun req => req.addPkt now pkt) hi (fun _ => rfl)
      (only_packet s.reqList[i].ip4 iface) hnow ⟨hcounted.addPkt (hsent.trans hnow) iface pkt, le_refl now⟩
    rw [hip] at htracked
    refine ⟨htracked, h.late, fun k lastPkt lastReq hsending => ?_⟩
    obtain ⟨old, hk, hexhausted⟩ := h.sending k lastPkt lastReq hsending
    refine ⟨_, by rw [List.getElem?_modify, hk]; rfl, ?_⟩
    have hold : (if i = k then old.addPkt now pkt else old).ip4 = old.ip4 := by
      split <;> rfl
    rw [hold]
    by_cases hsame : old.ip4 = ip4
    · exact hexhausted.cons now (by rw [hsame]; exact if_pos rfl)
    · rw [Exhausted, (only_packet ip4 iface _ hsame).1]
      exact hexhausted
  · next hfind =>
    have hnone : ∀ old ∈ s.reqList, old.ip4 ≠ ip4 := by
      intro old hold heq
      exact absurd (decide_eq_true heq) (by simpa using List.findIdx?_eq_none_iff.mp hfind old hold)
    have honly : Only ip4 s.trace (.request now iface ip4 :: .packet now ip4 :: .made ip4 :: s.trace) := by
      intro ip hne
      rw [(only_packet ip4 iface ip hne).1, (only_packet ip4 iface ip hne).2]
      exact only_made ip4 ip hne
    have hcounted := (counted_made s.trace iface ip4 now).addPkt (le_refl now) iface pkt
    refine ⟨h.tracked.concat hnone honly hnow ⟨hcounted, le_refl now⟩, h.late,
      fun k lastPkt lastReq hsending => ?_⟩
    obtain ⟨old, hk, hexhausted⟩ := h.sending k lastPkt lastReq hsending
    refine ⟨old, by rw [List.getElem?_append_left (List.getElem?_eq_some_iff.mp hk).1]; exact hk, ?_⟩
    rw [Exhausted, (honly _ (hnone old (List.mem_of_getElem? hk))).1]
    exact hexhausted

/-- Giving an entry up, once it may be. -/
theorem Inv.deleteReq (htracked : Tracked s.reqList s.trace s.now) (hlate : Late s.trace)
    (hexhausted : Exhausted req.ip4 s.trace) (i : Nat) (lastReq : Bool) : Inv (deleteReq s i req lastReq) := by
  refine ⟨(htracked.eraseIdx i).of_eq (fun _ => rfl) (fun _ => rfl), ⟨hexhausted, hlate⟩, ?_⟩
  intro k lastPkt lastReq' hsending
  cases lastReq <;> cases hsending

theorem Inv.sendUnreach (htracked : Tracked s.reqList s.trace s.now) (hlate : Late s.trace)
    (hi : s.reqList[i]? = some req) (hexhausted : Exhausted req.ip4 s.trace) (lastReq : Bool) :
    Inv (sendUnreach s i req lastReq) := by
  unfold Router.sendUnreach
  split
  · exact Inv.deleteReq htracked hlate hexhausted i lastReq
  · refine ⟨htracked.of_eq (fun _ => rfl) (fun _ => rfl), ⟨hexhausted, hlate⟩, ?_⟩
    intro k lastPkt lastReq' hsending
    cases hsending
    exact ⟨req, hi, hexhausted⟩

/-- Where the sweeper looks at an entry. -/
theorem Inv.visitReq (h : Inv s) (hnow : s.now ≤ now)
    (hspread : ∀ req, s.reqList[i]? = some req →
      arpRequestMaxRetries < (asked req.ip4 (req.resent now ++ s.trace)).length →
        Exhausted req.ip4 (req.resent now ++ s.trace)) : Inv (visitReq s now i) := by
  unfold Router.visitReq
  split
  · refine ⟨h.tracked, h.late, ?_⟩
    intro k lastPkt lastReq hsending
    cases hsending
  · next req hi =>
    obtain ⟨hcounted, hsent⟩ := h.tracked.counted i req hi
    have hresend := hcounted.resend now
    have htracked := h.tracked.modify hi resend_ip4 (only_resent req) hnow ⟨hresend, resend_sent (hsent.trans hnow)⟩
    have hlate := (late_resent now req).mpr h.late
    have hi' : (s.reqList.modify i (ArpReq.resend now))[i]? = some (req.resend now) := by
      rw [List.getElem?_modify_eq, hi]
      rfl
    dsimp only
    split
    · next hretries =>
      rw [gt_iff_lt, ← hresend.sent, resend_ip4] at hretries
      have hexhausted := hspread req hi hretries
      rw [← @resend_ip4 now req] at hexhausted
      exact Inv.sendUnreach htracked hlate hi' hexhausted _
    · refine ⟨htracked, hlate, ?_⟩
      intro k lastPkt lastReq hsending
      cases hsending

/-- Where it takes the lock again. -/
theorem Inv.resumeReq {lastPkt lastReq : Bool} (h : Inv s) (hi : s.reqList[i]? = some req)
    (hexhausted : Exhausted req.ip4 s.trace) : Inv (resumeReq s i req lastPkt lastReq) := by
  obtain ⟨hcounted, hsent⟩ := h.tracked.counted i req hi
  have htracked : Tracked (s.reqList.modify i ArpReq.freePkt) s.trace s.now :=
    h.tracked.modify hi (fun _ => rfl) (fun _ _ => ⟨rfl, rfl⟩) (le_refl s.now)
      ⟨⟨hcounted.sent, hcounted.seconds, hcounted.latest⟩, hsent⟩
  have hi' : (s.reqList.modify i ArpReq.freePkt)[i]? = some req.freePkt := by
    rw [List.getElem?_modify_eq, hi]
    rfl
  have hexhausted' : Exhausted req.freePkt.ip4 s.trace := hexhausted
  unfold Router.resumeReq
  dsimp only
  split
  · exact Inv.deleteReq (s := { s with reqList := s.reqList.modify i ArpReq.freePkt }) htracked h.late hexhausted' i
      lastReq
  · exact Inv.sendUnreach (s := { s with reqList := s.reqList.modify i ArpReq.freePkt }) htracked h.late hi'
      hexhausted' lastReq

/-- When the sweeper may give an address up. -/
theorem Inv.exhausted_iff (h : Inv s) (hi : s.reqList[i]? = some req) (now : Int) :
    Exhausted req.ip4 (req.resent now ++ s.trace) ↔
      crowded req.ip4 (req.resent now ++ s.trace) + arpRequestMaxRetries ≤
        (asked req.ip4 (req.resent now ++ s.trace)).length := by
  have hexhausted := ((h.tracked.counted i req hi).1.resend now).exhausted_iff
  rwa [resend_ip4] at hexhausted

theorem Inv.step (h : Inv s) {e : Event} (hspread : Spread s e) (hstep : step s e = some t) : Inv t := by
  cases e with
  | append now iface ip4 pkt =>
    simp only [Router.step] at hstep
    split at hstep
    · cases hstep
    · split at hstep
      · cases hstep
      · next hnow =>
        cases hstep
        exact h.appendPacket (not_lt.mp hnow) iface ip4 pkt
  | wake =>
    simp only [Router.step] at hstep
    split at hstep
    · cases hstep
      refine ⟨h.tracked, h.late, ?_⟩
      intro k lastPkt lastReq hsending
      cases hsending
    · cases hstep
  | visit now =>
    simp only [Router.step] at hstep
    split at hstep
    · next i hvisiting =>
      split at hstep
      · cases hstep
      · next hnow =>
        cases hstep
        refine h.visitReq (not_lt.mp hnow) fun req hi hasked => (h.exhausted_iff hi _).mpr ?_
        exact hspread i req hvisiting (not_lt.mp hnow) hi hasked
    · cases hstep
  | resume =>
    simp only [Router.step] at hstep
    split at hstep
    · next i lastPkt lastReq hsending =>
      obtain ⟨req, hi, hexhausted⟩ := h.sending i lastPkt lastReq hsending
      rw [hi] at hstep
      cases hstep
      exact h.resumeReq hi hexhausted
    · cases hstep

/-- Where too many packets were crowded, an entry is given up too early. -/
theorem Inv.breaks (h : Inv s) {e : Event} (hspread : ¬Spread s e) :
    ∃ t, Router.step s e = some t ∧ ¬Late t.trace := by
  cases e with
  | visit now =>
    simp only [Spread, not_forall] at hspread
    obtain ⟨i, req, hvisiting, hnow, hi, hasked, hcrowded⟩ := hspread
    refine ⟨Router.visitReq s now i, by rw [Router.step, hvisiting]; exact if_neg (not_lt.mpr hnow), ?_⟩
    have hresend := (h.tracked.counted i req hi).1.resend now
    have hearly : ¬Exhausted (req.resend now).ip4 (req.resent now ++ s.trace) := by
      rw [resend_ip4, h.exhausted_iff hi]
      exact hcrowded
    have hretries : (req.resend now).retries > arpRequestMaxRetries := by
      rwa [gt_iff_lt, ← hresend.sent, resend_ip4]
    rw [Router.visitReq, hi]
    dsimp only
    rw [if_pos hretries, Router.sendUnreach]
    split
    · exact fun hlate => hearly hlate.1
    · exact fun hlate => hearly hlate.1
  | append | wake | resume => exact absurd trivial hspread

/-- **Host unreachable.** In every run no packet is answered or dropped before its address was
asked for five times in five different seconds, exactly if wherever the sweeper comes to an
address asked for more often than that few enough of the requests are of packets that were
crowded. -/
theorem late_iff (events : List Event) :
    Throughout (fun s e t => step s e = some t) (fun s => Late s.trace) arpcacheInit events ↔
      Along (fun s e t => step s e = some t) Spread arpcacheInit events :=
  throughout_iff_along (fun _ h => h.late) (fun _ _ _ h hspread hstep => h.step hspread hstep)
    (fun _ _ h hspread => h.breaks hspread) inv_init events

/-- Six packets for 10.0.3.22 in one second, and the sweeper in the next. -/
def burst : List Event :=
  (List.range 6).map (fun packet => .append 100 ⟨0, 0⟩ 0x0a000316 ⟨packet, 98⟩) ++ [.wake, .visit 101]

theorem burst_early :
    ¬∀ events, Throughout (fun s e t => step s e = some t) (fun s => Late s.trace) arpcacheInit events := by
  intro h
  have hrun : Run (fun s e t => step s e = some t) arpcacheInit burst _ := Run.of_isSome (by decide)
  have hlate := (h burst).last hrun
  exact absurd hlate.1.2 (by decide)

end NetStack.Router
