import NetStack.Arp.Pending
import Mathlib.Data.List.Basic
import Mathlib.Data.List.Perm.Basic
import Mathlib.Data.List.ReduceOption

/-! Conservation of the packets submitted.

At every moment a packet is in one of three places: sent, in a queue, or handed to ICMP as
unreachable; while a sweep hands out the queues it deleted, also in its hands (`Accounted`).
Packet number `k` is the one of the `k`-th submission, wherever it is (`Carried`).
The queues keep a count of their own: `retries` is how many ARP requests went out for a
queue, whoever sent them, and a queue is given up at five (`Queued`). -/
namespace NetStack.Arp

section
variable {α : Type} {before after : List α} {a b : α}

theorem forall_replace {P : α → Prop} (h : ∀ x ∈ before ++ a :: after, P x) (hP : P a → P b) :
    ∀ x ∈ before ++ b :: after, P x := by
  simp only [List.mem_append, List.mem_cons, or_imp, forall_and, forall_eq] at h ⊢
  exact ⟨h.1, hP h.2.1, h.2.2⟩

theorem pairwise_replace {R : α → α → Prop} (h : (before ++ a :: after).Pairwise R)
    (hleft : ∀ x, R x a → R x b) (hright : ∀ x, R a x → R b x) : (before ++ b :: after).Pairwise R := by
  simp only [List.pairwise_append, List.pairwise_cons, List.mem_cons, forall_eq_or_imp] at h ⊢
  obtain ⟨hbefore, ⟨hafter, hrest⟩, hacross⟩ := h
  exact ⟨hbefore, ⟨fun x hx => hright x (hafter x hx), hrest⟩,
    fun x hx => ⟨hleft x (hacross x hx).1, (hacross x hx).2⟩⟩

end

/-- The packets an emission carries. -/
def Sent.ids : Sent → List Nat
  | .packet _ pkt => [pkt.id]
  | .request _ _ _ => []

def ArpReq.ids (req : ArpReq) : List Nat := req.cachedPackets.map CachedPkt.id

/-- The ARP request for a queue. -/
def ArpReq.request (req : ArpReq) : Sent := .request req.iface req.ip4 req.id

/-- Two queues for different interfaces or next hops. -/
def Apart (a b : ArpReq) : Prop := ¬ (a.iface.index = b.iface.index ∧ a.ip4 = b.ip4)

/-- A packet handed to ICMP as host unreachable. -/
def unreach (pkt : CachedPkt) : IcmpCall := ⟨pkt, icmpDestUnreach, icmpHostUnreach⟩

/-- The packet is the one submitted, but for its Ethernet header. -/
def CachedPkt.Of (pkt : CachedPkt) (call : Submission) : Prop :=
  ∃ etherDhost etherShost, pkt.packet = { call.packet with etherDhost, etherShost, etherType := ethPIp }

/-- The packet is the one submitted under its number. -/
def Carries (calls : List Submission) (pkt : CachedPkt) : Prop := ∃ call, calls[pkt.id]? = some call ∧ pkt.Of call

theorem getElem?_append_some {calls : List Submission} {call : Submission} {k : Nat} (h : calls[k]? = some call)
    (more : List Submission) : (calls ++ more)[k]? = some call := by
  rw [List.getElem?_append_left (List.getElem?_eq_some_iff.mp h).1, h]

theorem Carries.append {calls : List Submission} {pkt : CachedPkt} (h : Carries calls pkt) (more : List Submission) :
    Carries (calls ++ more) pkt := by
  obtain ⟨call, hcall, hof⟩ := h
  exact ⟨call, getElem?_append_some hcall more, hof⟩

namespace ArpCache

/-- What is submitted in an event: what `icmp_send_packet` sends while the sweep hands out the
packets of the queues it deleted. -/
def submissions (s : ArpCache) : Event → List Submission
  | .send call => [call]
  | .insert _ _ => []
  | .sweep now calls =>
    (calls.take ((sweepReqs now s.reqList).2.2.flatMap ArpReq.cachedPackets).length).reduceOption

/-- All that is submitted in a run. -/
def allSubmissions (s : ArpCache) : List Event → List Submission
  | [] => []
  | e :: es => s.submissions e ++ (s.step e).allSubmissions es

/-- The packets sent, those in a queue, and those handed to ICMP. -/
def transmitted (s : ArpCache) : List Nat := s.wire.flatMap Sent.ids
def pending (s : ArpCache) : List Nat := s.reqList.flatMap ArpReq.ids
def unreached (s : ArpCache) : List Nat := s.icmp.map fun call => call.pkt.id

/-- `arpcache_insert` for this address sends nothing if no queue waits for it, and else one
that does, in order of arrival, to `mac` and from the queue's interface. -/
def ReleasesInOrder (s : ArpCache) (ip4 : U32) (mac : Mac) : Prop :=
  (∀ req ∈ s.reqList, req.ip4 ≠ ip4) ∧ (s.insert ip4 mac).wire = s.wire ∨
  ∃ req ∈ s.reqList, req.ip4 = ip4 ∧ req.ids.Pairwise (· < ·) ∧
    (s.insert ip4 mac).wire = s.wire ++ req.cachedPackets.map fun pkt =>
      .packet req.iface
        { pkt with packet := { pkt.packet with etherDhost := mac, etherShost := req.iface.mac } }

/-- Where the packets are, each as it was submitted: those that wait are in the queue of their
interface and next hop. -/
structure Carried (s : ArpCache) (hand : List CachedPkt) (calls : List Submission) : Prop where
  counted : s.submitted = calls.length
  sent : ∀ iface pkt, Sent.packet iface pkt ∈ s.wire → Carries calls pkt
  queued : ∀ req ∈ s.reqList, ∀ pkt ∈ req.cachedPackets, ∃ call, calls[pkt.id]? = some call ∧ pkt.Of call ∧
    req.isFor call.iface call.dstIp = true
  handed : ∀ call ∈ s.icmp, Carries calls call.pkt
  hand : ∀ pkt ∈ hand, Carries calls pkt

/-- What the queues are for, after these submissions. -/
structure Conserved (s : ArpCache) (calls : List Submission) : Prop where
  carried : Carried s [] calls
  located : ∀ id, s.transmitted.count id + s.pending.count id + s.unreached.count id =
    if id < s.submitted then 1 else 0
  unique : s.reqList.Pairwise Apart
  handed : s.icmp = (s.givenUp.flatMap ArpReq.cachedPackets).map unreach
  asked : ∀ req ∈ s.givenUp, s.wire.count req.request = 5
  released : ∀ ip4 mac, s.ReleasesInOrder ip4 mac

/-! ### The invariant -/

/-- Every packet submitted so far is in one place, or in the hands of a sweep. -/
structure Accounted (s : ArpCache) (hand : List CachedPkt) : Prop where
  located : ∀ id, s.transmitted.count id + s.pending.count id + s.unreached.count id +
    (hand.map CachedPkt.id).count id = if id < s.submitted then 1 else 0
  handed : s.icmp ++ hand.map unreach = (s.givenUp.flatMap ArpReq.cachedPackets).map unreach

/-- The queues are told apart, count their requests, and are in order of arrival. -/
structure Queued (s : ArpCache) : Prop where
  unique : s.reqList.Pairwise Apart
  counted : ∀ req ∈ s.reqList,
    s.wire.count req.request = req.retries ∧ req.retries ≤ arpRequestMaxRetries
  given : ∀ req ∈ s.givenUp, s.wire.count req.request = arpRequestMaxRetries
  distinct : ((s.reqList ++ s.givenUp).map ArpReq.id).Nodup
  made : ∀ req ∈ s.reqList ++ s.givenUp, req.id < s.made
  sent : ∀ iface ip4 id, Sent.request iface ip4 id ∈ s.wire → id < s.made
  ordered : ∀ req ∈ s.reqList, req.ids.Pairwise (· < ·) ∧ ∀ id ∈ req.ids, id < s.submitted

theorem conserved_of {s : ArpCache} {calls : List Submission} (hcarried : Carried s [] calls)
    (haccounted : Accounted s []) (hqueued : Queued s) : Conserved s calls where
  carried := hcarried
  located := haccounted.located
  unique := hqueued.unique
  handed := (List.append_nil _).symm.trans haccounted.handed
  asked := hqueued.given
  released := by
    intro ip4 mac
    unfold ReleasesInOrder insert
    cases hfind : s.reqList.find? fun req => req.ip4 = ip4 with
    | none => exact .inl ⟨fun req hreq => by simpa using List.find?_eq_none.mp hfind req hreq, rfl⟩
    | some req =>
      have hmem := List.mem_of_find?_eq_some hfind
      have hip : req.ip4 = ip4 := by simpa using List.find?_some hfind
      exact .inr ⟨req, hmem, hip, (hqueued.ordered req hmem).1, rfl⟩

/-! ### A packet is submitted -/

variable {s : ArpCache} {hand : List CachedPkt}

/-- A packet joins a queue in its place, or there is none for it. -/
theorem joinQueue_cases (iface : IfaceInfo) (ip4 : U32) (pkt : CachedPkt) (reqs : List ArpReq) :
    (∃ before req after, reqs = before ++ req :: after ∧ req.isFor iface ip4 = true ∧
      joinQueue iface ip4 pkt reqs =
        some (before ++ { req with cachedPackets := req.cachedPackets ++ [pkt] } :: after)) ∨
    joinQueue iface ip4 pkt reqs = none ∧ ∀ req ∈ reqs, req.isFor iface ip4 = false := by
  induction reqs with
  | nil => exact .inr ⟨rfl, by simp⟩
  | cons req rest ih =>
    unfold joinQueue
    cases hfor : req.isFor iface ip4 with
    | true => exact .inl ⟨[], req, rest, rfl, hfor, if_pos rfl⟩
    | false =>
      rw [if_neg Bool.false_ne_true]
      rcases ih with ⟨before, found, after, rfl, hfound, hjoin⟩ | ⟨hjoin, hnone⟩
      · exact .inl ⟨req :: before, found, after, rfl, hfound, by rw [hjoin]; rfl⟩
      · refine .inr ⟨by rw [hjoin]; rfl, ?_⟩
        intro other hother
        rcases List.mem_cons.mp hother with rfl | hother
        · exact hfor
        · exact hnone other hother

/-- What `iface_send_packet_by_arp` does: the packet is sent, joins a queue, or has one made
for it. -/
theorem send_cases (s : ArpCache) (call : Submission) :
    ∃ pkt : CachedPkt, pkt.id = s.submitted ∧ pkt.Of call ∧
      (s.sendPacketByArp call =
          { s with submitted := s.submitted + 1, wire := s.wire ++ [.packet call.iface pkt] } ∨
        (∃ before req after, s.reqList = before ++ req :: after ∧ req.isFor call.iface call.dstIp = true ∧
          s.sendPacketByArp call =
            { s with
              submitted := s.submitted + 1
              reqList := before ++ { req with cachedPackets := req.cachedPackets ++ [pkt] } :: after }) ∨
        ∃ req : ArpReq, req.id = s.made ∧ req.retries = 1 ∧ req.cachedPackets = [pkt] ∧
          (∀ other ∈ s.reqList, Apart req other) ∧ req.isFor call.iface call.dstIp = true ∧
          s.sendPacketByArp call =
            { s with
              submitted := s.submitted + 1
              made := s.made + 1
              reqList := req :: s.reqList
              wire := s.wire ++ [req.request] }) := by
  unfold sendPacketByArp
  dsimp only
  split
  · exact ⟨_, rfl, ⟨_, _, rfl⟩, .inl rfl⟩
  · refine ⟨⟨{ call.packet with etherShost := call.iface.mac, etherType := ethPIp }, s.submitted⟩, rfl,
      ⟨_, _, rfl⟩, ?_⟩
    unfold appendPacket
    rcases joinQueue_cases call.iface call.dstIp
      ⟨{ call.packet with etherShost := call.iface.mac, etherType := ethPIp }, s.submitted⟩ s.reqList with
      ⟨before, req, after, hreqs, hfor, hjoin⟩ | ⟨hjoin, hnone⟩
    · simp only [hjoin]
      exact .inr (.inl ⟨before, req, after, hreqs, hfor, rfl⟩)
    · simp only [hjoin]
      refine .inr (.inr ⟨_, rfl, rfl, rfl, fun other hother hsame => ?_, by simp [ArpReq.isFor], rfl⟩)
      have hfor := hnone other hother
      simp only [ArpReq.isFor, decide_eq_false_iff_not] at hfor
      exact hfor ⟨hsame.1.symm, hsame.2.symm⟩

theorem accounted_send (h : Accounted s hand) (call : Submission) :
    Accounted (s.sendPacketByArp call) hand := by
  obtain ⟨pkt, hid, -, hcases⟩ := send_cases s call
  -- one more packet is submitted, and is in one more place
  have hmore : ∀ id, [pkt.id].count id + (if id < s.submitted then 1 else 0) =
      if id < s.submitted + 1 then 1 else 0 := by
    intro id
    rw [List.count_singleton, hid]
    by_cases heq : s.submitted = id
    · simp [heq]
    · have hlt : id < s.submitted + 1 ↔ id < s.submitted := by omega
      simp [heq, hlt]
  rcases hcases with heq | ⟨before, req, after, hreqs, -, heq⟩ | ⟨req, -, -, hpkts, -, -, heq⟩
  · rw [heq]
    refine ⟨fun id => ?_, h.handed⟩
    rw [← hmore id, ← h.located id]
    simp only [transmitted, pending, unreached, List.flatMap_append, List.flatMap_cons, List.flatMap_nil,
      Sent.ids, List.append_nil, List.count_append]
    omega
  · rw [heq]
    refine ⟨fun id => ?_, h.handed⟩
    rw [← hmore id, ← h.located id]
    simp only [transmitted, pending, unreached, hreqs, List.flatMap_append, List.flatMap_cons, ArpReq.ids,
      List.map_append, List.map_cons, List.map_nil, List.count_append]
    omega
  · rw [heq]
    refine ⟨fun id => ?_, h.handed⟩
    rw [← hmore id, ← h.located id]
    simp only [transmitted, pending, unreached, List.flatMap_append, List.flatMap_cons, List.flatMap_nil,
      Sent.ids, ArpReq.request, ArpReq.ids, hpkts, List.map_cons, List.map_nil, List.append_nil,
      List.count_append]
    omega

theorem count_append_ne {wire : List Sent} {e e' : Sent} (hne : e ≠ e') :
    (wire ++ [e]).count e' = wire.count e' := by
  rw [List.count_append, List.count_singleton, if_neg (by simpa using hne), Nat.add_zero]

/-- A packet is sent. -/
theorem Queued.transmit (h : Queued s) (iface : IfaceInfo) (pkt : CachedPkt) :
    Queued { s with submitted := s.submitted + 1, wire := s.wire ++ [.packet iface pkt] } := by
  have hcount : ∀ req : ArpReq,
      (s.wire ++ [Sent.packet iface pkt]).count req.request = s.wire.count req.request :=
    fun req => count_append_ne Sent.noConfusion
  refine ⟨h.unique, fun req hreq => ?_, fun req hreq => ?_, h.distinct, h.made, fun i ip4 id hmem => ?_,
    fun req hreq => ?_⟩
  · rw [hcount]
    exact h.counted req hreq
  · rw [hcount]
    exact h.given req hreq
  · rcases List.mem_append.mp hmem with hmem | hmem
    · exact h.sent i ip4 id hmem
    · cases List.mem_singleton.mp hmem
  · obtain ⟨hasc, hlt⟩ := h.ordered req hreq
    exact ⟨hasc, fun id hid => Nat.lt_succ_of_lt (hlt id hid)⟩

/-- A packet joins a queue. -/
theorem Queued.join (h : Queued s) {before after : List ArpReq} {req : ArpReq} {pkt : CachedPkt}
    (hreqs : s.reqList = before ++ req :: after) (hid : pkt.id = s.submitted) :
    Queued { s with
      submitted := s.submitted + 1
      reqList := before ++ { req with cachedPackets := req.cachedPackets ++ [pkt] } :: after } := by
  obtain ⟨hunique, hcounted, hgiven, hdistinct, hmade, hsent, hordered⟩ := h
  rw [hreqs] at hunique hcounted hdistinct hmade hordered
  simp only [List.append_assoc, List.cons_append] at hdistinct hmade
  refine ⟨?_, ?_, hgiven, ?_, ?_, hsent, ?_⟩
  · exact pairwise_replace hunique (fun _ h => h) fun _ h => h
  · exact forall_replace hcounted fun h => h
  · simp only [List.append_assoc, List.cons_append, List.map_append, List.map_cons] at hdistinct ⊢
    exact hdistinct
  · simp only [List.append_assoc, List.cons_append]
    exact forall_replace hmade fun h => h
  · have hlater : ∀ r ∈ before ++ req :: after,
        r.ids.Pairwise (· < ·) ∧ ∀ id ∈ r.ids, id < s.submitted + 1 := by
      intro r hr
      obtain ⟨hasc, hlt⟩ := hordered r hr
      exact ⟨hasc, fun id hid => Nat.lt_succ_of_lt (hlt id hid)⟩
    refine forall_replace hlater fun _ => ?_
    obtain ⟨hasc, hlt⟩ := hordered req (by simp)
    simp only [ArpReq.ids, List.map_append, List.map_cons, List.map_nil, hid] at hasc hlt ⊢
    refine ⟨List.pairwise_append.mpr ⟨hasc, List.pairwise_singleton _ _, ?_⟩, ?_⟩
    · intro a ha b hb
      rw [List.mem_singleton.mp hb]
      exact hlt a ha
    · intro id hmem
      rcases List.mem_append.mp hmem with hmem | hmem
      · exact Nat.lt_succ_of_lt (hlt id hmem)
      · rw [List.mem_singleton.mp hmem]
        exact Nat.lt_succ_self _

/-- A queue is made, and its first ARP request sent. -/
theorem Queued.open (h : Queued s) {req : ArpReq} {pkt : CachedPkt} (hid : pkt.id = s.submitted)
    (hmade : req.id = s.made) (hretries : req.retries = 1) (hpkts : req.cachedPackets = [pkt])
    (hapart : ∀ other ∈ s.reqList, Apart req other) :
    Queued { s with
      submitted := s.submitted + 1
      made := s.made + 1
      reqList := req :: s.reqList
      wire := s.wire ++ [req.request] } := by
  have hnew : ∀ other ∈ s.reqList ++ s.givenUp, req.id ≠ other.id := by
    intro other hother
    have := h.made other hother
    omega
  have hcount : ∀ other ∈ s.reqList ++ s.givenUp,
      (s.wire ++ [req.request]).count other.request = s.wire.count other.request := by
    intro other hother
    exact count_append_ne fun heq => hnew other hother (Sent.request.inj heq).2.2
  refine ⟨List.pairwise_cons.mpr ⟨hapart, h.unique⟩, ?_, ?_, ?_, ?_, ?_, ?_⟩
  · intro r hr
    rcases List.mem_cons.mp hr with rfl | hr
    · have hnone : s.wire.count r.request = 0 := by
        refine List.count_eq_zero_of_not_mem fun hmem => ?_
        have := h.sent _ _ _ hmem
        omega
      rw [List.count_append, hnone, hretries, List.count_singleton_self]
      exact ⟨rfl, by decide⟩
    · rw [hcount r (List.mem_append_left _ hr)]
      exact h.counted r hr
  · intro r hr
    rw [hcount r (List.mem_append_right _ hr)]
    exact h.given r hr
  · refine List.nodup_cons.mpr ⟨fun hmem => ?_, h.distinct⟩
    obtain ⟨other, hother, heq⟩ := List.mem_map.mp hmem
    exact hnew other hother heq.symm
  · intro r hr
    rcases List.mem_cons.mp hr with rfl | hr
    · rw [hmade]
      exact Nat.lt_succ_self _
    · exact Nat.lt_succ_of_lt (h.made r hr)
  · intro i ip4 id hmem
    rcases List.mem_append.mp hmem with hmem | hmem
    · exact Nat.lt_succ_of_lt (h.sent i ip4 id hmem)
    · cases List.mem_singleton.mp hmem
      rw [hmade]
      exact Nat.lt_succ_self _
  · intro r hr
    rcases List.mem_cons.mp hr with rfl | hr
    · simp [ArpReq.ids, hpkts, hid]
    · obtain ⟨hasc, hlt⟩ := h.ordered r hr
      exact ⟨hasc, fun id hid => Nat.lt_succ_of_lt (hlt id hid)⟩

theorem queued_send (h : Queued s) (call : Submission) : Queued (s.sendPacketByArp call) := by
  obtain ⟨pkt, hid, -, hcases⟩ := send_cases s call
  rcases hcases with heq | ⟨before, req, after, hreqs, -, heq⟩ | ⟨req, hmade, hretries, hpkts, hapart, -, heq⟩
  · rw [heq]
    exact h.transmit _ _
  · rw [heq]
    exact h.join hreqs hid
  · rw [heq]
    exact h.open hid hmade hretries hpkts hapart

/-- A submission is the last of them, and its packet has its number. -/
theorem Carried.send {calls : List Submission} (h : Carried s hand calls) (call : Submission) :
    Carried (s.sendPacketByArp call) hand (calls ++ [call]) := by
  obtain ⟨pkt, hid, hof, hcases⟩ := send_cases s call
  have hlast : (calls ++ [call])[pkt.id]? = some call := by
    rw [hid, h.counted, List.getElem?_concat_length]
  have hsent := fun iface pkt hmem => (h.sent iface pkt hmem).append [call]
  have hqueued : ∀ req ∈ s.reqList, ∀ pkt ∈ req.cachedPackets, ∃ c, (calls ++ [call])[pkt.id]? = some c ∧
      pkt.Of c ∧ req.isFor c.iface c.dstIp = true := by
    intro req hreq pkt hpkt
    obtain ⟨c, hc, hrest⟩ := h.queued req hreq pkt hpkt
    exact ⟨c, getElem?_append_some hc [call], hrest⟩
  have hhanded := fun c hmem => (h.handed c hmem).append [call]
  have hhand := fun pkt hmem => (h.hand pkt hmem).append [call]
  have hcounted : s.submitted + 1 = (calls ++ [call]).length := by
    rw [h.counted, List.length_append, List.length_singleton]
  rcases hcases with heq | ⟨before, req, after, hreqs, hfor, heq⟩ | ⟨req, -, -, hpkts, -, hfor, heq⟩
  all_goals rw [heq]
  · refine ⟨hcounted, fun iface p hmem => ?_, hqueued, hhanded, hhand⟩
    rcases List.mem_append.mp hmem with hmem | hmem
    · exact hsent iface p hmem
    · obtain ⟨-, rfl⟩ := Sent.packet.inj (List.mem_singleton.mp hmem)
      exact ⟨call, hlast, hof⟩
  · refine ⟨hcounted, hsent, ?_, hhanded, hhand⟩
    rw [hreqs] at hqueued
    refine forall_replace hqueued fun hold p hp => ?_
    rcases List.mem_append.mp hp with hp | hp
    · exact hold p hp
    · obtain rfl := List.mem_singleton.mp hp
      exact ⟨call, hlast, hof, hfor⟩
  · refine ⟨hcounted, fun iface p hmem => ?_, fun r hr p hp => ?_, hhanded, hhand⟩
    · rcases List.mem_append.mp hmem with hmem | hmem
      · exact hsent iface p hmem
      · cases List.mem_singleton.mp hmem
    · rcases List.mem_cons.mp hr with rfl | hr
      · rw [hpkts] at hp
        obtain rfl := List.mem_singleton.mp hp
        exact ⟨call, hlast, hof, hfor⟩
      · exact hqueued r hr p hp

/-! ### A queue is answered -/

/-- What `arpcache_insert` does: the first queue for the address is sent and deleted. -/
theorem insert_cases (s : ArpCache) (ip4 : U32) (mac : Mac) :
    s.insert ip4 mac = s ∨
      ∃ before req after, s.reqList = before ++ req :: after ∧
        s.insert ip4 mac = { s with reqList := before ++ after, wire := s.wire ++ release mac req } := by
  unfold insert
  split
  · exact .inl rfl
  · rename_i req hfind
    obtain ⟨hfor, before, after, hreqs, hbefore⟩ := List.find?_eq_some_iff_append.mp hfind
    refine .inr ⟨before, req, after, hreqs, ?_⟩
    have hnot : ∀ r ∈ before, ¬ decide (r.ip4 = ip4) = true := fun r hr => by simpa using hbefore r hr
    have hfirst : (req :: after).eraseP (fun r => decide (r.ip4 = ip4)) = after := by
      simp [show req.ip4 = ip4 by simpa using hfor]
    rw [hreqs, List.eraseP_append_right _ hnot, hfirst]

theorem release_ids (mac : Mac) (req : ArpReq) : (release mac req).flatMap Sent.ids = req.ids := by
  rw [release, List.flatMap_map, ArpReq.ids, List.map_eq_flatMap]
  rfl

theorem accounted_insert (h : Accounted s hand) (ip4 : U32) (mac : Mac) :
    Accounted (s.insert ip4 mac) hand := by
  rcases insert_cases s ip4 mac with heq | ⟨before, req, after, hreqs, heq⟩
  · rwa [heq]
  · rw [heq]
    refine ⟨fun id => ?_, h.handed⟩
    rw [← h.located id]
    simp only [transmitted, pending, unreached, hreqs, List.flatMap_append, List.flatMap_cons, release_ids,
      List.count_append]
    omega

theorem queued_insert (h : Queued s) (ip4 : U32) (mac : Mac) : Queued (s.insert ip4 mac) := by
  rcases insert_cases s ip4 mac with heq | ⟨before, req, after, hreqs, heq⟩
  · rwa [heq]
  · rw [heq]
    have hleft : (before ++ after).Sublist s.reqList := by
      rw [hreqs]
      exact (List.Sublist.refl before).append (List.sublist_cons_self req after)
    have hnone : ∀ r : ArpReq, r.request ∉ release mac req := by
      intro r hmem
      obtain ⟨pkt, -, hpkt⟩ := List.mem_map.mp hmem
      cases hpkt
    have hcount : ∀ r : ArpReq, (s.wire ++ release mac req).count r.request = s.wire.count r.request := by
      intro r
      rw [List.count_append, List.count_eq_zero_of_not_mem (hnone r), Nat.add_zero]
    refine ⟨h.unique.sublist hleft, fun r hr => ?_, fun r hr => ?_, ?_, fun r hr => ?_,
      fun i ip4 id hmem => ?_, fun r hr => h.ordered r (hleft.subset hr)⟩
    · rw [hcount]
      exact h.counted r (hleft.subset hr)
    · rw [hcount]
      exact h.given r hr
    · exact h.distinct.sublist ((hleft.append (List.Sublist.refl _)).map _)
    · exact h.made r ((hleft.append (List.Sublist.refl _)).subset hr)
    · rcases List.mem_append.mp hmem with hmem | hmem
      · exact h.sent i ip4 id hmem
      · obtain ⟨pkt, -, hpkt⟩ := List.mem_map.mp hmem
        cases hpkt

theorem Carried.insert {calls : List Submission} (h : Carried s hand calls) (ip4 : U32) (mac : Mac) :
    Carried (s.insert ip4 mac) hand calls := by
  rcases insert_cases s ip4 mac with heq | ⟨before, req, after, hreqs, heq⟩
  · rwa [heq]
  · rw [heq]
    have hqueued := h.queued
    rw [hreqs] at hqueued
    refine ⟨h.counted, fun iface p hmem => ?_, fun r hr => hqueued r ?_, h.handed, h.hand⟩
    · rcases List.mem_append.mp hmem with hmem | hmem
      · exact h.sent iface p hmem
      · obtain ⟨pkt, hpkt, heq⟩ := List.mem_map.mp hmem
        obtain ⟨-, rfl⟩ := Sent.packet.inj heq
        obtain ⟨call, hcall, ⟨dhost, shost, hof⟩, -⟩ := hqueued req (by simp) pkt hpkt
        exact ⟨call, hcall, mac, req.iface.mac, by simp only [hof]⟩
    · rcases List.mem_append.mp hr with hr | hr
      · exact List.mem_append_left _ hr
      · exact List.mem_append_right _ (List.mem_cons_of_mem _ hr)

/-! ### A sweep -/

/-- The queue is asked for again, or given up. -/
def resent (now : Int) (req : ArpReq) : Bool :=
  ¬ now - req.sent < 1 ∧ req.retries < arpRequestMaxRetries

def dropped (now : Int) (req : ArpReq) : Bool :=
  ¬ now - req.sent < 1 ∧ ¬ req.retries < arpRequestMaxRetries

/-- What a queue that is left is after the scan. -/
def bump (now : Int) (req : ArpReq) : ArpReq :=
  if resent now req then { req with retries := req.retries + 1 } else req

theorem sweepReqs_eq (now : Int) (reqs : List ArpReq) :
    sweepReqs now reqs =
      ((reqs.filter fun req => !dropped now req).map (bump now),
        (reqs.filter (resent now)).map ArpReq.request, reqs.filter (dropped now)) := by
  induction reqs with
  | nil => rfl
  | cons req rest ih =>
    unfold sweepReqs
    rw [ih]
    dsimp only
    by_cases hearly : now - req.sent < 1
    · simp [hearly, dropped, resent, bump]
    · by_cases hmore : req.retries < arpRequestMaxRetries
      · simp [hearly, hmore, dropped, resent, bump, ArpReq.request]
      · simp [hearly, hmore, dropped, resent]

section
variable (now : Int) (reqs : List ArpReq)

theorem bump_fields (req : ArpReq) :
    (bump now req).iface = req.iface ∧ (bump now req).ip4 = req.ip4 ∧ (bump now req).id = req.id ∧
      (bump now req).cachedPackets = req.cachedPackets ∧
      (bump now req).retries = req.retries + if resent now req then 1 else 0 := by
  unfold bump
  split <;> exact ⟨rfl, rfl, rfl, rfl, rfl⟩

theorem bump_request (req : ArpReq) : (bump now req).request = req.request := by
  obtain ⟨hiface, hip, hid, -⟩ := bump_fields now req
  simp only [ArpReq.request, hiface, hip, hid]

/-- The queues left and those dropped are the queues there were. -/
theorem sweep_perm : (reqs.filter (dropped now) ++ reqs.filter fun req => !dropped now req).Perm reqs :=
  List.filter_append_perm _ _

/-- One ARP request goes out for a queue that is asked for again, and for no other. -/
theorem count_resent {reqs : List ArpReq} (hnodup : (reqs.map ArpReq.id).Nodup) {req : ArpReq}
    (hreq : req ∈ reqs) :
    ((reqs.filter (resent now)).map ArpReq.request).count req.request = if resent now req then 1 else 0 := by
  have hid : ∀ {r r' : ArpReq}, r.request = r'.request → r.id = r'.id :=
    fun heq => (Sent.request.inj heq).2.2
  by_cases hagain : resent now req = true
  · have hsent : ((reqs.filter (resent now)).map ArpReq.request).Nodup := by
      have hids := hnodup.sublist ((List.filter_sublist (p := resent now)).map ArpReq.id)
      rw [List.Nodup, List.pairwise_map] at hids ⊢
      exact hids.imp fun hne heq => hne (hid heq)
    rw [if_pos hagain]
    exact List.count_eq_one_of_mem hsent (List.mem_map_of_mem (List.mem_filter.mpr ⟨hreq, hagain⟩))
  · rw [if_neg hagain]
    refine List.count_eq_zero_of_not_mem fun hmem => ?_
    obtain ⟨r, hr, heq⟩ := List.mem_map.mp hmem
    obtain ⟨hr, hresent⟩ := List.mem_filter.mp hr
    rw [List.inj_on_of_nodup_map hnodup hr hreq (hid heq)] at hresent
    exact hagain hresent

end

/-- The cache between the scan of a sweep and what is handed to ICMP. -/
def scanned (s : ArpCache) (now : Int) : ArpCache :=
  { s with
    reqList := (s.reqList.filter fun req => !dropped now req).map (bump now)
    wire := s.wire ++ (s.reqList.filter (resent now)).map ArpReq.request
    givenUp := s.givenUp ++ s.reqList.filter (dropped now) }

theorem sweep_eq (s : ArpCache) (now : Int) (calls : List (Option Submission)) :
    s.sweep now calls =
      (s.scanned now).sendUnreach ((s.reqList.filter (dropped now)).flatMap ArpReq.cachedPackets) calls := by
  unfold sweep
  rw [sweepReqs_eq]
  rfl

/-- The packets of the queues dropped go into the hands of the sweep. -/
theorem accounted_scan (h : Accounted s []) (now : Int) :
    Accounted (s.scanned now) ((s.reqList.filter (dropped now)).flatMap ArpReq.cachedPackets) := by
  refine ⟨fun id => ?_, ?_⟩
  · have hsame := ((sweep_perm now s.reqList).flatMap_right ArpReq.ids).count_eq id
    have hleft : ((s.reqList.filter fun req => !dropped now req).map (bump now)).flatMap ArpReq.ids =
        (s.reqList.filter fun req => !dropped now req).flatMap ArpReq.ids := by
      rw [List.flatMap_map]
      congr 1
      funext req
      rw [ArpReq.ids, (bump_fields now req).2.2.2.1, ArpReq.ids]
    have hhand : ((s.reqList.filter (dropped now)).flatMap ArpReq.cachedPackets).map CachedPkt.id =
        (s.reqList.filter (dropped now)).flatMap ArpReq.ids := List.map_flatMap
    have hsent : ((s.reqList.filter (resent now)).map ArpReq.request).flatMap Sent.ids = [] := by
      simp [List.flatMap_map, ArpReq.request, Sent.ids]
    rw [show (s.scanned now).submitted = s.submitted from rfl, ← h.located id]
    simp only [scanned, transmitted, pending, unreached, hleft, hhand, hsent, List.flatMap_append,
      List.count_append, List.append_nil, List.map_nil, List.count_nil] at hsame ⊢
    omega
  · have hbefore := h.handed
    simp only [scanned, List.map_nil, List.append_nil, List.flatMap_append, List.map_append] at hbefore ⊢
    rw [hbefore]

theorem Carried.scan {calls : List Submission} (h : Carried s [] calls) (now : Int) :
    Carried (s.scanned now) ((s.reqList.filter (dropped now)).flatMap ArpReq.cachedPackets) calls := by
  refine ⟨h.counted, fun iface pkt hmem => ?_, fun req hreq pkt hpkt => ?_, h.handed, fun pkt hpkt => ?_⟩
  · rcases List.mem_append.mp hmem with hmem | hmem
    · exact h.sent iface pkt hmem
    · obtain ⟨req, -, hreq⟩ := List.mem_map.mp hmem
      cases hreq
  · obtain ⟨old, hold, rfl⟩ := List.mem_map.mp hreq
    obtain ⟨hiface, hip, -, hpkts, -⟩ := bump_fields now old
    have hfor : ∀ i ip4, (bump now old).isFor i ip4 = old.isFor i ip4 := by
      intro i ip4
      simp only [ArpReq.isFor, hiface, hip]
    rw [hpkts] at hpkt
    simp only [hfor]
    exact h.queued old (List.mem_filter.mp hold).1 pkt hpkt
  · obtain ⟨req, hreq, hpkt⟩ := List.mem_flatMap.mp hpkt
    obtain ⟨call, hcall, hof, -⟩ := h.queued req (List.mem_filter.mp hreq).1 pkt hpkt
    exact ⟨call, hcall, hof⟩

/-- A queue that is left is one there was, bumped. -/
theorem forall_scanned {now : Int} {P : ArpReq → Prop}
    (hP : ∀ req ∈ s.reqList, dropped now req = false → P (bump now req)) :
    ∀ req ∈ (s.scanned now).reqList, P req := by
  intro req hreq
  obtain ⟨old, hold, rfl⟩ := List.mem_map.mp hreq
  obtain ⟨hold, hkept⟩ := List.mem_filter.mp hold
  exact hP old hold (by simpa using hkept)

/-- The queues there were are there, left or given up. -/
theorem scanned_ids (s : ArpCache) (now : Int) :
    (((s.scanned now).reqList ++ (s.scanned now).givenUp).map ArpReq.id).Perm
      ((s.reqList ++ s.givenUp).map ArpReq.id) := by
  have hleft : (s.scanned now).reqList.map ArpReq.id =
      (s.reqList.filter fun req => !dropped now req).map ArpReq.id := by
    rw [scanned, List.map_map]
    exact List.map_congr_left fun req _ => (bump_fields now req).2.2.1
  refine List.perm_iff_count.mpr fun id => ?_
  have hsame := ((sweep_perm now s.reqList).map ArpReq.id).count_eq id
  rw [List.map_append, hleft]
  simp only [scanned, List.map_append, List.count_append] at hsame ⊢
  omega

theorem Queued.ids (h : Queued s) : (s.reqList.map ArpReq.id).Nodup :=
  h.distinct.sublist ((List.sublist_append_left _ _).map _)

/-- The requests sent for a queue there was, once the list is scanned, -/
theorem count_scanned (h : Queued s) (now : Int) {req : ArpReq} (hreq : req ∈ s.reqList) :
    (s.scanned now).wire.count req.request = req.retries + if resent now req then 1 else 0 := by
  rw [scanned, List.count_append, (h.counted req hreq).1, count_resent now h.ids hreq]

/-- and for one given up before, which is none of those in the list. -/
theorem count_scanned_given (h : Queued s) (now : Int) {req : ArpReq} (hreq : req ∈ s.givenUp) :
    (s.scanned now).wire.count req.request = s.wire.count req.request := by
  have hnone : req.request ∉ (s.reqList.filter (resent now)).map ArpReq.request := by
    intro hmem
    obtain ⟨r, hr, heq⟩ := List.mem_map.mp hmem
    have hboth := h.distinct
    rw [List.map_append] at hboth
    have hr : r.id ∈ s.reqList.map ArpReq.id := List.mem_map_of_mem (List.mem_filter.mp hr).1
    exact (List.nodup_append.mp hboth).2.2 _ hr _ (List.mem_map_of_mem hreq) (Sent.request.inj heq).2.2
  rw [scanned, List.count_append, List.count_eq_zero_of_not_mem hnone, Nat.add_zero]

/-- A queue dropped has been asked for as often as it may be. -/
theorem retries_of_dropped (h : Queued s) {now : Int} {req : ArpReq} (hreq : req ∈ s.reqList)
    (hdropped : dropped now req = true) : req.retries = arpRequestMaxRetries ∧ resent now req = false := by
  have hle := (h.counted req hreq).2
  simp only [dropped, decide_eq_true_eq] at hdropped
  refine ⟨by omega, ?_⟩
  simp only [resent, decide_eq_false_iff_not]
  exact fun hagain => hdropped.2 hagain.2

theorem queued_scan (h : Queued s) (now : Int) : Queued (s.scanned now) where
  unique := by
    refine List.pairwise_map.mpr ((h.unique.filter _).imp fun {a b} hapart => ?_)
    rw [Apart, (bump_fields now a).1, (bump_fields now b).1, (bump_fields now a).2.1,
      (bump_fields now b).2.1]
    exact hapart
  counted := by
    refine forall_scanned fun req hreq _ => ?_
    rw [bump_request, count_scanned h now hreq, (bump_fields now req).2.2.2.2]
    refine ⟨rfl, ?_⟩
    have hle := (h.counted req hreq).2
    split
    · rename_i hagain
      simp only [resent, decide_eq_true_eq] at hagain
      omega
    · exact hle
  given := by
    intro req hreq
    rcases List.mem_append.mp hreq with hold | hdropped
    · rw [count_scanned_given h now hold]
      exact h.given req hold
    · obtain ⟨hreq, hgone⟩ := List.mem_filter.mp hdropped
      obtain ⟨hretries, hquiet⟩ := retries_of_dropped h hreq hgone
      rw [count_scanned h now hreq, hquiet, hretries]
      rfl
  distinct := (scanned_ids s now).nodup_iff.mpr h.distinct
  made := by
    intro req hreq
    have hmem := (scanned_ids s now).subset (List.mem_map_of_mem hreq)
    obtain ⟨old, hold, heq⟩ := List.mem_map.mp hmem
    rw [← heq]
    exact h.made old hold
  sent := by
    intro iface ip4 id hmem
    rcases List.mem_append.mp hmem with hmem | hmem
    · exact h.sent iface ip4 id hmem
    · obtain ⟨r, hr, heq⟩ := List.mem_map.mp hmem
      rw [← (Sent.request.inj heq).2.2]
      exact h.made r (List.mem_append_left _ (List.mem_filter.mp hr).1)
  ordered := by
    refine forall_scanned fun req hreq _ => ?_
    rw [ArpReq.ids, (bump_fields now req).2.2.2.1]
    exact h.ordered req hreq

/-! ### Runs -/

/-- A packet of a dropped queue is handed to ICMP. -/
theorem accounted_unreach {pkt : CachedPkt} (h : Accounted s (pkt :: hand)) :
    Accounted { s with icmp := s.icmp ++ [unreach pkt] } hand := by
  refine ⟨fun id => ?_, ?_⟩
  · rw [← h.located id]
    simp only [transmitted, pending, unreached, List.map_append, List.map_cons, List.map_nil, List.count_append,
      List.count_cons, List.count_nil, unreach]
    omega
  · rw [← h.handed]
    simp

theorem kept_unreach (haccounted : Accounted s hand) (hqueued : Queued s) (calls : List (Option Submission)) :
    Accounted (s.sendUnreach hand calls) [] ∧ Queued (s.sendUnreach hand calls) := by
  induction hand generalizing s calls with
  | nil => exact ⟨haccounted, hqueued⟩
  | cons pkt rest ih =>
    have hhanded := accounted_unreach haccounted
    have hsame : Queued { s with icmp := s.icmp ++ [unreach pkt] } :=
      ⟨hqueued.1, hqueued.2, hqueued.3, hqueued.4, hqueued.5, hqueued.6, hqueued.7⟩
    cases calls with
    | nil => exact ih hhanded hsame []
    | cons call calls =>
      cases call with
      | none => exact ih hhanded hsame calls
      | some call => exact ih (accounted_send hhanded call) (queued_send hsame call) calls

theorem Carried.unreach {calls : List Submission} (h : Carried s hand calls) (answers : List (Option Submission)) :
    Carried (s.sendUnreach hand answers) [] (calls ++ (answers.take hand.length).reduceOption) := by
  induction hand generalizing s answers calls with
  | nil =>
    rw [List.length_nil, List.take_zero, List.reduceOption_nil, List.append_nil]
    exact h
  | cons pkt rest ih =>
    have hhanded : Carried { s with icmp := s.icmp ++ [Arp.unreach pkt] } rest calls := by
      refine ⟨h.counted, h.sent, h.queued, fun c hc => ?_, fun p hp => h.hand p (List.mem_cons_of_mem _ hp)⟩
      rcases List.mem_append.mp hc with hc | hc
      · exact h.handed c hc
      · rw [List.mem_singleton.mp hc]
        exact h.hand pkt List.mem_cons_self
    cases answers with
    | nil =>
      have hrest := ih hhanded []
      rw [List.take_nil] at hrest ⊢
      exact hrest
    | cons answer answers =>
      rw [List.length_cons, List.take_succ_cons]
      cases answer with
      | none =>
        rw [List.reduceOption_cons_of_none]
        exact ih hhanded answers
      | some call =>
        rw [List.reduceOption_cons_of_some, List.append_cons]
        exact ih (hhanded.send call) answers

theorem Carried.step {calls : List Submission} (h : Carried s [] calls) (e : Event) :
    Carried (s.step e) [] (calls ++ s.submissions e) := by
  cases e with
  | send call => exact h.send call
  | insert ip4 mac =>
    rw [submissions, List.append_nil]
    exact h.insert ip4 mac
  | sweep now answers =>
    rw [ArpCache.step, sweep_eq, submissions, sweepReqs_eq]
    exact (h.scan now).unreach answers

theorem kept_step (h : Accounted s [] ∧ Queued s) (e : Event) :
    Accounted (s.step e) [] ∧ Queued (s.step e) := by
  obtain ⟨haccounted, hqueued⟩ := h
  cases e with
  | send call => exact ⟨accounted_send haccounted call, queued_send hqueued call⟩
  | insert ip4 mac => exact ⟨accounted_insert haccounted ip4 mac, queued_insert hqueued ip4 mac⟩
  | sweep now calls =>
    rw [step, sweep_eq]
    exact kept_unreach (accounted_scan haccounted now) (queued_scan hqueued now) calls

theorem kept_init : Accounted arpcacheInit [] ∧ Queued arpcacheInit :=
  ⟨⟨fun _ => rfl, rfl⟩, .nil, by simp [arpcacheInit], by simp [arpcacheInit], .nil, by simp [arpcacheInit],
    by simp [arpcacheInit], by simp [arpcacheInit]⟩

theorem carried_init : Carried arpcacheInit [] [] := by
  refine ⟨rfl, fun _ _ hmem => ?_, fun _ hmem => ?_, fun _ hmem => ?_, fun _ hmem => ?_⟩
  all_goals cases hmem

/-- **Pending packets are conserved** over every run: each packet submitted is in one place, as it
was submitted, the queues are told apart, what is handed to ICMP are the packets of the queues
given up, each after five ARP requests, and a queue that is answered leaves in order. -/
theorem packets_conserved (events : List Event) :
    Conserved (run events) (arpcacheInit.allSubmissions events) := by
  have hkept : ∀ (es : List Event) (s : ArpCache) (calls : List Submission), Carried s [] calls →
      Accounted s [] ∧ Queued s → Conserved (es.foldl step s) (calls ++ s.allSubmissions es) := by
    intro es
    induction es with
    | nil =>
      intro s calls hcarried hs
      rw [allSubmissions, List.append_nil]
      exact conserved_of hcarried hs.1 hs.2
    | cons e es ih =>
      intro s calls hcarried hs
      rw [allSubmissions, ← List.append_assoc]
      exact ih (s.step e) _ (hcarried.step e) (kept_step hs e)
  exact hkept events arpcacheInit [] carried_init kept_init

end ArpCache

end NetStack.Arp
