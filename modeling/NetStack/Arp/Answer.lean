import NetStack.Arp.Truth

/-! How a packet that waits is answered.

A queue that may ask once more does so in the next sweep. The box that has the address answers,
and with the answer all packets of the queue go out, to where it came from. -/
namespace NetStack.Arp.Lan

variable {V L : Type} {net : Network V L} {s t : NetState V L} {v w : V} {x y : Iface × L}

namespace Network

/-- What goes out is on the LANs. -/
theorem mem_update [DecidableEq V] {b : Box} {sent : List Sent} {frame : L × EtherFrame}
    (hwire : b.cache.wire = (s.box v).cache.wire ++ sent) (h : frame ∈ net.frames v sent) :
    frame ∈ (net.update s v b).flight := by
  refine List.mem_append_right _ ?_
  rwa [hwire, List.drop_left]

theorem request_mem_frames {sent : List Sent} {info : IfaceInfo} {dstIp : U32} {id : Nat}
    (hiface : net.iface? v info = some x) (h : Sent.request info dstIp id ∈ sent) :
    (x.2, arpSendRequest x.1 dstIp) ∈ net.frames v sent :=
  List.mem_filterMap.mpr ⟨_, h, by simp only [hiface, Option.map_some]⟩

end Network

/-! ### The sweep asks -/

theorem sendUnreach_same (q : ArpCache) (hand : List CachedPkt) :
    (q.sendUnreach hand []).reqList = q.reqList ∧ (q.sendUnreach hand []).wire = q.wire := by
  induction hand generalizing q with
  | nil => exact ⟨rfl, rfl⟩
  | cons pkt rest ih => exact ih _

theorem find_map_filter {α : Type} {p q : α → Bool} {f : α → α} (hp : ∀ a, p (f a) = p a) {l : List α} {a : α}
    (h : l.find? p = some a) (hq : q a = true) : ((l.filter q).map f).find? p = some (f a) := by
  obtain ⟨hpa, before, after, rfl, hbefore⟩ := List.find?_eq_some_iff_append.mp h
  have hnone : ((before.filter q).map f).find? p = none := by
    refine List.find?_eq_none.mpr fun b hb => ?_
    obtain ⟨c, hc, rfl⟩ := List.mem_map.mp hb
    rw [hp]
    simpa using hbefore c (List.mem_of_mem_filter hc)
  rw [List.filter_append, List.filter_cons_of_pos hq, List.map_append, List.map_cons, List.find?_append, hnone,
    Option.none_or, List.find?_cons_of_pos (by rw [hp, hpa])]

/-- The first queue for an address, if it may ask again: it does, and stays the first. -/
theorem sweep_asks {q : ArpCache} {req : ArpReq} {ip : U32} {now : Int}
    (hfirst : q.reqList.find? (fun r => r.ip4 = ip) = some req) (hretries : req.retries < arpRequestMaxRetries)
    (hlate : 1 ≤ now - req.sent) :
    (q.sweep now []).reqList.find? (fun r => r.ip4 = ip) = some (ArpCache.bump now req) ∧
      ∃ sent, (q.sweep now []).wire = q.wire ++ sent ∧ req.request ∈ sent := by
  have hagain : ArpCache.resent now req = true := decide_eq_true ⟨by omega, hretries⟩
  have hkept : (!ArpCache.dropped now req) = true := by
    simp [ArpCache.dropped, hretries]
  rw [ArpCache.sweep_eq]
  obtain ⟨hreqs, hwire⟩ := sendUnreach_same (q.scanned now)
    ((q.reqList.filter (ArpCache.dropped now)).flatMap ArpReq.cachedPackets)
  rw [hreqs, hwire]
  have hip : ∀ r, decide ((ArpCache.bump now r).ip4 = ip) = decide (r.ip4 = ip) := fun r => by
    rw [(ArpCache.bump_fields now r).2.1]
  refine ⟨find_map_filter hip hfirst hkept, _, rfl, ?_⟩
  exact List.mem_map_of_mem (List.mem_filter.mpr ⟨List.mem_of_find?_eq_some hfirst, hagain⟩)

/-! ### The answer -/

/-- The owner of the address takes the request and answers it. -/
theorem handlePacket_request (b : Box) (rand : Nat) (now : Int) :
    b.handlePacket y.1 rand now (arpSendRequest x.1 y.1.ip) =
      (b.insert rand now x.1.ip x.1.mac, [arpSendReply y.1 (request x.1 y.1.ip)]) := by
  have htype : (arpSendRequest x.1 y.1.ip).etherType = ethPArp := rfl
  have hbody : etherArp (arpSendRequest x.1 y.1.ip).body = request x.1 y.1.ip := etherArp_bytes _
  have hop : ntohs (request x.1 y.1.ip).arpOp = arpopRequest := ntohs_ntohs _
  have hsrc : ntohl (request x.1 y.1.ip).arpSpa = x.1.ip := ntohl_ntohl _
  have hdst : ntohl (request x.1 y.1.ip).arpTpa = y.1.ip := ntohl_ntohl _
  unfold Box.handlePacket Box.handleArpPacket
  rw [if_pos htype, hbody]
  dsimp only
  rw [if_pos hop, if_pos hdst.symm, hsrc]
  rfl

/-- The box that asked takes the answer. -/
theorem handlePacket_reply (b : Box) (rand : Nat) (now : Int) (dstIp : U32) :
    b.handlePacket x.1 rand now (arpSendReply y.1 (request x.1 dstIp)) = (b.insert rand now y.1.ip y.1.mac, []) := by
  have htype : (arpSendReply y.1 (request x.1 dstIp)).etherType = ethPArp := rfl
  have hbody : etherArp (arpSendReply y.1 (request x.1 dstIp)).body = reply y.1 (request x.1 dstIp) :=
    etherArp_bytes _
  have hop : ntohs (reply y.1 (request x.1 dstIp)).arpOp = arpopReply := ntohs_ntohs _
  have hsrc : ntohl (reply y.1 (request x.1 dstIp)).arpSpa = y.1.ip := ntohl_ntohl _
  have hdst : ntohl (reply y.1 (request x.1 dstIp)).arpTpa = x.1.ip := ntohl_ntohl _
  have hother : arpopReply ≠ arpopRequest := by decide
  unfold Box.handlePacket Box.handleArpPacket
  rw [if_pos htype, hbody]
  dsimp only
  rw [hop, if_neg hother, if_pos rfl, if_pos hdst.symm, hsrc]
  rfl

/-- The first queue for the address goes out to where the answer came from. -/
theorem insert_releases (b : Box) {req : ArpReq} {ip : U32} (mac : Mac) (rand : Nat) (now : Int)
    (hfirst : b.cache.reqList.find? (fun r => r.ip4 = ip) = some req) {pkt : CachedPkt}
    (hpkt : pkt ∈ req.cachedPackets) :
    Sent.packet req.iface
      { pkt with packet := { pkt.packet with etherDhost := mac, etherShost := req.iface.mac } } ∈
        (b.insert rand now ip mac).cache.wire := by
  have hinsert : (b.insert rand now ip mac).cache = b.cache.insert ip mac := rfl
  rw [hinsert, ArpCache.insert, hfirst]
  exact List.mem_append_right _ (List.mem_map_of_mem hpkt)

variable [DecidableEq V] [DecidableEq L]

/-- A frame that comes to an interface on its LAN. -/
theorem step_deliver {k i : Nat} {packet : EtherFrame} (hk : s.flight[k]? = some (x.2, packet))
    (hx : (net.ifaces v)[i]? = some x) (rand : Nat) (now : Int) :
    ∃ t, net.Step s (.deliver k v i rand now) t ∧
      t.box = Function.update s.box v ((s.box v).handlePacket x.1 rand now packet).1 ∧
      ∀ answer ∈ ((s.box v).handlePacket x.1 rand now packet).2, (x.2, answer) ∈ t.flight := by
  let u := net.update s v ((s.box v).handlePacket x.1 rand now packet).1
  let sent := ((s.box v).handlePacket x.1 rand now packet).2
  have hstep : net.Step s (.deliver k v i rand now)
      { u with flight := u.flight ++ sent.map fun packet => (x.2, packet) } := by
    unfold Network.Step Network.step
    simp only [hk, hx, if_true]
    rfl
  exact ⟨_, hstep, rfl, fun answer hmem => List.mem_append_right _ (List.mem_map_of_mem hmem)⟩

/-- **A waiting packet can be answered.** From any state, whatever is under way: if the first
queue of a box for an address may ask once more, and another box has the address on the LAN of
the queue's interface, then a sweep, the delivery of the request and that of the reply lead to a
state where all packets of the queue were sent, each to the hardware address of that box. -/
theorem queue_answerable {i j : Nat} (hx : (net.ifaces v)[i]? = some x) (hy : (net.ifaces w)[j]? = some y)
    (hne : w ≠ v) (hlan : y.2 = x.2) (hiface : net.iface? v x.1.toIfaceInfo = some x) {req : ArpReq}
    (hfirst : (s.box v).cache.reqList.find? (fun r => r.ip4 = y.1.ip) = some req)
    (hreq : req.iface = x.1.toIfaceInfo) (hretries : req.retries < arpRequestMaxRetries) {now : Int}
    (hlate : 1 ≤ now - req.sent) (rand rand' : Nat) :
    ∃ k k' t, Run net.Step s [.sweep v now, .deliver k w j rand now, .deliver k' v i rand' now] t ∧
      ∀ pkt ∈ req.cachedPackets, Sent.packet req.iface
        { pkt with packet := { pkt.packet with etherDhost := y.1.mac, etherShost := req.iface.mac } } ∈
          (t.box v).cache.wire := by
  -- the sweep asks
  obtain ⟨hstill, sent, hwire, hasked⟩ := sweep_asks hfirst hretries hlate
  have hip : req.ip4 = y.1.ip := by simpa using List.find?_some hfirst
  have hrequest : (x.2, arpSendRequest x.1 y.1.ip) ∈ (net.update s v ((s.box v).sweep now)).flight := by
    rw [ArpReq.request, hreq, hip] at hasked
    exact Network.mem_update hwire (Network.request_mem_frames hiface hasked)
  obtain ⟨k, hk⟩ := List.mem_iff_getElem?.mp hrequest
  -- the owner answers
  obtain ⟨t, hanswer, hbox, hsent⟩ := step_deliver (x := y) (hlan ▸ hk) hy rand now
  rw [handlePacket_request] at hbox hsent
  obtain ⟨k', hk'⟩ := List.mem_iff_getElem?.mp (hsent _ (List.mem_singleton_self _))
  -- and its answer is taken
  obtain ⟨u, htake, hbox', _⟩ := step_deliver (x := x) (hlan ▸ hk') hx rand' now
  rw [handlePacket_reply] at hbox'
  refine ⟨k, k', u, .cons rfl (.cons hanswer (.cons htake (.nil u))), fun pkt hpkt => ?_⟩
  have hv : t.box v = (s.box v).sweep now := by
    rw [hbox, Function.update_of_ne hne.symm]
    exact Function.update_self ..
  obtain ⟨hsame, _, _, hpkts, _⟩ := ArpCache.bump_fields now req
  rw [hbox', Function.update_self, hv, ← hsame]
  exact insert_releases _ _ _ _ hstill (hpkts.symm ▸ hpkt)

/-- A packet waits, and the request for it was lost. -/
def unanswered : NetState Bool Unit where
  box := Function.update (fun _ => .init) true
    (Box.init.sendPacketByArp ⟨⟨0, .replicate 6 1⟩, 0x0A000001⟩ 0 0x0A000002 letter)
  flight := []

/-- Its queue. -/
def letterQueue : ArpReq where
  iface := ⟨0, .replicate 6 1⟩
  ip4 := 0x0A000002
  sent := 0
  retries := 1
  cachedPackets := [⟨{ letter with etherShost := .replicate 6 1, etherType := ethPIp }, 0⟩]
  id := 0

theorem queue_answerable_pair : ∃ k k' t,
    Run pair.Step unanswered [.sweep true 1, .deliver k false 0 5 1, .deliver k' true 0 7 1] t ∧
      ∀ pkt ∈ letterQueue.cachedPackets, Sent.packet letterQueue.iface
        { pkt with packet := { pkt.packet with etherDhost := .replicate 6 2, etherShost := .replicate 6 1 } } ∈
          (t.box true).cache.wire := by
  have hfirst : (unanswered.box true).cache.reqList.find? (fun r => r.ip4 = 0x0A000002) = some letterQueue := by
    decide +kernel
  exact queue_answerable (x := (⟨⟨0, .replicate 6 1⟩, 0x0A000001⟩, ()))
    (y := (⟨⟨0, .replicate 6 2⟩, 0x0A000002⟩, ())) rfl rfl (by decide) rfl (by decide) hfirst rfl (by decide)
    (by decide) 5 7

end NetStack.Arp.Lan
