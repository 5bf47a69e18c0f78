import NetStack.Arp.Conservation
import NetStack.Arp.Lan
import Mathlib.Data.Fintype.Card

/-! What the boxes of a network believe of each other's addresses.

A message names the interface it left by, so what a box takes from it is true of a neighbour
(`network_truthful`): whatever is delayed, lost, repeated or overtaken, a packet goes to the
hardware address of its next hop. The addresses an entry can be for are those of the
interfaces, so where these are no more than the entries, the cache is not full when an address
is new to it, and nothing is written outside it (`insertions_inside`). -/
namespace NetStack.Arp.Lan

variable {V L : Type} {net : Network V L} {v : V} {lan : L} {b : Box} {ip : U32} {mac : Mac}

namespace Network

/-- Some interface on the LAN has these addresses. -/
def Owner (net : Network V L) (lan : L) (ip : U32) (mac : Mac) : Prop :=
  ∃ w, ∃ x ∈ net.ifaces w, x.1.ip = ip ∧ x.1.mac = mac ∧ x.2 = lan

/-- Some interface on a LAN the box is on. -/
def Neighbour (net : Network V L) (v : V) (ip : U32) (mac : Mac) : Prop :=
  ∃ y ∈ net.ifaces v, net.Owner y.2 ip mac

end Network

open Network

/-- An ARP message names an interface on its LAN as its sender. -/
def MessageTrue (net : Network V L) (lan : L) (packet : EtherFrame) : Prop :=
  packet.etherType = ethPArp →
    net.Owner lan (ntohl (etherArp packet.body).arpSpa) (etherArp packet.body).arpSha

/-- A packet that waits is in the queue for its next hop, and one that was sent was addressed to
a neighbour that has it. -/
structure QueuesTrue (net : Network V L) (v : V) (s : ArpCache) (hops : List U32) : Prop where
  counted : s.submitted = hops.length
  waiting : ∀ req ∈ s.reqList, ∀ pkt ∈ req.cachedPackets,
    hops[pkt.id]? = some req.ip4 ∧ pkt.packet.etherType = ethPIp
  sent : ∀ iface pkt, Sent.packet iface pkt ∈ s.wire → pkt.packet.etherType = ethPIp ∧
    ∃ ip, hops[pkt.id]? = some ip ∧ net.Neighbour v ip pkt.packet.etherDhost

/-- There are entries enough for the addresses on the LANs the box is on. -/
def Few (net : Network V L) (v : V) : Prop :=
  ∃ ips : Finset U32, ips.card ≤ maxArpSize ∧ ∀ ip mac, net.Neighbour v ip mac → ip ∈ ips

/-- The entries are for neighbours, one for each address; and where these are few, none was
written outside the cache. -/
structure BoxTrue (net : Network V L) (v : V) (b : Box) : Prop where
  entries : ∀ i, (b.entries i).valid = true → net.Neighbour v (b.entries i).ip4 (b.entries i).mac
  unique : Unique b.entries
  queues : QueuesTrue net v b.cache b.hops
  inside : Few net v → ∀ k ∈ b.written, 0 ≤ k ∧ k < maxArpSize

/-! ### The entries -/

/-- What an insertion leaves: entries there were, and one for the pair inserted. -/
theorem forall_insert {P : U32 → Mac → Prop} {entries : Entries} (rand : Nat) (now : Int)
    (h : ∀ i, (entries i).valid = true → P (entries i).ip4 (entries i).mac) (hnew : P ip mac) (i : Fin maxArpSize)
    (hvalid : ((arpcacheInsert rand now entries ip mac).1 i).valid = true) :
    P ((arpcacheInsert rand now entries ip mac).1 i).ip4 ((arpcacheInsert rand now entries ip mac).1 i).mac := by
  by_cases hpresent : Present entries ip
  · have hentry := (insert_present mac rand now hpresent).1 i
    rw [hentry] at hvalid ⊢
    rw [ArpCacheEntry.renewed_valid] at hvalid
    cases hfor : (entries i).isFor ip with
    | false =>
      rw [ArpCacheEntry.renewed_other hfor]
      exact h i hvalid
    | true =>
      rw [ArpCacheEntry.renewed, if_pos hfor, (ArpCacheEntry.isFor_iff.mp hfor).2]
      exact hnew
  · obtain ⟨pos, heq, _⟩ := insert_absent mac rand now hpresent
    rw [heq] at hvalid ⊢
    simp only [setEntry] at hvalid ⊢
    split at hvalid
    · rw [if_pos ‹_›]
      exact hnew
    · rw [if_neg ‹_›]
      exact h i hvalid

theorem unique_insert {entries : Entries} (h : Unique entries) (rand : Nat) (now : Int) (ip : U32) (mac : Mac) :
    Unique (arpcacheInsert rand now entries ip mac).1 := by
  by_cases hpresent : Present entries ip
  · exact (Keeps.of_present h hpresent).unique
  · by_cases hroom : ∃ i, (entries i).valid = false
    · rw [insert_drawn hpresent hroom]
      exact h.update fun j _ hj hip => hpresent ⟨j, ArpCacheEntry.isFor_iff.mpr ⟨hj, hip⟩⟩
    · -- written before the first entry
      obtain ⟨pos, heq, _, hfull⟩ := insert_absent mac rand now hpresent
      have hpos := hfull fun i => Bool.eq_true_of_not_eq_false fun hfree => hroom ⟨i, hfree⟩
      have hsame : setEntry entries pos ⟨ip, mac, now, true⟩ = entries := by
        funext i
        exact if_neg (by omega)
      rw [heq]
      show Unique (setEntry entries pos ⟨ip, mac, now, true⟩)
      rwa [hsame]

/-- A full cache has as many addresses as entries, so it has every one there is. -/
theorem insert_inside {entries : Entries} (h : Unique entries) {ips : Finset U32} (hcard : ips.card ≤ maxArpSize)
    (hips : ∀ i, (entries i).valid = true → (entries i).ip4 ∈ ips) (hip : ip ∈ ips) (rand : Nat) (now : Int)
    (mac : Mac) : ∀ k ∈ (arpcacheInsert rand now entries ip mac).2, 0 ≤ k ∧ k < maxArpSize := by
  intro k hk
  by_cases hpresent : Present entries ip
  · obtain ⟨i, rfl⟩ := (insert_present mac rand now hpresent).2 k hk
    exact ⟨by omega, by have := i.isLt; omega⟩
  · by_cases hroom : ∃ i, (entries i).valid = false
    · rw [insert_drawn hpresent hroom] at hk
      rw [List.mem_singleton.mp hk]
      exact ⟨by omega, by have := (drawn rand).isLt; omega⟩
    · have hfull : ∀ i, (entries i).valid = true := fun i =>
        Bool.eq_true_of_not_eq_false fun hfree => hroom ⟨i, hfree⟩
      have hothers : ∀ i ∈ Finset.univ, (entries i).ip4 ∈ ips.erase ip := fun i _ =>
        Finset.mem_erase.mpr ⟨fun heq => hpresent ⟨i, ArpCacheEntry.isFor_iff.mpr ⟨hfull i, heq⟩⟩, hips i (hfull i)⟩
      have hle := Finset.card_le_card_of_injOn (fun i => (entries i).ip4) hothers
        fun i _ j _ heq => h i j (hfull i) (hfull j) heq
      have hless := Finset.card_erase_lt_of_mem hip
      rw [Finset.card_univ, Fintype.card_fin] at hle
      omega

theorem sweep_entry (now : Int) (entries : Entries) (i : Fin maxArpSize) :
    (arpcacheSweep now entries i).ip4 = (entries i).ip4 ∧ (arpcacheSweep now entries i).mac = (entries i).mac ∧
      ((arpcacheSweep now entries i).valid = true → (entries i).valid = true) := by
  unfold arpcacheSweep
  split
  · exact ⟨rfl, rfl, nofun⟩
  · exact ⟨rfl, rfl, id⟩

/-! ### The queues -/

/-- A packet that joins a queue joins one for its next hop. -/
theorem joinQueue_waiting {P : U32 → CachedPkt → Prop} {iface : IfaceInfo} {pkt : CachedPkt}
    {reqs joined : List ArpReq} (h : ∀ req ∈ reqs, ∀ p ∈ req.cachedPackets, P req.ip4 p) (hpkt : P ip pkt)
    (hjoin : joinQueue iface ip pkt reqs = some joined) : ∀ req ∈ joined, ∀ p ∈ req.cachedPackets, P req.ip4 p := by
  induction reqs generalizing joined with
  | nil => cases hjoin
  | cons first rest ih =>
    unfold joinQueue at hjoin
    split at hjoin
    · rename_i hfor
      obtain rfl := Option.some.inj hjoin
      have hip : first.ip4 = ip := (of_decide_eq_true hfor).2
      intro req hreq p hp
      rcases List.mem_cons.mp hreq with rfl | hreq
      · rcases List.mem_append.mp hp with hp | hp
        · exact h first List.mem_cons_self p hp
        · rw [List.mem_singleton.mp hp]
          exact hip ▸ hpkt
      · exact h req (List.mem_cons_of_mem _ hreq) p hp
    · obtain ⟨joined', hjoin', rfl⟩ := Option.map_eq_some_iff.mp hjoin
      intro req hreq p hp
      rcases List.mem_cons.mp hreq with rfl | hreq
      · exact h req List.mem_cons_self p hp
      · exact ih (fun r hr => h r (List.mem_cons_of_mem _ hr)) hjoin' req hreq p hp

namespace QueuesTrue

variable {s : ArpCache} {hops : List U32}

/-- One more next hop. -/
theorem concat (h : QueuesTrue net v s hops) (dstIp : U32) :
    QueuesTrue net v { s with submitted := s.submitted + 1 } (hops ++ [dstIp]) := by
  have hold : ∀ {id : Nat} {ip : U32}, hops[id]? = some ip → (hops ++ [dstIp])[id]? = some ip := fun hid => by
    rw [List.getElem?_append_left (List.getElem?_eq_some_iff.mp hid).1, hid]
  refine ⟨?_, fun req hreq pkt hpkt => ?_, fun iface pkt hpkt => ?_⟩
  · rw [List.length_append, List.length_singleton, ← h.counted]
  · obtain ⟨hid, htype⟩ := h.waiting req hreq pkt hpkt
    exact ⟨hold hid, htype⟩
  · obtain ⟨htype, ip, hid, hmac⟩ := h.sent iface pkt hpkt
    exact ⟨htype, ip, hold hid, hmac⟩

/-- A packet is submitted, where what the cache answers is a neighbour's address. -/
theorem sendPacketByArp (h : QueuesTrue net v s hops) (call : Submission)
    (hfound : ∀ mac ∈ call.found, net.Neighbour v call.dstIp mac) :
    QueuesTrue net v (s.sendPacketByArp call) (hops ++ [call.dstIp]) := by
  obtain ⟨hcounted, hwaiting, hsent⟩ := h.concat call.dstIp
  have hnew : (hops ++ [call.dstIp])[s.submitted]? = some call.dstIp := by
    rw [h.counted, List.getElem?_concat_length]
  unfold ArpCache.sendPacketByArp
  dsimp only
  split
  · rename_i mac hmac
    refine ⟨hcounted, hwaiting, fun iface pkt hpkt => ?_⟩
    rcases List.mem_append.mp hpkt with hpkt | hpkt
    · exact hsent iface pkt hpkt
    · cases List.mem_singleton.mp hpkt
      exact ⟨rfl, _, hnew, hfound mac hmac⟩
  · unfold ArpCache.appendPacket
    split
    · rename_i reqList hjoin
      exact ⟨hcounted, joinQueue_waiting (P := fun ip pkt =>
        (hops ++ [call.dstIp])[pkt.id]? = some ip ∧ pkt.packet.etherType = ethPIp) hwaiting ⟨hnew, rfl⟩ hjoin, hsent⟩
    · refine ⟨hcounted, fun req hreq => ?_, fun iface pkt hpkt => ?_⟩
      · rcases List.mem_cons.mp hreq with rfl | hreq
        · intro pkt hpkt
          rw [List.mem_singleton.mp hpkt]
          exact ⟨hnew, rfl⟩
        · exact hwaiting req hreq
      · rcases List.mem_append.mp hpkt with hpkt | hpkt
        · exact hsent iface pkt hpkt
        · cases List.mem_singleton.mp hpkt

/-- A neighbour's addresses are inserted. -/
theorem insert (h : QueuesTrue net v s hops) (hnew : net.Neighbour v ip mac) :
    QueuesTrue net v (s.insert ip mac) hops := by
  unfold ArpCache.insert
  split
  · exact h
  · rename_i req hfind
    have hmem := List.mem_of_find?_eq_some hfind
    have hip : req.ip4 = ip := by simpa using List.find?_some hfind
    refine ⟨h.counted, fun r hr => h.waiting r (List.mem_of_mem_eraseP hr), ?_⟩
    intro iface pkt hpkt
    rcases List.mem_append.mp hpkt with hpkt | hpkt
    · exact h.sent iface pkt hpkt
    · obtain ⟨p, hp, heq⟩ := List.mem_map.mp hpkt
      cases heq
      obtain ⟨hid, htype⟩ := h.waiting req hmem p hp
      exact ⟨htype, ip, hip ▸ hid, hnew⟩

/-- Packets are handed to ICMP. -/
theorem sendUnreach (h : QueuesTrue net v s hops) (hand : List CachedPkt) :
    QueuesTrue net v (s.sendUnreach hand []) hops := by
  induction hand generalizing s with
  | nil => exact h
  | cons pkt rest ih => exact ih ⟨h.counted, h.waiting, h.sent⟩

theorem sweep (h : QueuesTrue net v s hops) (now : Int) : QueuesTrue net v (s.sweep now []) hops := by
  have hscanned : QueuesTrue net v (s.scanned now) hops := by
    refine ⟨h.counted, ?_, fun iface pkt hpkt => ?_⟩
    · refine ArpCache.forall_scanned fun req hreq _ => ?_
      obtain ⟨_, hip, _, hpkts, _⟩ := ArpCache.bump_fields now req
      rw [hip, hpkts]
      exact h.waiting req hreq
    · rcases List.mem_append.mp hpkt with hpkt | hpkt
      · exact h.sent iface pkt hpkt
      · obtain ⟨req, _, heq⟩ := List.mem_map.mp hpkt
        cases heq
  rw [ArpCache.sweep_eq]
  exact hscanned.sendUnreach _

end QueuesTrue

/-! ### A box -/

namespace BoxTrue

theorem init : BoxTrue net v .init := ⟨nofun, nofun, ⟨rfl, nofun, nofun⟩, nofun⟩

theorem sendPacketByArp (h : BoxTrue net v b) (iface : Iface) (now : Int) (dstIp : U32) (packet : EtherFrame) :
    BoxTrue net v (b.sendPacketByArp iface now dstIp packet) := by
  refine ⟨h.entries, h.unique, h.queues.sendPacketByArp _ fun mac hmac => ?_, h.inside⟩
  obtain ⟨i, hvalid, hip, rfl⟩ := exists_of_arpcacheLookup hmac
  exact hip ▸ h.entries i hvalid

theorem insert (h : BoxTrue net v b) (hnew : net.Neighbour v ip mac) (rand : Nat) (now : Int) :
    BoxTrue net v (b.insert rand now ip mac) := by
  have hentries := forall_insert (P := net.Neighbour v) rand now h.entries hnew
  have hunique := unique_insert h.unique rand now ip mac
  have hqueues := h.queues.insert hnew
  have hinside : Few net v →
      ∀ k ∈ b.written ++ (arpcacheInsert rand now b.entries ip mac).2, 0 ≤ k ∧ k < maxArpSize := by
    intro hfew k hk
    obtain ⟨ips, hcard, hips⟩ := hfew
    rcases List.mem_append.mp hk with hk | hk
    · exact h.inside ⟨ips, hcard, hips⟩ k hk
    · exact insert_inside h.unique hcard (fun i hvalid => hips _ _ (h.entries i hvalid)) (hips ip mac hnew)
        rand now mac k hk
  unfold Box.insert
  generalize arpcacheInsert rand now b.entries ip mac = inserted at hentries hunique hinside ⊢
  exact ⟨hentries, hunique, hqueues, hinside⟩

theorem sweep (h : BoxTrue net v b) (now : Int) : BoxTrue net v (b.sweep now) := by
  have hentries : ∀ i, (arpcacheSweep now b.entries i).valid = true →
      net.Neighbour v (arpcacheSweep now b.entries i).ip4 (arpcacheSweep now b.entries i).mac := by
    intro i hvalid
    obtain ⟨hip, hmac, hbefore⟩ := sweep_entry now b.entries i
    rw [hip, hmac]
    exact h.entries i (hbefore hvalid)
  have hunique : Unique (arpcacheSweep now b.entries) := by
    intro i j hi hj hip
    obtain ⟨hipi, _, hbefore⟩ := sweep_entry now b.entries i
    obtain ⟨hipj, _, hbefore'⟩ := sweep_entry now b.entries j
    rw [hipi, hipj] at hip
    exact h.unique i j (hbefore hi) (hbefore' hj) hip
  exact ⟨hentries, hunique, h.queues.sweep now, h.inside⟩

/-- A message that is true comes to an interface of the box on its LAN. -/
theorem handlePacket (h : BoxTrue net v b) {x : Iface × L} (hx : x ∈ net.ifaces v) {packet : EtherFrame}
    (hpacket : MessageTrue net x.2 packet) (rand : Nat) (now : Int) :
    BoxTrue net v (b.handlePacket x.1 rand now packet).1 ∧
      ∀ answer ∈ (b.handlePacket x.1 rand now packet).2, MessageTrue net x.2 answer := by
  unfold Box.handlePacket
  by_cases htype : packet.etherType = ethPArp
  · rw [if_pos htype]
    have hsender : net.Neighbour v (ntohl (etherArp packet.body).arpSpa) (etherArp packet.body).arpSha :=
      ⟨x, hx, hpacket htype⟩
    have hinsert := h.insert hsender rand now
    have hanswer : ∀ reqHdr, MessageTrue net x.2 (arpSendReply x.1 reqHdr) := by
      intro reqHdr _
      rw [arpSendReply, etherArp_bytes]
      exact ⟨v, x, hx, (ntohl_ntohl x.1.ip).symm, rfl, rfl⟩
    unfold Box.handleArpPacket
    dsimp only
    split
    · split
      · exact ⟨hinsert, fun answer hmem => List.mem_singleton.mp hmem ▸ hanswer _⟩
      · exact ⟨h, nofun⟩
    · split
      · split
        · exact ⟨hinsert, nofun⟩
        · exact ⟨h, nofun⟩
      · exact ⟨h, nofun⟩
  · rw [if_neg htype]
    exact ⟨h, nofun⟩

end BoxTrue

/-! ### The network -/

/-- All boxes, and all messages on the LANs. -/
structure NetTrue (net : Network V L) (s : NetState V L) : Prop where
  box : ∀ v, BoxTrue net v (s.box v)
  flight : ∀ x ∈ s.flight, MessageTrue net x.1 x.2

/-- What goes out of true queues. -/
theorem QueuesTrue.frames {q : ArpCache} {hops : List U32} (h : QueuesTrue net v q hops) {sent : List Sent}
    (hsent : ∀ e ∈ sent, e ∈ q.wire) : ∀ x ∈ net.frames v sent, MessageTrue net x.1 x.2 := by
  intro x hx
  obtain ⟨e, he, heq⟩ := List.mem_filterMap.mp hx
  cases e with
  | packet info pkt =>
    obtain ⟨y, _, rfl⟩ := Option.map_eq_some_iff.mp heq
    intro htype
    have hip := (h.sent info pkt (hsent _ he)).1
    rw [htype] at hip
    exact absurd hip (by decide)
  | request info dstIp id =>
    obtain ⟨y, hy, rfl⟩ := Option.map_eq_some_iff.mp heq
    intro _
    rw [arpSendRequest, etherArp_bytes]
    exact ⟨v, y, List.mem_of_find?_eq_some hy, (ntohl_ntohl y.1.ip).symm, rfl, rfl⟩

theorem NetTrue.init : NetTrue net .init := ⟨fun _ => .init, nofun⟩

section Steps
variable [DecidableEq V] {s t : NetState V L}

namespace NetTrue

theorem update (h : NetTrue net s) (hb : BoxTrue net v b) : NetTrue net (net.update s v b) := by
  refine ⟨(Function.forall_update_iff _ fun w (box : Box) => BoxTrue net w box).mpr ⟨hb, fun w _ => h.box w⟩, ?_⟩
  intro x hx
  rcases List.mem_append.mp hx with hx | hx
  · exact h.flight x hx
  · exact hb.queues.frames (fun e he => List.mem_of_mem_drop he) x hx

variable [DecidableEq L]

theorem step (h : NetTrue net s) {e : Event V} (hstep : net.Step s e t) : NetTrue net t := by
  unfold Network.Step Network.step at hstep
  cases e with
  | send v i now dstIp packet =>
    dsimp only at hstep
    split at hstep
    · cases hstep
    · cases hstep
      exact h.update ((h.box v).sendPacketByArp _ now dstIp packet)
  | deliver k v i rand now =>
    dsimp only at hstep
    split at hstep
    · rename_i lan packet x hpacket hx
      split at hstep
      · rename_i hlan
        cases hstep
        obtain ⟨hbox, hanswers⟩ := (h.box v).handlePacket (List.mem_of_getElem? hx)
          (hlan ▸ h.flight _ (List.mem_of_getElem? hpacket)) rand now
        have hupdate := h.update hbox
        refine ⟨hupdate.box, fun y hy => ?_⟩
        rcases List.mem_append.mp hy with hy | hy
        · exact hupdate.flight y hy
        · obtain ⟨answer, hmem, rfl⟩ := List.mem_map.mp hy
          exact hlan ▸ hanswers answer hmem
      · cases hstep
    · cases hstep
  | lose k =>
    dsimp only at hstep
    split at hstep <;> cases hstep
    exact ⟨h.box, fun x hx => h.flight x (List.mem_of_mem_eraseIdx hx)⟩
  | sweep v now =>
    cases hstep
    exact h.update ((h.box v).sweep now)

theorem run {es : List (Event V)} (hrun : Run net.Step .init es s) : NetTrue net s :=
  have hkeep : ∀ s e t, NetTrue net s → True → net.Step s e t → NetTrue net t := fun _ _ _ h _ hstep => h.step hstep
  hrun.invariant hkeep (.of_forall (fun _ _ => trivial) _ _) .init

end NetTrue

/-- What boxes have come to believe and to send. -/
structure Truthful (net : Network V L) (s : NetState V L) : Prop where
  entries : ∀ v ip mac, arpcacheLookup (s.box v).entries ip = some mac → net.Neighbour v ip mac
  waiting : ∀ v, ∀ req ∈ (s.box v).cache.reqList, ∀ pkt ∈ req.cachedPackets,
    (s.box v).hops[pkt.id]? = some req.ip4
  sent : ∀ v iface pkt, Sent.packet iface pkt ∈ (s.box v).cache.wire →
    ∃ ip, (s.box v).hops[pkt.id]? = some ip ∧ net.Neighbour v ip pkt.packet.etherDhost

variable [DecidableEq L]

/-- **Resolution is truthful.** In every network, over every run in which packets are submitted,
messages delivered to whoever hears them, in any order, repeatedly, or lost, and caches swept:
what a box finds in its cache are the addresses of an interface on one of its LANs, every packet
that waits does so in the queue of its next hop, and every packet that was sent was addressed to
the interface of its next hop. -/
theorem network_truthful {es : List (Event V)} (hrun : Run net.Step .init es s) : Truthful net s := by
  have htrue := NetTrue.run hrun
  refine ⟨fun v ip mac hfound => ?_, fun v req hreq pkt hpkt => ?_, fun v iface pkt hpkt => ?_⟩
  · obtain ⟨i, hvalid, rfl, rfl⟩ := exists_of_arpcacheLookup hfound
    exact (htrue.box v).entries i hvalid
  · exact ((htrue.box v).queues.waiting req hreq pkt hpkt).1
  · exact ((htrue.box v).queues.sent iface pkt hpkt).2

/-- **Insertions stay inside.** Over every such run a box whose LANs have no more than 32
addresses, its own included, never writes an entry outside its cache. -/
theorem insertions_inside (hfew : Few net v) {es : List (Event V)} (hrun : Run net.Step .init es s) :
    ∀ k ∈ (s.box v).written, 0 ≤ k ∧ k < maxArpSize := ((NetTrue.run hrun).box v).inside hfew

end Steps

/-! ### Two boxes on a LAN -/

def pair : Network Bool Unit where
  ifaces v := [(⟨⟨0, .replicate 6 (if v then 1 else 2)⟩, if v then 0x0A000001 else 0x0A000002⟩, ())]

/-- A packet for the other box. -/
def letter : EtherFrame := ⟨.replicate 6 0, .replicate 6 0, 0, [1, 2, 3]⟩

/-- It waits, is asked for and answered, and goes out. -/
def exchange : List (Event Bool) := [.send true 0 0 0x0A000002 letter, .deliver 0 false 0 5 0, .deliver 1 true 0 7 1]

theorem exchange_some : (runAll pair.step .init exchange).isSome = true := by decide +kernel

theorem pair_truthful : Truthful pair ((runAll pair.step .init exchange).get exchange_some) ∧
    arpcacheLookup (((runAll pair.step .init exchange).get exchange_some).box true).entries 0x0A000002 =
      some (.replicate 6 2) :=
  ⟨network_truthful (Run.of_isSome exchange_some), by decide +kernel⟩

theorem pair_few (v : Bool) : Few pair v := by
  refine ⟨{0x0A000001, 0x0A000002}, by decide, fun ip mac hyp => ?_⟩
  obtain ⟨_, _, w, x, hx, rfl, _⟩ := hyp
  rw [List.mem_singleton.mp hx]
  cases w <;> decide

theorem pair_insertions_inside :
    (((runAll pair.step .init exchange).get exchange_some).box true).written ≠ [] ∧
      ∀ k ∈ (((runAll pair.step .init exchange).get exchange_some).box true).written, 0 ≤ k ∧ k < maxArpSize :=
  ⟨by decide +kernel, insertions_inside (pair_few true) (Run.of_isSome exchange_some)⟩

end NetStack.Arp.Lan
