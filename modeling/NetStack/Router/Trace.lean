import NetStack.Icmp.Error
import NetStack.Router.Forward

/-! What a packet's sender hears of it (`ip.c`, `icmp.c` of `EXP07-Router/07-router`).

A router that does not send a packet on calls `icmp_send_packet` with it. Where the tables lead
back to the sender, the message comes there: so each packet is answered, or leaves the routers for
a next hop, or is heard of, whatever the tables say about its destination (`packet_accounted`). -/
namespace NetStack.Router
open Mospf (RtEntry)

/-- The packet, type and code that `icmp_send_packet` is called with about an error. -/
def Outcome.error : Outcome → Option (Frame × U8 × U8)
  | .timeExceeded packet => some (packet, Icmp.icmpTimeExceeded, Icmp.icmpExcTtl)
  | .netUnreach packet => some (packet, Arp.icmpDestUnreach, Icmp.icmpNetUnreach)
  | _ => none

namespace Network

variable {V : Type} (net : Network V)

/-- What a router does with a packet. -/
def outcome (a : Arrival V) : Outcome :=
  receive (net.rtable a.router) (net.ifaces a.router) (net.ifaces a.router a.iface).ip a.packet

/-- Where a packet comes to that a router sends. -/
def comesTo (v : V) (iface : Nat) (nextHop : U32) (out : Frame) : Option (Arrival V) :=
  (net.link v iface nextHop).map fun x => ⟨x.1, x.2, addressed (net.ifaces x.1 x.2).mac out⟩

/-- The tables lead closer to an address, up to where a measure is zero. -/
def Leads (dst : U32) (m : V → Nat) : Prop :=
  ∀ v, ∃ entry, longestPrefixMatch (net.rtable v) dst = some entry ∧
    (0 < m v → ∃ w i, net.link v entry.iface (if entry.gw = 0 then dst else entry.gw) = some (w, i) ∧ m w < m v)

/-- A packet that a router sends is sent by the last router, or comes to it. -/
def Reaches (m : V → Nat) (v : V) (iface : Nat) (nextHop : U32) (out : Frame) : Prop :=
  m v = 0 ∨ ∃ c n d, net.comesTo v iface nextHop out = some c ∧ net.after n c = some d ∧
    Travelled n out d.packet ∧ m d.router = 0

/-- A packet is sent to a next hop that is no router of these. -/
def Leaves (a : Arrival V) : Prop :=
  ∃ iface nextHop out, net.outcome a = .sent iface nextHop out ∧ net.link a.router iface nextHop = none

/-- Whatever memory `malloc` gives and whatever number `rand`, the source of a packet is told what
became of it. -/
def Told (m : V → Nat) (sent : Frame) (a : Arrival V) : Prop :=
  ∃ packet type code, (net.outcome a).error = some (packet, type, code) ∧ Intact sent.mem packet.mem ∧
    ∀ fresh id, ∃ iface hop out,
      icmpSendPacket (net.rtable a.router) (net.ifaces a.router) fresh id packet type code = some (iface, hop, out) ∧
        ErrorMessage packet type code out ∧ net.Reaches m a.router iface hop out

variable {net : Network V} {a b : Arrival V} {n : Nat} {f out packet : Frame} {type code : U8}

/-! ### Errors -/

/-- The packet an error is about is the one that came in, up to `ttl` and the checksum. -/
theorem outcome_error (h : (net.outcome a).error = some (packet, type, code)) :
    packet.len = a.packet.len ∧ Intact a.packet.mem packet.mem ∧
      (type = Icmp.icmpTimeExceeded ∨ type = Arp.icmpDestUnreach) := by
  unfold outcome receive at h
  cases hhandler : handleIpPacket (net.ifaces a.router a.iface).ip a.packet.mem with
  | echoReply =>
    rw [hhandler] at h
    cases h
  | forward =>
    simp only [hhandler] at h
    rw [ipForwardPackage_eq] at h
    split at h
    · cases h
      exact ⟨rfl, fun i _ h8 _ _ => store8_other _ _ h8, .inl rfl⟩
    · split at h
      · cases h
        exact ⟨rfl, fun i _ h8 h10 h11 => (store16_other _ _ h10 h11).trans (store8_other _ _ h8), .inr rfl⟩
      · cases h

/-- A packet that is not sent on to a router is answered, leaves the routers, or is an error. -/
theorem last_cases (h : net.next a = none) :
    net.Answers a ∨ (net.outcome a).error.isSome ∨ net.Leaves a := by
  unfold next at h
  unfold Answers Leaves outcome
  cases hhandler : handleIpPacket (net.ifaces a.router a.iface).ip a.packet.mem with
  | echoReply => exact .inl rfl
  | forward =>
    refine .inr ?_
    simp only [receive, hhandler] at h ⊢
    rw [ipForwardPackage_eq] at h ⊢
    split
    · exact .inl rfl
    · next hhops =>
      rw [if_neg hhops] at h
      split
      · exact .inl rfl
      · next entry hroute =>
        rw [hroute] at h
        exact .inr ⟨_, _, _, rfl, Option.map_eq_none_iff.mp h⟩

/-! ### Messages on their way -/

/-- A packet that is sent goes where the route for its destination leads. -/
theorem ipSendPacket_via {rtable : List RtEntry} {ifaces : Nat → IfaceInfo} {iface : Nat} {hop : U32}
    (h : ipSendPacket rtable ifaces f = some (iface, hop, out)) {entry : RtEntry}
    (hroute : longestPrefixMatch rtable (dstAddr out) = some entry) :
    iface = entry.iface ∧ hop = if entry.gw = 0 then dstAddr out else entry.gw := by
  have hfound := h
  rw [ipSendPacket] at hfound
  obtain ⟨entry', hroute', hsent⟩ := Option.map_eq_some_iff.mp hfound
  obtain ⟨_, _, out', hsend, _, hether⟩ := ipSendPacket_route ifaces f hroute'
  rw [h] at hsend
  obtain rfl : out = out' := by cases hsend; rfl
  have hdst : dstAddr out = ntohl (iphdr f.mem etherHdrSize).daddr := by
    rw [dstAddr, iphdr_congr (hether _ _ (by decide)) (hether _ _ (by decide))]
  rw [← hdst] at hroute' hsent
  obtain rfl : entry = entry' := Option.some.inj (hroute.symm.trans hroute')
  cases hsent
  exact ⟨rfl, rfl⟩

/-- The Ethernet address does not count. -/
theorem travelled_addressed {mac : Mac} (h : Travelled n (addressed mac f) out) : Travelled n f out := by
  have hsame : Intact f.mem (addressed mac f).mem := by
    intro i hi _ _ _
    have hbehind : 14 ≤ i := hi
    exact addressed_mem mac f (by omega)
  have httl : (addressed mac f).hopsLeft = f.hopsLeft := by
    rw [Frame.hopsLeft, Frame.hopsLeft, Frame.ttl, Frame.ttl, Mem.load8, Mem.load8, addressed_mem mac f (by decide)]
  exact ⟨h.len, h.hops.trans httl, hsame.trans h.intact, fun hn hihl => h.checksum hn (hsame.iphdr ▸ hihl)⟩

/-- A message about an error is no request, wherever it comes. -/
theorem not_answers_message (h : ErrorMessage f type code out) (htype : type ≠ icmpEchoRequest)
    (hihl : (iphdr out.mem etherHdrSize).ihl = 5) (htravelled : Travelled n out a.packet) : ¬net.Answers a := by
  intro hanswers
  unfold Answers handleIpPacket at hanswers
  have hdata : ipData out.mem = 34 := by rw [ipData, Iphdr.size, hihl]; rfl
  have hsame : a.packet.mem.load8 (ipData a.packet.mem) = type := by
    have hplace : ipData a.packet.mem = 34 := by rw [ipData, htravelled.intact.iphdr, ← ipData, hdata]
    rw [hplace, ← h.type, hdata]
    exact htravelled.intact 34 (by decide) (by decide) (by decide) (by decide)
  rw [hsame, if_neg fun hboth => htype hboth.1] at hanswers
  cases hanswers

/-- A message about an error comes to the last router on the way of its addressee. -/
theorem Leads.reaches {m : V → Nat} {v : V} {rtEntry : RtEntry} (hleads : net.Leads (dstAddr out) m)
    (hmessage : ErrorMessage f type code out) (htype : type ≠ icmpEchoRequest)
    (hihl : (iphdr out.mem etherHdrSize).ihl = 5) (hnear : m v ≤ 64)
    (hroute : longestPrefixMatch (net.rtable v) (dstAddr out) = some rtEntry) :
    net.Reaches m v rtEntry.iface (if rtEntry.gw = 0 then dstAddr out else rtEntry.gw) out := by
  obtain ⟨entry, hentry, hlead⟩ := hleads v
  obtain rfl : rtEntry = entry := Option.some.inj (hroute.symm.trans hentry)
  by_cases hlast : m v = 0
  · exact .inl hlast
  · obtain ⟨w, i, hlink, hless⟩ := hlead (Nat.pos_of_ne_zero hlast)
    let c : Arrival V := ⟨w, i, addressed (net.ifaces w i).mac out⟩
    have hstart : Travelled 0 out c.packet := travelled_addressed (Travels.nil _).travelled
    have hdst : dstAddr c.packet = dstAddr out := by rw [dstAddr, hstart.intact.iphdr, dstAddr]
    have hhops : out.hopsLeft = 63 := by rw [Frame.hopsLeft, hmessage.ttl]; rfl
    have hleft := hstart.hops
    have hcloser : ∀ v, 0 < m v → ∃ entry w i, longestPrefixMatch (net.rtable v) (dstAddr out) = some entry ∧
        net.link v entry.iface (if entry.gw = 0 then dstAddr out else entry.gw) = some (w, i) ∧ m w < m v := by
      intro v hv
      obtain ⟨entry, hentry, hlead⟩ := hleads v
      obtain ⟨w, i, hlink, hless⟩ := hlead hv
      exact ⟨entry, w, i, hentry, hlink, hless⟩
    obtain ⟨n, _, d, hafter, htravelled, hthere⟩ := comes_there (a := c) m hcloser hdst (by
      show m w ≤ _
      omega)
    have htravelled := travelled_addressed htravelled
    refine .inr ⟨c, n, d, by rw [comesTo, hlink]; rfl, hafter, htravelled, hthere.resolve_right ?_⟩
    exact not_answers_message hmessage htype hihl htravelled

/-- What `icmp_send_packet` makes of an error comes back, and is as it should be. -/
theorem message_reaches {src : U32} {m : V → Nat} {v : V} (hleads : net.Leads src m) (hnear : m v ≤ 64)
    (hsrc : ntohl (iphdr f.mem etherHdrSize).saddr = src) (hihl : (iphdr f.mem etherHdrSize).ihl = 5)
    (hlen : etherHdrSize + 28 ≤ f.len) (htype : type = Icmp.icmpTimeExceeded ∨ type = Arp.icmpDestUnreach)
    (fresh : Mem) (id : U16) :
    ∃ iface hop out, icmpSendPacket (net.rtable v) (net.ifaces v) fresh id f type code = some (iface, hop, out) ∧
      ErrorMessage f type code out ∧ net.Reaches m v iface hop out := by
  obtain ⟨entry, hroute, _⟩ := hleads v
  rw [← hsrc] at hroute
  have hno : type ≠ icmpEchoReply ∧ type ≠ icmpEchoRequest := by
    obtain rfl | rfl := htype <;> decide
  obtain ⟨iface, hop, out, hsend, hbuilt⟩ :=
    icmpSendPacket_errorBuilt (net.ifaces v) fresh id code (by omega) hno.1 hroute
  have hmessage := hbuilt.message hihl hlen
  have hdst : dstAddr out = src := by rw [dstAddr, hmessage.daddr, hsrc]
  have hvia := hsend
  rw [icmpSendPacket_error _ _ _ hno.1 hroute] at hvia
  obtain ⟨rfl, rfl⟩ := ipSendPacket_via hvia (hdst ▸ hsrc ▸ hroute)
  rw [← hdst] at hleads
  exact ⟨_, _, out, hsend, hmessage, hleads.reaches hmessage hno.2 hbuilt.ihl hnear (hdst ▸ hsrc ▸ hroute)⟩

/-- **No packet is lost without notice.** Whatever the tables say about other addresses, if they lead
back to a packet's source, never over more than 64 hops, then the packet is answered, or leaves the
routers for a next hop, or `icmp_send_packet` is called with what it has become; and the message
made then is as it should be, and comes to the last router before the source. -/
theorem packet_accounted {src : U32} (m : V → Nat) (hleads : net.Leads src m) (hnear : ∀ v, m v ≤ 64)
    (hsrc : ntohl (iphdr a.packet.mem etherHdrSize).saddr = src)
    (hihl : (iphdr a.packet.mem etherHdrSize).ihl = 5) (hlen : etherHdrSize + 28 ≤ a.packet.len) :
    ∃ n b, net.after n a = some b ∧ (net.Answers b ∨ net.Leaves b ∨ net.Told m a.packet b) := by
  obtain ⟨n, b, hafter, hlast⟩ := exists_last net a
  refine ⟨n, b, hafter, ?_⟩
  obtain hanswers | herror | hleft := last_cases hlast
  · exact .inl hanswers
  · obtain ⟨⟨packet, type, code⟩, herror⟩ := Option.isSome_iff_exists.mp herror
    obtain ⟨hlen', hintact, htype⟩ := outcome_error herror
    have htravelled := (after_travels hafter).travelled
    have hintact := htravelled.intact.trans hintact
    refine .inr (.inr ⟨packet, type, code, herror, hintact, fun fresh id => ?_⟩)
    refine message_reaches hleads (hnear _) ?_ ?_ ?_ htype fresh id
    · rw [hintact.iphdr, hsrc]
    · rw [hintact.iphdr, hihl]
    · rw [hlen', htravelled.len]
      exact hlen
  · exact .inr (.inl hleft)

/-- A packet that is answered, leaves or is an error goes on to no router. -/
theorem next_of_accounted {m : V → Nat} {sent : Frame} (h : net.Answers a ∨ net.Leaves a ∨ net.Told m sent a) :
    net.next a = none := by
  rcases h with hanswers | ⟨iface, hop, out, hsent, hlink⟩ | ⟨packet, type, code, herror, -⟩
  · unfold next receive
    rw [hanswers]
  · unfold next
    rw [show receive _ _ _ _ = _ from hsent]
    simp only [hlink, Option.map_none]
  · unfold next
    cases houtcome : net.outcome a with
    | sent iface hop out =>
      rw [houtcome] at herror
      cases herror
    | _ => rw [show receive _ _ _ _ = _ from houtcome]

/-- The packet from h1, longer and with one hop left. -/
def fromH1Expiring : Arrival Bool :=
  { fromH1 with
    packet.mem := fromH1.packet.mem.store8 22 2
    packet.len := 42 }

/-- At r2 it runs out, and h1 is told. -/
theorem packet_accounted_twoRouters :
    ∃ b, twoRouters.next fromH1Expiring = some b ∧ b.router = false ∧
      twoRouters.Told (fun v => if v then 0 else 1) fromH1Expiring.packet b := by
  have hleads : twoRouters.Leads 0x0a00010b fun v => if v then 0 else 1 := by
    intro v
    cases v with
    | true => exact ⟨⟨0x0a000100, 0xffffff00, 0, 0⟩, by decide, fun h => absurd h (by decide)⟩
    | false => exact ⟨⟨0x0a000100, 0xffffff00, 0x0a000301, 1⟩, by decide, fun _ => ⟨true, 1, by decide, by decide⟩⟩
  obtain ⟨n, b, hafter, hend⟩ :=
    packet_accounted (a := fromH1Expiring) _ hleads (by decide) (by decide) (by decide) (by decide)
  obtain ⟨b₁, hb₁⟩ := Option.isSome_iff_exists.mp (show (twoRouters.next fromH1Expiring).isSome = true by decide)
  have hrouter : (twoRouters.next fromH1Expiring).map Arrival.router = some false := by decide
  have hexpires : ((twoRouters.next fromH1Expiring).bind fun a => (twoRouters.outcome a).error).isSome = true := by
    decide
  have hlast : (twoRouters.next fromH1Expiring).bind twoRouters.next = none :=
    Option.isNone_iff_eq_none.mp (by decide)
  rw [hb₁] at hrouter hexpires hlast
  have hend' := next_of_accounted hend
  obtain rfl : b = b₁ := by
    cases n with
    | zero =>
      obtain rfl := Option.some.inj hafter
      rw [hb₁] at hend'
      cases hend'
    | succ n =>
      rw [after, hb₁, Option.bind_some] at hafter
      cases n with
      | zero => exact (Option.some.inj hafter).symm
      | succ n =>
        rw [after, show twoRouters.next b₁ = none from hlast] at hafter
        cases hafter
  refine ⟨b, hb₁, Option.some.inj hrouter, ?_⟩
  have herror : (twoRouters.outcome b).error.isSome = true := hexpires
  rcases hend with hanswers | ⟨iface, hop, out, hsent, -⟩ | htold
  · have houtcome : twoRouters.outcome b = .echoReply := by
      unfold outcome receive
      rw [hanswers]
    rw [houtcome] at herror
    cases herror
  · rw [hsent] at herror
    cases herror
  · exact htold

end Network

end NetStack.Router
