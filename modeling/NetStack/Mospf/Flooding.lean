import NetStack.Lib.Distance
import NetStack.Lib.Run
import NetStack.Mospf.Network

/-! Flooding.

Routers emit LSUs and hand on the ones that are news to them, over a network that
delivers every packet once, in any order. The invariant says of each pair of neighbours
that what the one knows of a router the other knows too, or is about to hear, and of each
packet that its TTL is spent only on routers that have handed it on, none of them twice.
When nothing is in flight every router therefore knows the last LSU of every other. -/
namespace NetStack.Mospf

/-- All routers and the packets in flight; with it what has been forwarded, as (router,
rid, seq), and the LSU each router emitted last. -/
structure NetState (n : Nat) where
  sequenceNum : Fin n → U16
  mospfDb : Fin n → List MospfDbEntry
  flight : List LsuPacket
  forwarded : List (Fin n × U32 × U16)
  latest : Fin n → Option LsuPacket

/-- A router emits its LSU, or a packet in flight is delivered. -/
inductive NetEvent (n : Nat)
  | emit (v : Fin n)
  | deliver (k : Nat)
deriving DecidableEq

/-- No LSU has been emitted. -/
def NetState.init {n : Nat} : NetState n := ⟨fun _ => 0, fun _ => [], [], [], fun _ => none⟩

namespace Network

variable {n : Nat} (net : Network n)

/-- A router's `instance`. -/
def inst (s : NetState n) (v : Fin n) : Instance := ⟨net.routerId v, s.sequenceNum v, net.ifaces v⟩

/-- A router's `sending_mospf_lsu`. -/
def emit (s : NetState n) (v : Fin n) : NetState n :=
  let (inst, sent) := sendingMospfLsu (net.inst s v)
  { s with
    sequenceNum := Function.update s.sequenceNum v inst.sequenceNum
    flight := s.flight ++ sent
    latest := Function.update s.latest v sent.head? }

/-- A router's `handle_mospf_lsu` of a packet that leaves the flight. -/
def receive (s : NetState n) (v : Fin n) (packet : LsuPacket) (flight : List LsuPacket) : NetState n :=
  let (mospfDb, sent) := handleMospfLsu (net.inst s v) (s.mospfDb v) packet
  { s with
    mospfDb := Function.update s.mospfDb v mospfDb
    flight := flight ++ sent
    forwarded := if sent = [] then s.forwarded else (v, packet.rid, packet.seq) :: s.forwarded }

/-- One step. -/
def step (s : NetState n) : NetEvent n → Option (NetState n)
  | .emit v => some (net.emit s v)
  | .deliver k =>
    match s.flight[k]? with
    | none => none
    | some packet =>
      match net.locate packet.daddr with
      | none => none
      | some v => some (net.receive s v packet (s.flight.eraseIdx k))

/-- The step as a relation. -/
def Step (s : NetState n) (e : NetEvent n) (t : NetState n) : Prop := net.step s e = some t

/-- What a router knows of a router: of itself its sequence number, of another the one in
the database. -/
def known (s : NetState n) (v r : Fin n) : Nat :=
  if v = r then (s.sequenceNum r).toNat else heldSeq (s.mospfDb v) (net.routerId r)

/-- The routers that have forwarded an LSU. -/
def forwarders (s : NetState n) (rid : U32) (seq : U16) : Finset (Fin n) :=
  Finset.univ.filter fun w => (w, rid, seq) ∈ s.forwarded

variable {net} {s t : NetState n} {u v w r : Fin n} {packet : LsuPacket} {entry : MospfDbEntry}

/-! ### The invariant -/

/-- One of the LSUs a router has emitted. -/
structure OfRouter (net : Network n) (s : NetState n) (r : Fin n) (packet : LsuPacket) : Prop where
  rid : packet.rid = net.routerId r
  pos : 0 < packet.seq.toNat
  seq : packet.seq.toNat ≤ (s.sequenceNum r).toNat
  nadv : packet.nadv = BitVec.ofNat 32 (nbrNum (net.ifaces r))
  lsas : packet.lsas = lsaArray (net.ifaces r)

/-- A packet in flight is a router's, on its way to another, with the TTL that the routers
that forwarded it have left. -/
def PacketSound (net : Network n) (s : NetState n) (packet : LsuPacket) : Prop :=
  ∃ r v, net.OfRouter s r packet ∧ net.locate packet.daddr = some v ∧ v ≠ r ∧
    maxLsuTtl.toNat ≤ packet.ttl.toNat + (forwarders s packet.rid packet.seq).card

/-- An entry stores another router's LSU. -/
def EntrySound (net : Network n) (s : NetState n) (v : Fin n) (entry : MospfDbEntry) : Prop :=
  ∃ r packet, v ≠ r ∧ net.OfRouter s r packet ∧ Stores entry packet

/-- Something at least as new as this is on its way to a router. -/
def Owed (net : Network n) (s : NetState n) (v r : Fin n) (seq : Nat) : Prop :=
  ∃ packet ∈ s.flight, net.locate packet.daddr = some v ∧ packet.rid = net.routerId r ∧
    seq ≤ packet.seq.toNat

/-- What holds in every state. -/
structure Flooded (net : Network n) (s : NetState n) : Prop where
  packets : ∀ packet ∈ s.flight, net.PacketSound s packet
  entries : ∀ v, ∀ entry ∈ s.mospfDb v, net.EntrySound s v entry
  nodup : ∀ v, ((s.mospfDb v).map (·.rid)).Nodup
  once : s.forwarded.Nodup
  taken : ∀ v rid seq, (v, rid, seq) ∈ s.forwarded →
    rid ≠ net.routerId v ∧ seq.toNat ≤ heldSeq (s.mospfDb v) rid
  latest : ∀ r packet, s.latest r = some packet →
    net.OfRouter s r packet ∧ packet.seq = s.sequenceNum r
  reached : ∀ r, s.latest r = none → (∃ w, net.graph.Adj r w) → s.sequenceNum r = 0
  spreads : ∀ u v r, net.graph.Adj u v → v ≠ r →
    net.known s u r ≤ net.known s v r ∨ net.Owed s v r (net.known s u r)

theorem OfRouter.mono (h : net.OfRouter s r packet)
    (hseq : (s.sequenceNum r).toNat ≤ (t.sequenceNum r).toNat) : net.OfRouter t r packet :=
  ⟨h.rid, h.pos, h.seq.trans hseq, h.nadv, h.lsas⟩

theorem EntrySound.mono (h : net.EntrySound s v entry)
    (hseq : ∀ r, (s.sequenceNum r).toNat ≤ (t.sequenceNum r).toNat) : net.EntrySound t v entry := by
  obtain ⟨r, packet, hne, hof, hstores⟩ := h
  exact ⟨r, packet, hne, hof.mono (hseq r), hstores⟩

theorem PacketSound.mono (h : net.PacketSound s packet)
    (hseq : ∀ r, (s.sequenceNum r).toNat ≤ (t.sequenceNum r).toNat)
    (hlog : s.forwarded ⊆ t.forwarded) : net.PacketSound t packet := by
  obtain ⟨r, v, hof, hloc, hne, httl⟩ := h
  refine ⟨r, v, hof.mono (hseq r), hloc, hne, httl.trans (Nat.add_le_add_left ?_ _)⟩
  exact Finset.card_le_card (Finset.monotone_filter_right _ fun w _ hw => hlog hw)

theorem Owed.mono {seq : Nat} (hflight : s.flight ⊆ t.flight) (h : net.Owed s v r seq) :
    net.Owed t v r seq := by
  obtain ⟨packet, hpacket, h⟩ := h
  exact ⟨packet, hflight hpacket, h⟩

theorem known_self : net.known s r r = (s.sequenceNum r).toNat := if_pos rfl

theorem known_ne (h : v ≠ r) : net.known s v r = heldSeq (s.mospfDb v) (net.routerId r) := if_neg h

/-- No router knows more of a router than there is. -/
theorem Flooded.known_le (h : net.Flooded s) (v r : Fin n) :
    net.known s v r ≤ (s.sequenceNum r).toNat := by
  by_cases hvr : v = r
  · rw [hvr, known_self]
  · rw [known_ne hvr, heldSeq]
    cases hentry : entryOf (s.mospfDb v) (net.routerId r) with
    | none => exact Nat.zero_le _
    | some entry =>
      obtain ⟨hmem, hrid⟩ := entryOf_mem hentry
      obtain ⟨r', packet, -, hof, hstores⟩ := h.entries v entry hmem
      obtain rfl := net.id_injective (hof.rid.symm.trans (hstores.rid.symm.trans hrid))
      show entry.seq.toNat ≤ _
      rw [hstores.seq]
      exact hof.seq

theorem flooded_init : net.Flooded NetState.init where
  packets _ h := nomatch h
  entries _ _ h := nomatch h
  nodup _ := List.nodup_nil
  once := List.nodup_nil
  taken _ _ _ h := nomatch h
  latest _ _ h := nomatch h
  reached _ _ _ := rfl
  spreads u v r _ _ := by
    refine .inl (le_of_eq_of_le ?_ (Nat.zero_le _))
    unfold known
    split <;> rfl

/-! ### Emission -/

@[simp] theorem emit_sequenceNum :
    (net.emit s v).sequenceNum = Function.update s.sequenceNum v (s.sequenceNum v + 1) := rfl

@[simp] theorem emit_latest : (net.emit s v).latest =
    Function.update s.latest v (sendingMospfLsu (net.inst s v)).2.head? := rfl

/-- A router's next sequence number is one more as long as the counter does not wrap. -/
theorem seq_emit (hwrap : (s.sequenceNum v).toNat + 1 < 2 ^ 16) :
    (s.sequenceNum v + 1).toNat = (s.sequenceNum v).toNat + 1 := by
  rw [BitVec.toNat_add]
  exact Nat.mod_eq_of_lt hwrap

theorem seq_le_emit (hwrap : (s.sequenceNum v).toNat + 1 < 2 ^ 16) (r : Fin n) :
    (s.sequenceNum r).toNat ≤ ((net.emit s v).sequenceNum r).toNat := by
  rw [emit_sequenceNum]
  by_cases hrv : r = v
  · rw [hrv, Function.update_self, seq_emit hwrap]
    omega
  · rw [Function.update_of_ne hrv]

/-- What an emission sends is the router's, newly numbered. -/
theorem ofRouter_sent (hwrap : (s.sequenceNum v).toNat + 1 < 2 ^ 16)
    (hpacket : packet ∈ (sendingMospfLsu (net.inst s v)).2) :
    net.OfRouter (net.emit s v) v packet ∧ packet.seq = (net.emit s v).sequenceNum v := by
  have hseq : (net.emit s v).sequenceNum v = s.sequenceNum v + 1 := Function.update_self ..
  obtain ⟨iface, hiface, nbr, hnbr, rfl⟩ := mem_sent.mp hpacket
  refine ⟨⟨rfl, ?_, by rw [hseq]; exact le_refl _, rfl, rfl⟩, hseq.symm⟩
  show 0 < (s.sequenceNum v + 1).toNat
  rw [seq_emit hwrap]
  omega

/-- Every neighbour is sent a copy. -/
theorem sent_adj (hadj : net.graph.Adj v w) :
    ∃ packet ∈ (sendingMospfLsu (net.inst s v)).2, net.locate packet.daddr = some w := by
  obtain ⟨i, hi, nbr, hnbr, -, hloc⟩ := adj_nbr hadj
  exact ⟨_, mem_sent.mpr ⟨i, hi, nbr, hnbr, rfl⟩, hloc⟩

/-- Emission does not change what is known of other routers, nor what others know. -/
theorem known_emit (h : u ≠ v ∨ r ≠ v) : net.known (net.emit s v) u r = net.known s u r := by
  unfold known
  by_cases hur : u = r
  · subst hur
    rw [if_pos rfl, if_pos rfl]
    show (Function.update s.sequenceNum v _ u).toNat = _
    rw [Function.update_of_ne (h.elim id id)]
  · rw [if_neg hur, if_neg hur]
    rfl

theorem Flooded.emit (h : net.Flooded s) (hwrap : (s.sequenceNum v).toNat + 1 < 2 ^ 16) :
    net.Flooded (net.emit s v) where
  packets packet hpacket := by
    rcases List.mem_append.mp hpacket with hold | hnew
    · exact (h.packets packet hold).mono (seq_le_emit hwrap) fun _ hx => hx
    · obtain ⟨hof, -⟩ := ofRouter_sent hwrap hnew
      obtain ⟨iface, hiface, nbr, hnbr, rfl⟩ := mem_sent.mp hnew
      obtain ⟨w, hadj, -, hloc⟩ := nbr_locate hiface hnbr
      exact ⟨v, w, hof, hloc, hadj.ne', Nat.le_add_right _ _⟩
  entries w entry hentry := (h.entries w entry hentry).mono (seq_le_emit hwrap)
  nodup := h.nodup
  once := h.once
  taken := h.taken
  latest r packet hlatest := by
    by_cases hrv : r = v
    · subst hrv
      rw [emit_latest, Function.update_self] at hlatest
      exact ofRouter_sent hwrap (List.mem_of_mem_head? hlatest)
    · rw [show (net.emit s v).latest r = _ from Function.update_of_ne hrv ..] at hlatest
      rw [show (net.emit s v).sequenceNum r = _ from Function.update_of_ne hrv ..]
      obtain ⟨hof, hseq⟩ := h.latest r packet hlatest
      exact ⟨hof.mono (seq_le_emit hwrap r), hseq⟩
  reached r hlatest hnbr := by
    by_cases hrv : r = v
    · subst hrv
      rw [emit_latest, Function.update_self] at hlatest
      obtain ⟨w, hadj⟩ := hnbr
      obtain ⟨packet, hpacket, -⟩ := sent_adj (s := s) hadj
      rw [List.head?_eq_none_iff.mp hlatest] at hpacket
      cases hpacket
    · rw [show (net.emit s v).latest r = _ from Function.update_of_ne hrv ..] at hlatest
      rw [show (net.emit s v).sequenceNum r = _ from Function.update_of_ne hrv ..]
      exact h.reached r hlatest hnbr
  spreads u w r hadj hwr := by
    by_cases hnews : u = v ∧ r = v
    · obtain ⟨rfl, rfl⟩ := hnews
      obtain ⟨packet, hpacket, hloc⟩ := sent_adj (s := s) hadj
      obtain ⟨hof, hseq⟩ := ofRouter_sent hwrap hpacket
      refine .inr ⟨packet, List.mem_append_right _ hpacket, hloc, hof.rid, ?_⟩
      rw [known_self, hseq]
    · rw [known_emit (by omega), known_emit (v := v) (u := w) (by omega)]
      exact (h.spreads u w r hadj hwr).imp id (Owed.mono (List.subset_append_left _ _))

/-! ### Delivery -/

theorem mem_erase {k : Nat} {other : LsuPacket} (hk : s.flight[k]? = some packet) (hother : other ∈ s.flight) :
    other = packet ∨ other ∈ s.flight.eraseIdx k := by
  obtain ⟨i, hi⟩ := List.getElem?_of_mem hother
  by_cases hik : i = k
  · rw [hik, hk] at hi
    exact .inl (Option.some.inj hi.symm)
  · exact .inr (List.mem_eraseIdx_iff_getElem?.mpr ⟨i, hik, hi⟩)

section Receive

variable {flight : List LsuPacket} {db' : List MospfDbEntry} {k : Nat}

/-- A packet that is no news leaves the flight. -/
theorem receive_stale (hstale : updateDb (s.mospfDb v) packet = none) :
    net.receive s v packet flight = { s with flight := flight } := by
  simp [receive, handleMospfLsu, hstale]

/-- The copies of news. -/
def copies (net : Network n) (v : Fin n) (packet : LsuPacket) : List LsuPacket :=
  forward (net.ifaces v) { packet with ttl := packet.ttl - 1 }

/-- The state when a packet has been stored and handed on. -/
def stored (net : Network n) (s : NetState n) (v : Fin n) (packet : LsuPacket) (flight : List LsuPacket)
    (db' : List MospfDbEntry) : NetState n :=
  { s with
    mospfDb := Function.update s.mospfDb v db'
    flight := flight ++ net.copies v packet
    forwarded :=
      if net.copies v packet = [] then s.forwarded else (v, packet.rid, packet.seq) :: s.forwarded }

/-- A packet that is news is stored and handed on. -/
theorem receive_news (hnews : updateDb (s.mospfDb v) packet = some db') (httl : 2 < packet.ttl.toNat) :
    net.receive s v packet flight = net.stored s v packet flight db' := by
  have hlive : 0 < packet.ttl - 1 := by bv_omega
  simp only [receive, handleMospfLsu, hnews, hlive, if_true]
  rfl

theorem mem_stored_forwarded {x : Fin n × U32 × U16} (h : x ∈ (net.stored s v packet flight db').forwarded) :
    x = (v, packet.rid, packet.seq) ∨ x ∈ s.forwarded := by
  unfold stored at h
  split at h
  · exact .inr h
  · exact List.mem_cons.mp h

theorem subset_stored_forwarded : s.forwarded ⊆ (net.stored s v packet flight db').forwarded := by
  unfold stored
  split
  · exact fun _ hx => hx
  · exact List.subset_cons_self ..

/-- A copy of a router's LSU goes to a neighbour, though not to that router. -/
theorem mem_copies {copy : LsuPacket} (hof : net.OfRouter s r packet) (hcopy : copy ∈ net.copies v packet) :
    net.OfRouter s r copy ∧ copy.seq = packet.seq ∧ copy.ttl = packet.ttl - 1 ∧
      ∃ w, w ≠ r ∧ net.locate copy.daddr = some w := by
  obtain ⟨iface, hiface, nbr, hnbr, hne, rfl⟩ := mem_forward.mp hcopy
  obtain ⟨w, -, hid, hloc⟩ := nbr_locate hiface hnbr
  refine ⟨⟨hof.rid, hof.pos, hof.seq, hof.nadv, hof.lsas⟩, rfl, rfl, w, ?_, hloc⟩
  intro heq
  subst heq
  exact hne (hid.trans hof.rid.symm)

/-- Every neighbour but the originator is sent one. -/
theorem copies_adj (hof : net.OfRouter s r packet) (hadj : net.graph.Adj v w) (hwr : w ≠ r) :
    ∃ copy ∈ net.copies v packet, net.locate copy.daddr = some w := by
  obtain ⟨i, hi, nbr, hnbr, hid, hloc⟩ := adj_nbr hadj
  refine ⟨_, mem_forward.mpr ⟨i, hi, nbr, hnbr, ?_, rfl⟩, hloc⟩
  rw [hid]
  exact fun h => hwr (net.id_injective (h.trans hof.rid))

theorem Flooded.stale (h : net.Flooded s) (hk : s.flight[k]? = some packet)
    (hloc : net.locate packet.daddr = some v) (hstale : updateDb (s.mospfDb v) packet = none) :
    net.Flooded { s with flight := s.flight.eraseIdx k } where
  packets other hother := (h.packets other (List.mem_of_mem_eraseIdx hother)).mono
    (fun _ => le_refl _) fun _ hx => hx
  entries w entry hentry := (h.entries w entry hentry).mono fun _ => le_refl _
  nodup := h.nodup
  once := h.once
  taken := h.taken
  latest r packet hlatest := by
    obtain ⟨hof, hseq⟩ := h.latest r packet hlatest
    exact ⟨hof.mono (le_refl _), hseq⟩
  reached := h.reached
  spreads u w r hadj hwr := by
    rcases h.spreads u w r hadj hwr with hknown | ⟨other, hother, hloc', hrid, hseq⟩
    · exact .inl hknown
    rcases mem_erase hk hother with rfl | hother
    · -- what was owed is held already
      obtain rfl := Option.some.inj (hloc.symm.trans hloc')
      refine .inl (le_trans hseq ?_)
      show _ ≤ net.known s v r
      rw [known_ne hwr, ← hrid]
      exact updateDb_none hstale
    · exact .inr ⟨other, hother, hloc', hrid, hseq⟩

/-- Those that forwarded a packet are neither its originator nor the router it comes to
as news. -/
theorem Flooded.forwarders_card (h : net.Flooded s) (hof : net.OfRouter s r packet) (hvr : v ≠ r)
    (hnews : updateDb (s.mospfDb v) packet = some db') :
    v ∉ forwarders s packet.rid packet.seq ∧ (forwarders s packet.rid packet.seq).card + 2 ≤ n := by
  have hv : v ∉ forwarders s packet.rid packet.seq := by
    intro hin
    have hle := (h.taken v _ _ (Finset.mem_filter.mp hin).2).2
    have hlt := heldSeq_lt hnews hof.pos
    omega
  have hr : r ∉ insert v (forwarders s packet.rid packet.seq) := by
    intro hin
    rcases Finset.mem_insert.mp hin with hin | hin
    · exact hvr hin.symm
    · exact (h.taken r _ _ (Finset.mem_filter.mp hin).2).1 hof.rid
  refine ⟨hv, ?_⟩
  have hcard := Finset.card_le_univ (insert r (insert v (forwarders s packet.rid packet.seq)))
  rwa [Finset.card_insert_of_notMem hr, Finset.card_insert_of_notMem hv, Fintype.card_fin] at hcard

/-- The TTL does not run out. -/
theorem Flooded.ttl_pos (h : net.Flooded s) (hn : n ≤ 254) (hpacket : net.PacketSound s packet)
    (hloc : net.locate packet.daddr = some v) (hnews : updateDb (s.mospfDb v) packet = some db') :
    2 < packet.ttl.toNat := by
  obtain ⟨r, w, hof, hloc', hwr, httl⟩ := hpacket
  obtain rfl := Option.some.inj (hloc.symm.trans hloc')
  have hcard := (h.forwarders_card hof hwr hnews).2
  have hmax : maxLsuTtl.toNat = 255 := rfl
  omega

/-- A database that stores genuine LSUs stores one more. -/
theorem EntrySound.taken (hdb : ∀ entry ∈ s.mospfDb v, net.EntrySound s v entry)
    (hof : net.OfRouter s r packet) (hnews : updateDb (s.mospfDb v) packet = some db')
    (hentry : entryOf db' packet.rid = some entry) : Stores entry packet := by
  rw [(updateDb_some hnews).taken] at hentry
  cases hold : entryOf (s.mospfDb v) packet.rid with
  | none =>
    rw [hold] at hentry
    cases hentry
    exact ⟨rfl, rfl, rfl, rfl⟩
  | some old =>
    rw [hold] at hentry
    cases hentry
    obtain ⟨hmem, hrid⟩ := entryOf_mem hold
    obtain ⟨r', packet', -, hof', hstores⟩ := hdb old hmem
    obtain rfl := net.id_injective (hof'.rid.symm.trans (hstores.rid.symm.trans (hrid.trans hof.rid)))
    -- the topology does not change, so the array is as long as before
    have harray : old.array = packet.adverts := by
      rw [hstores.array, LsuPacket.adverts, LsuPacket.adverts, hof'.lsas, hof'.nadv, hof.lsas, hof.nadv]
    refine ⟨hrid, rfl, rfl, ?_⟩
    show packet.adverts ++ old.array.drop packet.nadv.toNat = packet.adverts
    rw [harray, LsuPacket.adverts, List.drop_take, Nat.sub_self, List.take_zero, List.append_nil]

/-! ### News -/

variable (hof : net.OfRouter s r packet) (hnews : updateDb (s.mospfDb v) packet = some db')
include hof hnews

/-- What a router knows after news. -/
theorem known_news (hvr : v ≠ r) (w q : Fin n) : net.known (net.stored s v packet flight db') w q =
    if w = v ∧ q = r then packet.seq.toNat else net.known s w q := by
  unfold known
  show (if w = q then _ else heldSeq (Function.update s.mospfDb v db' w) _) = _
  by_cases hwq : w = q
  · rw [if_pos hwq, if_pos hwq, if_neg fun ⟨hw, hq⟩ => hvr (hw ▸ hwq.trans hq)]
    rfl
  · rw [if_neg hwq, if_neg hwq]
    by_cases hwv : w = v
    · subst hwv
      rw [Function.update_self]
      by_cases hqr : q = r
      · rw [if_pos ⟨rfl, hqr⟩, hqr, ← hof.rid, heldSeq_updateDb hnews]
      · rw [if_neg fun h => hqr h.2]
        exact heldSeq_updateDb_ne hnews fun heq => hqr (net.id_injective (heq.trans hof.rid))
    · rw [Function.update_of_ne hwv, if_neg fun h => hwv h.1]

/-- What a router holds of another only gets newer. -/
theorem heldSeq_mono (w : Fin n) (rid : U32) :
    heldSeq (s.mospfDb w) rid ≤ heldSeq ((net.stored s v packet flight db').mospfDb w) rid := by
  show _ ≤ heldSeq (Function.update s.mospfDb v db' w) rid
  by_cases hwv : w = v
  · subst hwv
    rw [Function.update_self]
    by_cases hrid : rid = packet.rid
    · rw [hrid, heldSeq_updateDb hnews]
      exact le_of_lt (heldSeq_lt hnews hof.pos)
    · rw [heldSeq_updateDb_ne hnews hrid]
  · rw [Function.update_of_ne hwv]

theorem Flooded.taken_news (h : net.Flooded s) (hvr : v ≠ r) (w : Fin n) (rid : U32) (seq : U16)
    (hin : (w, rid, seq) ∈ (net.stored s v packet flight db').forwarded) :
    rid ≠ net.routerId w ∧ seq.toNat ≤ heldSeq ((net.stored s v packet flight db').mospfDb w) rid := by
  rcases mem_stored_forwarded hin with heq | hold
  · cases heq
    refine ⟨fun heq => hvr (net.id_injective (heq.symm.trans hof.rid)), ?_⟩
    show _ ≤ heldSeq (Function.update s.mospfDb v db' v) _
    rw [Function.update_self, heldSeq_updateDb hnews]
  · obtain ⟨hne, hseq⟩ := h.taken w rid seq hold
    exact ⟨hne, hseq.trans (heldSeq_mono hof hnews w rid)⟩

theorem Flooded.entries_news (h : net.Flooded s) (hvr : v ≠ r) (w : Fin n)
    (hentry : entry ∈ (net.stored s v packet flight db').mospfDb w) :
    net.EntrySound (net.stored s v packet flight db') w entry := by
  change entry ∈ Function.update s.mospfDb v db' w at hentry
  by_cases hwv : w = v
  · subst hwv
    rw [Function.update_self] at hentry
    rcases (updateDb_some hnews).mem entry hentry with hold | hfound
    · exact (h.entries w entry hold).mono fun _ => le_refl _
    · exact ⟨r, packet, hvr, hof.mono (le_refl _), EntrySound.taken (h.entries w) hof hnews hfound⟩
  · rw [Function.update_of_ne hwv] at hentry
    exact (h.entries w entry hentry).mono fun _ => le_refl _

omit hnews in
/-- A copy's TTL is one less, and one more router has forwarded the LSU. -/
theorem PacketSound.copy {copy : LsuPacket} (hfresh : v ∉ forwarders s packet.rid packet.seq)
    (httl : maxLsuTtl.toNat ≤ packet.ttl.toNat + (forwarders s packet.rid packet.seq).card)
    (hlive : 2 < packet.ttl.toNat) (hcopy : copy ∈ net.copies v packet) :
    net.PacketSound (net.stored s v packet flight db') copy := by
  obtain ⟨hof', hseq, hdown, w, hwr, hloc⟩ := mem_copies hof hcopy
  refine ⟨r, w, hof'.mono (le_refl _), hloc, hwr, ?_⟩
  have hinsert : insert v (forwarders s packet.rid packet.seq) ⊆
      forwarders (net.stored s v packet flight db') packet.rid packet.seq := by
    intro w hw
    refine Finset.mem_filter.mpr ⟨Finset.mem_univ w, ?_⟩
    rcases Finset.mem_insert.mp hw with rfl | hw
    · unfold stored
      rw [if_neg (List.ne_nil_of_mem hcopy)]
      exact List.mem_cons_self ..
    · exact subset_stored_forwarded (Finset.mem_filter.mp hw).2
  have hcard := Finset.card_le_card hinsert
  rw [Finset.card_insert_of_notMem hfresh] at hcard
  have hone : copy.ttl.toNat + 1 = packet.ttl.toNat := by
    rw [hdown]
    bv_omega
  rw [hof'.rid, ← hof.rid, hseq]
  omega

theorem Flooded.spreads_news (h : net.Flooded s) (hk : s.flight[k]? = some packet)
    (hloc : net.locate packet.daddr = some v) (hvr : v ≠ r) {q : Fin n} (hadj : net.graph.Adj u w)
    (hwq : w ≠ q) :
    let t := net.stored s v packet (s.flight.eraseIdx k) db'
    net.known t u q ≤ net.known t w q ∨ net.Owed t w q (net.known t u q) := by
  intro t
  rw [known_news hof hnews hvr, known_news hof hnews hvr]
  by_cases hu : u = v ∧ q = r
  · -- the neighbours of the router are sent the news
    obtain ⟨rfl, rfl⟩ := hu
    obtain ⟨copy, hcopy, hloc'⟩ := copies_adj hof hadj hwq
    obtain ⟨hof', hseq, -⟩ := mem_copies hof hcopy
    rw [if_pos ⟨rfl, rfl⟩]
    exact .inr ⟨copy, List.mem_append_right _ hcopy, hloc', hof'.rid, hseq ▸ le_refl _⟩
  · rw [if_neg hu]
    rcases h.spreads u w q hadj hwq with hknown | ⟨other, hother, hloc', hrid, hseq⟩
    · refine .inl ?_
      split
      · rename_i hw
        obtain ⟨rfl, rfl⟩ := hw
        rw [known_ne hwq, ← hof.rid] at hknown
        exact hknown.trans (le_of_lt (heldSeq_lt hnews hof.pos))
      · exact hknown
    · rcases mem_erase hk hother with rfl | hother
      · -- what was owed is the news
        obtain rfl := Option.some.inj (hloc.symm.trans hloc')
        obtain rfl := net.id_injective (hrid.symm.trans hof.rid)
        rw [if_pos ⟨rfl, rfl⟩]
        exact .inl hseq
      · exact .inr ⟨other, List.mem_append_left _ hother, hloc', hrid, hseq⟩

omit hof hnews in
theorem Flooded.news (h : net.Flooded s) (hn : n ≤ 254) (hk : s.flight[k]? = some packet)
    (hloc : net.locate packet.daddr = some v) (hnews : updateDb (s.mospfDb v) packet = some db') :
    net.Flooded (net.receive s v packet (s.flight.eraseIdx k)) := by
  have hpacket := h.packets packet (List.mem_of_getElem? hk)
  have hlive := h.ttl_pos hn hpacket hloc hnews
  obtain ⟨r, w, hof, hloc', hvr, httl⟩ := hpacket
  obtain rfl := Option.some.inj (hloc.symm.trans hloc')
  obtain ⟨hfresh, -⟩ := h.forwarders_card hof hvr hnews
  rw [receive_news hnews hlive]
  exact {
    packets := fun other hother => by
      rcases List.mem_append.mp hother with hold | hcopy
      · exact (h.packets other (List.mem_of_mem_eraseIdx hold)).mono (fun _ => le_refl _)
          subset_stored_forwarded
      · exact PacketSound.copy hof hfresh httl hlive hcopy
    entries := fun w _ => h.entries_news hof hnews hvr w
    nodup := fun w => by
      show ((Function.update s.mospfDb v db' w).map _).Nodup
      by_cases hwv : w = v
      · subst hwv
        rw [Function.update_self]
        exact updateDb_nodup hnews (h.nodup w)
      · rw [Function.update_of_ne hwv]
        exact h.nodup w
    once := by
      unfold stored
      split
      · exact h.once
      · exact List.nodup_cons.mpr
          ⟨fun hin => hfresh (Finset.mem_filter.mpr ⟨Finset.mem_univ _, hin⟩), h.once⟩
    taken := h.taken_news hof hnews hvr
    latest := fun q other hlatest => by
      obtain ⟨hof', hseq⟩ := h.latest q other hlatest
      exact ⟨hof'.mono (le_refl _), hseq⟩
    reached := h.reached
    spreads := fun u w q hadj hwq => h.spreads_news hof hnews hk hloc hvr hadj hwq }

end Receive

/-! ### Runs -/

/-- The emission, if the event is one, does not wrap the router's counter. -/
def NoWrap (s : NetState n) (e : NetEvent n) : Prop :=
  ∀ v, e = .emit v → (s.sequenceNum v).toNat + 1 < 2 ^ 16

theorem Flooded.step (hn : n ≤ 254) {e : NetEvent n} (h : net.Flooded s) (hwrap : NoWrap s e)
    (hstep : net.Step s e t) : net.Flooded t := by
  cases e with
  | emit v =>
    cases hstep
    exact h.emit (hwrap v rfl)
  | deliver k =>
    simp only [Step, Network.step] at hstep
    split at hstep
    · cases hstep
    rename_i packet hk
    split at hstep
    · cases hstep
    rename_i v hloc
    cases hstep
    cases hdb : updateDb (s.mospfDb v) packet with
    | none =>
      rw [receive_stale hdb]
      exact h.stale hk hloc hdb
    | some db' => exact h.news hn hk hloc hdb

/-- A step counts its emission. -/
theorem seq_step {e : NetEvent n} (hstep : net.Step s e t)
    (hwrap : (s.sequenceNum r).toNat + [e].count (.emit r) < 2 ^ 16) :
    (t.sequenceNum r).toNat = (s.sequenceNum r).toNat + [e].count (.emit r) := by
  cases e with
  | emit v =>
    cases hstep
    by_cases hrv : r = v
    · subst hrv
      rw [List.count_singleton_self] at hwrap ⊢
      rw [emit_sequenceNum, Function.update_self, seq_emit hwrap]
    · rw [emit_sequenceNum, Function.update_of_ne hrv, List.count_singleton, if_neg (by simpa using Ne.symm hrv)]
      rfl
  | deliver k =>
    simp only [Step, Network.step] at hstep
    split at hstep
    · cases hstep
    split at hstep <;> cases hstep
    rfl

theorem count_emit (e : NetEvent n) (es : List (NetEvent n)) (v : Fin n) :
    (e :: es).count (.emit v) = [e].count (.emit v) + es.count (.emit v) := by
  rw [← List.singleton_append, List.count_append]

/-- Fewer than 65536 emissions do not wrap a counter. -/
theorem noWrap_of_count {es : List (NetEvent n)}
    (h : ∀ v, (s.sequenceNum v).toNat + es.count (.emit v) < 2 ^ 16) : Along net.Step NoWrap s es := by
  induction es generalizing s with
  | nil => trivial
  | cons e es ih =>
    refine ⟨fun v hv => ?_, fun t hstep => ih fun v => ?_⟩
    · have hv' := h v
      rw [count_emit, hv, List.count_singleton_self] at hv'
      omega
    · have hv := h v
      rw [count_emit] at hv
      rw [seq_step hstep (by omega)]
      omega

/-- Emissions are counted. -/
theorem seq_run {es : List (NetEvent n)} (hrun : Run net.Step s es t)
    (h : (s.sequenceNum r).toNat + es.count (.emit r) < 2 ^ 16) :
    (t.sequenceNum r).toNat = (s.sequenceNum r).toNat + es.count (.emit r) := by
  induction hrun with
  | nil s => rfl
  | @cons s m t e es hstep _ ih =>
    rw [count_emit] at h ⊢
    have hm := seq_step (r := r) hstep (by omega)
    rw [ih (by omega), hm]
    omega

/-! ### Convergence -/

/-- With nothing in flight, all is known everywhere. -/
theorem Flooded.known_eq (h : net.Flooded s) (hconn : net.graph.Connected) (hflight : s.flight = [])
    (v r : Fin n) : net.known s v r = (s.sequenceNum r).toNat := by
  apply Nat.le_antisymm (h.known_le v r)
  refine Distance.outwards (u := r) (P := fun v => _ ≤ net.known s v r) ?_ ?_ v (hconn.preconnected r v)
  · rw [known_self]
  · intro u w hadj _ hdist hu
    have hwr : w ≠ r := by
      intro heq
      subst heq
      rw [SimpleGraph.dist_self] at hdist
      omega
    rcases h.spreads u w r hadj hwr with hknown | ⟨packet, hpacket, -⟩
    · exact hu.trans hknown
    · rw [hflight] at hpacket
      cases hpacket

/-- An entry with the last sequence number stores the last LSU. -/
theorem Flooded.stores_latest (h : net.Flooded s) (hlatest : s.latest r = some packet)
    (hfound : entryOf (s.mospfDb v) (net.routerId r) = some entry)
    (hseq : entry.seq = s.sequenceNum r) : Stores entry packet := by
  obtain ⟨hof, hlast⟩ := h.latest r packet hlatest
  obtain ⟨hmem, hrid⟩ := entryOf_mem hfound
  obtain ⟨r', packet', -, hof', hstores⟩ := h.entries v entry hmem
  obtain rfl := net.id_injective (hof'.rid.symm.trans (hstores.rid.symm.trans hrid))
  have hadverts : packet'.adverts = packet.adverts := by
    rw [LsuPacket.adverts, LsuPacket.adverts, hof'.lsas, hof'.nadv, hof.lsas, hof.nadv]
  exact ⟨hrid.trans hof.rid.symm, hseq.trans hlast.symm,
    hstores.nadv.trans (by rw [hof'.nadv, hof.nadv]), hstores.array.trans hadverts⟩

/-- **Flooding converges.** In every connected network of at most 254 routers and every run
in which no router emits 65536 LSUs, a router forwards an LSU once at most, none has an
entry of its own, and whenever nothing is in flight every router's one entry for every
other that has emitted stores the LSU that one emitted last. -/
theorem flooding_converges (net : Network n) (hn : n ≤ 254) (hconn : net.graph.Connected)
    {es : List (NetEvent n)} {s : NetState n} (hrun : Run net.Step NetState.init es s)
    (hemit : ∀ v, es.count (.emit v) < 65536) :
    s.forwarded.Nodup ∧
      (∀ v, ∀ entry ∈ s.mospfDb v, entry.rid ≠ net.routerId v) ∧
      (s.flight = [] → ∀ v r, v ≠ r → .emit r ∈ es → ∃ packet entry, s.latest r = some packet ∧
        (s.mospfDb v).filter (fun entry => entry.rid = net.routerId r) = [entry] ∧ Stores entry packet) := by
  have hzero : ∀ v, ((NetState.init (n := n)).sequenceNum v).toNat = 0 := fun _ => rfl
  have h : net.Flooded s := hrun.invariant (fun s e t hs hC hstep => hs.step hn hC hstep)
    (noWrap_of_count fun v => by rw [hzero, Nat.zero_add]; exact hemit v) flooded_init
  refine ⟨h.once, fun v entry hentry => ?_, fun hflight v r hvr hin => ?_⟩
  · obtain ⟨r, packet, hvr, hof, hstores⟩ := h.entries v entry hentry
    rw [hstores.rid, hof.rid]
    exact fun heq => hvr (net.id_injective heq.symm)
  · have hpos : 0 < (s.sequenceNum r).toNat := by
      rw [seq_run hrun (by rw [hzero, Nat.zero_add]; exact hemit r), hzero, Nat.zero_add]
      exact List.count_pos_iff.mpr hin
    have hnbr : ∃ w, net.graph.Adj r w := by
      obtain ⟨d, hd⟩ := Nat.exists_eq_succ_of_ne_zero (hconn.pos_dist_of_ne hvr).ne'
      obtain ⟨w, hadj, -⟩ := Distance.exists_closer (hconn.preconnected v r) hd
      exact ⟨w, hadj.symm⟩
    obtain ⟨packet, hlatest⟩ : ∃ packet, s.latest r = some packet := by
      cases hlatest : s.latest r with
      | none =>
        rw [h.reached r hlatest hnbr] at hpos
        exact absurd hpos (by decide)
      | some packet => exact ⟨packet, rfl⟩
    have hknown := h.known_eq hconn hflight v r
    rw [known_ne hvr, heldSeq] at hknown
    cases hfound : entryOf (s.mospfDb v) (net.routerId r) with
    | none =>
      rw [hfound] at hknown
      exact absurd hknown (by simpa using hpos.ne)
    | some entry =>
      rw [hfound] at hknown
      exact ⟨packet, entry, hlatest, entryOf_filter (h.nodup v) hfound,
        h.stores_latest hlatest hfound (BitVec.eq_of_toNat_eq hknown)⟩

/-- r1 emits; its LSU comes to r2 and r3, from both to r4, and back to them. -/
def labFlood : List (NetEvent 4) :=
  [.emit 0, .deliver 0, .deliver 0, .deliver 0, .deliver 0, .deliver 0, .deliver 0]

theorem lab_runs : (runAll lab.step NetState.init labFlood).isSome = true := by decide

theorem flooding_converges_lab : ∃ s, Run lab.Step NetState.init labFlood s ∧
    s.flight = [] ∧ s.forwarded.Nodup ∧ ∀ v, v ≠ 0 → ∃ packet entry, s.latest 0 = some packet ∧
      (s.mospfDb v).filter (fun entry => entry.rid = lab.routerId 0) = [entry] ∧ Stores entry packet := by
  have hrun := Run.of_isSome lab_runs
  have hflight : ((runAll lab.step NetState.init _).get lab_runs).flight = [] := by decide
  obtain ⟨honce, -, hconverged⟩ := flooding_converges lab (by decide) lab_connected hrun (by decide)
  exact ⟨_, hrun, hflight, honce, fun v hv => hconverged hflight v 0 hv (by decide)⟩

end Network

end NetStack.Mospf
