import NetStack.Lib.Versioned
import NetStack.Mospf.Daemon
import NetStack.Mospf.Route

/-! The database as a function of the LSUs that were heard (`handle_mospf_lsu` of
`mospf_daemon.c`, `EXP12-mOSPF/code/12-mopsf`).

Seen as a map the database is a store of versioned values, and an LSU a write to it
(`lsdb_handleMospfLsu`). What routers have heard therefore decides what they hold, and the
order it came in does not (`lsdb_deliver`).

The version is a counter of 16 bits that a router adds one to for each LSU, and it is compared
by magnitude: a router's next LSU is newer than its last one, except after 65535 of them, and
after each further 65536 (`entryOf_next`). -/
namespace NetStack.Mospf

/-- An LSU: what all its copies have in common. -/
structure Lsu where
  rid : U32
  seq : U16
  nadv : U32
  lsas : List MospfLsa
deriving DecidableEq, Repr

/-- The LSU in a packet. -/
def LsuPacket.lsu (packet : LsuPacket) : Lsu := ⟨packet.rid, packet.seq, packet.nadv, packet.lsas⟩

/-- It counts its LSAs, and an IP packet has room for them. -/
structure Lsu.WellFormed (lsu : Lsu) : Prop where
  counts : lsu.nadv.toNat = lsu.lsas.length
  fits : ipBaseHdrSize + mospfHdrSize + mospfLsuSize + mospfLsaSize * lsu.nadv.toNat < 2 ^ 16

/-- What the database keeps of an LSU. -/
abbrev Held := U16 × Int × List MospfLsa

/-- What an entry keeps. -/
def MospfDbEntry.held (entry : MospfDbEntry) : Held := (entry.seq, entry.nadv, entry.lsas)

/-- What an entry of the LSU keeps. -/
def Lsu.held (lsu : Lsu) : Held := (lsu.seq, lsu.nadv.toInt, lsu.lsas)

/-- The database as a map. -/
def lsdb (mospfDb : List MospfDbEntry) (rid : U32) : Option Held := (entryOf mospfDb rid).map MospfDbEntry.held

/-- `handle_mospf_lsu` of one packet after the other. -/
def deliver (inst : Instance) (packets : List LsuPacket) : List MospfDbEntry :=
  packets.foldl (fun mospfDb packet => (handleMospfLsu inst mospfDb packet).1) []

/-! ### LSUs as writes -/

/-- The sequence number. -/
def Held.version (held : Held) : Nat := held.1.toNat

def Lsu.write (lsu : Lsu) : U32 × Held := (lsu.rid, lsu.held)

variable {db : List MospfDbEntry} {packet : LsuPacket} {lsu : Lsu}

theorem Lsu.WellFormed.toInt_nadv (h : lsu.WellFormed) : lsu.nadv.toInt = lsu.nadv.toNat := by
  have hfits := h.fits
  simp only [ipBaseHdrSize, mospfHdrSize, mospfLsuSize, mospfLsaSize] at hfits
  rw [BitVec.toInt_eq_toNat_of_lt (by omega)]

theorem LsuPacket.adverts_eq (h : packet.lsu.WellFormed) : packet.adverts = packet.lsas :=
  List.take_of_length_le (le_of_eq h.counts.symm)

/-- Whatever the array held before, it is the LSU that is read back from it. -/
theorem held_of_array {entry : MospfDbEntry} {rest : List MospfLsa} (h : packet.lsu.WellFormed)
    (hseq : entry.seq = packet.seq) (hnadv : entry.nadv = packet.nadv.toInt)
    (harray : entry.array = packet.adverts ++ rest) : entry.held = packet.lsu.held := by
  have hlsas : entry.lsas = packet.lsas := by
    have hnat : packet.nadv.toInt = packet.nadv.toNat := h.toInt_nadv
    rw [MospfDbEntry.lsas, hnadv, harray, packet.adverts_eq h, hnat, Int.toNat_natCast]
    exact List.take_left' h.counts.symm
  rw [MospfDbEntry.held, hseq, hnadv, hlsas]
  rfl

theorem update_held (entry : MospfDbEntry) (h : packet.lsu.WellFormed) :
    (entry.update packet).held = packet.lsu.held :=
  held_of_array h rfl rfl rfl

theorem ofLsu_held (h : packet.lsu.WellFormed) : (MospfDbEntry.ofLsu packet).held = packet.lsu.held :=
  held_of_array h rfl rfl (List.append_nil _).symm

/-- Taking an LSU is writing it. -/
theorem lsdb_handleMospfLsu (inst : Instance) (h : packet.lsu.WellFormed) :
    lsdb (handleMospfLsu inst db packet).1 = Versioned.put Held.version (lsdb db) packet.lsu.write := by
  cases htake : updateDb db packet with
  | none =>
    have hstale : ¬Versioned.Newer Held.version (lsdb db) packet.rid packet.lsu.held := by
      intro hnewer
      obtain ⟨db', hdb'⟩ := exists_updateDb fun entry hentry =>
        BitVec.lt_def.mpr (hnewer entry.held (by rw [lsdb, hentry]; rfl))
      exact nomatch htake.symm.trans hdb'
    rw [Lsu.write, Versioned.put_stale hstale, handleMospfLsu, htake]
  | some db' =>
    have htaken := updateDb_some htake
    have hnewer : Versioned.Newer Held.version (lsdb db) packet.lsu.rid packet.lsu.held := by
      intro held hheld
      obtain ⟨entry, hentry, rfl⟩ := Option.map_eq_some_iff.mp hheld
      exact BitVec.lt_def.mp (htaken.newer entry hentry)
    rw [Lsu.write, Versioned.put_of_newer hnewer, handleMospfLsu, htake]
    funext rid
    by_cases hrid : rid = packet.lsu.rid
    · subst hrid
      rw [Function.update_self]
      show (entryOf db' packet.rid).map _ = _
      rw [htaken.taken]
      cases entryOf db packet.rid with
      | none => exact congrArg some (ofLsu_held h)
      | some entry => exact congrArg some (update_held entry h)
    · show (entryOf db' rid).map _ = _
      rw [htaken.other rid hrid, Function.update_of_ne hrid]
      rfl

/-- A database is what was written to it. -/
theorem lsdb_deliver (inst : Instance) {packets : List LsuPacket} (h : ∀ packet ∈ packets, packet.lsu.WellFormed) :
    lsdb (deliver inst packets) = Versioned.puts Held.version (packets.map fun packet => packet.lsu.write) := by
  induction packets using List.reverseRecOn with
  | nil => rfl
  | append_singleton packets packet ih =>
    have hbefore := ih fun packet hpacket => h packet (List.mem_append_left _ hpacket)
    have hlast := h packet (List.mem_append_right _ (List.mem_singleton.mpr rfl))
    rw [List.map_append, List.map_singleton, Versioned.puts_snoc, ← hbefore, ← lsdb_handleMospfLsu inst hlast,
      deliver, deliver, List.foldl_append]
    rfl

theorem nodup_handleMospfLsu (inst : Instance) (packet : LsuPacket) (h : (db.map (·.rid)).Nodup) :
    ((handleMospfLsu inst db packet).1.map (·.rid)).Nodup := by
  cases htake : updateDb db packet with
  | none => rwa [handleMospfLsu, htake]
  | some db' =>
    rw [handleMospfLsu, htake]
    exact updateDb_nodup htake h

theorem nodup_deliver (inst : Instance) (packets : List LsuPacket) :
    ((deliver inst packets).map (·.rid)).Nodup := by
  induction packets using List.reverseRecOn with
  | nil => exact List.nodup_nil
  | append_singleton packets packet ih =>
    rw [deliver, List.foldl_append]
    exact nodup_handleMospfLsu inst packet ih

/-! ### Orders of delivery -/

/-- The packets are copies of these LSUs, at least one of each. -/
def Delivers (packets : List LsuPacket) (lsus : Finset Lsu) : Prop :=
  ∀ lsu, lsu ∈ lsus ↔ ∃ packet ∈ packets, packet.lsu = lsu

/-- The database holds one entry for each router of the LSUs, and it is that of the largest
sequence number. -/
structure HoldsNewest (mospfDb : List MospfDbEntry) (lsus : Finset Lsu) : Prop where
  nodup : (mospfDb.map (·.rid)).Nodup
  newest : ∀ lsu ∈ lsus, (∀ other ∈ lsus, other.rid = lsu.rid → other.seq ≤ lsu.seq) →
    lsdb mospfDb lsu.rid = some lsu.held
  others : ∀ rid, (∀ lsu ∈ lsus, lsu.rid ≠ rid) → lsdb mospfDb rid = none

section Order

variable {packets packets' : List LsuPacket} {lsus : Finset Lsu}

/-- The writes of a delivery are those of its LSUs. -/
theorem Delivers.mem_writes (h : Delivers packets lsus) (w : U32 × Held) :
    w ∈ packets.map (fun packet => packet.lsu.write) ↔ ∃ lsu ∈ lsus, lsu.write = w := by
  rw [List.mem_map]
  constructor
  · intro hyp
    obtain ⟨packet, hpacket, rfl⟩ := hyp
    exact ⟨packet.lsu, (h _).mpr ⟨packet, hpacket, rfl⟩, rfl⟩
  · intro hyp
    obtain ⟨lsu, hlsu, rfl⟩ := hyp
    obtain ⟨packet, hpacket, rfl⟩ := (h _).mp hlsu
    exact ⟨packet, hpacket, rfl⟩

theorem Delivers.wellFormed (h : Delivers packets lsus) (hwell : ∀ lsu ∈ lsus, lsu.WellFormed) :
    ∀ packet ∈ packets, packet.lsu.WellFormed :=
  fun packet hpacket => hwell _ ((h _).mpr ⟨packet, hpacket, rfl⟩)

/-- The router and the sequence number determine an LSU, and so what is written. -/
theorem Delivers.determined (h : Delivers packets lsus)
    (hdet : ∀ lsu ∈ lsus, ∀ other ∈ lsus, lsu.rid = other.rid → lsu.seq = other.seq → lsu = other) :
    Versioned.Determined Held.version (packets.map fun packet => packet.lsu.write) := by
  intro rid held held' hmem hmem' hversion
  obtain ⟨lsu, hlsu, hwrite⟩ := (h.mem_writes _).mp hmem
  obtain ⟨other, hother, hwrite'⟩ := (h.mem_writes _).mp hmem'
  obtain ⟨rfl, rfl⟩ := Prod.mk.inj hwrite
  obtain ⟨hrid, rfl⟩ := Prod.mk.inj hwrite'
  rw [hdet lsu hlsu other hother hrid.symm (BitVec.eq_of_toNat_eq hversion)]

theorem Delivers.holdsNewest (h : Delivers packets lsus) (hwell : ∀ lsu ∈ lsus, lsu.WellFormed)
    (hdet : ∀ lsu ∈ lsus, ∀ other ∈ lsus, lsu.rid = other.rid → lsu.seq = other.seq → lsu = other)
    (inst : Instance) : HoldsNewest (deliver inst packets) lsus := by
  have hdb := lsdb_deliver inst (h.wellFormed hwell)
  refine ⟨nodup_deliver inst packets, fun lsu hlsu hmax => ?_, fun rid hrid => ?_⟩
  · rw [hdb]
    refine Versioned.puts_eq_some (h.determined hdet) ⟨(h.mem_writes _).mpr ⟨lsu, hlsu, rfl⟩, fun held hheld => ?_⟩
    obtain ⟨other, hother, hwrite⟩ := (h.mem_writes _).mp hheld
    obtain ⟨hrid, rfl⟩ := Prod.mk.inj hwrite
    exact BitVec.le_def.mp (hmax other hother hrid)
  · rw [hdb]
    refine Versioned.puts_eq_none fun held hheld => ?_
    obtain ⟨lsu, hlsu, hwrite⟩ := (h.mem_writes _).mp hheld
    exact hrid lsu hlsu (Prod.mk.inj hwrite).1

/-- Two deliveries of the same LSUs lead to the same database. -/
theorem lsdb_of_delivers (hwell : ∀ lsu ∈ lsus, lsu.WellFormed)
    (hdet : ∀ lsu ∈ lsus, ∀ other ∈ lsus, lsu.rid = other.rid → lsu.seq = other.seq → lsu = other)
    (h : Delivers packets lsus) (h' : Delivers packets' lsus) (inst inst' : Instance) :
    lsdb (deliver inst packets) = lsdb (deliver inst' packets') ∧
      HoldsNewest (deliver inst packets) lsus ∧ HoldsNewest (deliver inst' packets') lsus := by
  refine ⟨?_, h.holdsNewest hwell hdet inst, h'.holdsNewest hwell hdet inst'⟩
  rw [lsdb_deliver inst (h.wellFormed hwell), lsdb_deliver inst' (h'.wellFormed hwell)]
  exact Versioned.puts_congr (h.determined hdet) fun w => (h.mem_writes w).trans (h'.mem_writes w).symm

/-- Two LSUs of a router, the second one longer. -/
def firstLsu : LsuPacket := ⟨0x0A000001, 0x0A000002, 1, 1, 255, 1, [⟨0x0A000000, 0xFFFFFF00, 2⟩]⟩
def secondLsu : LsuPacket :=
  ⟨0x0A000001, 0x0A000002, 1, 2, 255, 2, [⟨0x0A000000, 0xFFFFFF00, 2⟩, ⟨0x0A000100, 0xFFFFFF00, 3⟩]⟩

theorem lsdb_of_delivers_two :
    lsdb (deliver ⟨2, 0, []⟩ [firstLsu, secondLsu]) = lsdb (deliver ⟨3, 0, []⟩ [secondLsu, firstLsu, secondLsu]) ∧
      HoldsNewest (deliver ⟨2, 0, []⟩ [firstLsu, secondLsu]) {firstLsu.lsu, secondLsu.lsu} ∧
      HoldsNewest (deliver ⟨3, 0, []⟩ [secondLsu, firstLsu, secondLsu]) {firstLsu.lsu, secondLsu.lsu} := by
  have hwell : ∀ lsu ∈ ({firstLsu.lsu, secondLsu.lsu} : Finset Lsu), lsu.WellFormed := by
    intro lsu hlsu
    rcases Finset.mem_insert.mp hlsu with rfl | hlsu
    · exact ⟨by decide, by decide⟩
    · obtain rfl := Finset.mem_singleton.mp hlsu
      exact ⟨by decide, by decide⟩
  refine lsdb_of_delivers hwell (by decide) (fun lsu => ?_) (fun lsu => ?_) ⟨2, 0, []⟩ ⟨3, 0, []⟩
  · simp [eq_comm]
  · simp [eq_comm, or_comm]
    exact .inr

end Order

/-! ### A router's LSUs -/

/-- What happens to a router: neighbours come and go, or it emits an LSU. -/
inductive SenderEvent
  | neighbours (ifaceList : List Iface)
  | emit
deriving DecidableEq

/-- A router, and the LSUs it has emitted, the last one first. -/
structure Sender where
  inst : Instance
  emitted : List Lsu

/-- The LSU that `sending_mospf_lsu` makes. -/
def Instance.nextLsu (inst : Instance) : Lsu where
  rid := inst.routerId
  seq := inst.sequenceNum + 1
  nadv := BitVec.ofNat 32 (nbrNum inst.ifaceList)
  lsas := lsaArray inst.ifaceList

def Sender.step (s : Sender) : SenderEvent → Sender
  | .neighbours ifaceList => { s with inst := { s.inst with ifaceList } }
  | .emit => ⟨(sendingMospfLsu s.inst).1, s.inst.nextLsu :: s.emitted⟩

/-- A router as `mospf_init` leaves it, after some events. -/
def Sender.run (iface : U32 × U32) (ifaces : List (U32 × U32)) (events : List SenderEvent) : Sender :=
  events.foldl Sender.step ⟨(Daemon.mospfInit iface ifaces fun _ => 0).inst, []⟩

/-- All packets that are sent carry the LSU. -/
theorem lsu_of_sent {inst : Instance} (h : packet ∈ (sendingMospfLsu inst).2) : packet.lsu = inst.nextLsu := by
  obtain ⟨iface, -, nbr, -, rfl⟩ := mem_sent.mp h
  rfl

/-- The counter counts the LSUs, modulo 2 ^ 16, and the last of them has it. -/
structure Sender.Counts (s : Sender) : Prop where
  sequenceNum : s.inst.sequenceNum = BitVec.ofNat 16 s.emitted.length
  last : ∀ lsu, s.emitted.head? = some lsu → lsu.rid = s.inst.routerId ∧ lsu.seq = s.inst.sequenceNum

theorem Sender.Counts.step {s : Sender} (h : s.Counts) (e : SenderEvent) : (s.step e).Counts := by
  cases e with
  | neighbours ifaceList => exact ⟨h.sequenceNum, h.last⟩
  | emit =>
    constructor
    · show s.inst.sequenceNum + 1 = BitVec.ofNat 16 (s.emitted.length + 1)
      rw [h.sequenceNum, BitVec.ofNat_add]
      rfl
    · intro lsu hlsu
      cases hlsu
      exact ⟨rfl, rfl⟩

theorem Sender.run_counts (iface : U32 × U32) (ifaces : List (U32 × U32)) (events : List SenderEvent) :
    (Sender.run iface ifaces events).Counts := by
  induction events using List.reverseRecOn with
  | nil => exact ⟨rfl, nofun⟩
  | append_singleton events e ih =>
    rw [Sender.run, List.foldl_append]
    exact ih.step e

/-- Adding one makes a counter larger, unless it has its largest value. -/
theorem lt_succ_iff (n : Nat) : BitVec.ofNat 16 n < BitVec.ofNat 16 n + 1 ↔ n % 65536 ≠ 65535 := by
  rw [BitVec.lt_def, BitVec.toNat_add, BitVec.toNat_ofNat]
  show n % 65536 < (n % 65536 + 1) % 65536 ↔ _
  omega

/-- An LSU is written over an entry of its router exactly when it is newer. -/
theorem entryOf_handleMospfLsu {entry : MospfDbEntry} (hentry : entryOf db packet.rid = some entry)
    (hne : entry.seq ≠ packet.seq) (receiver : Instance) :
    entryOf (handleMospfLsu receiver db packet).1 packet.rid = some (entry.update packet) ↔
      entry.seq < packet.seq := by
  cases htake : updateDb db packet with
  | none =>
    have hstale : ¬entry.seq < packet.seq := by
      intro hlt
      obtain ⟨db', hdb'⟩ := exists_updateDb fun other hother => Option.some.inj (hentry.symm.trans hother) ▸ hlt
      exact nomatch htake.symm.trans hdb'
    refine iff_of_false (fun hreplaced => ?_) hstale
    rw [handleMospfLsu, htake] at hreplaced
    exact hne (congrArg MospfDbEntry.seq (Option.some.inj (hentry.symm.trans hreplaced)))
  | some db' =>
    have htaken := updateDb_some htake
    refine iff_of_true ?_ (htaken.newer entry hentry)
    rw [handleMospfLsu, htake]
    show entryOf db' packet.rid = _
    rw [htaken.taken, hentry]
    rfl

/-- A router's next LSU replaces its last one unless the number of LSUs it has emitted is one
below a multiple of 65536. -/
theorem entryOf_next (iface : U32 × U32) (ifaces : List (U32 × U32)) (events : List SenderEvent) {last : Lsu}
    (hlast : (Sender.run iface ifaces events).emitted.head? = some last) {mospfDb : List MospfDbEntry}
    {entry : MospfDbEntry} (hentry : entryOf mospfDb last.rid = some entry) (hheld : entry.held = last.held)
    {packet : LsuPacket} (hnext : packet.lsu = (Sender.run iface ifaces events).inst.nextLsu) (receiver : Instance) :
    entryOf (handleMospfLsu receiver mospfDb packet).1 last.rid = some (entry.update packet) ↔
      (Sender.run iface ifaces events).emitted.length % 65536 ≠ 65535 := by
  have hcounts := Sender.run_counts iface ifaces events
  obtain ⟨hrid, hseq⟩ := hcounts.last last hlast
  have hpacket : packet.rid = last.rid := (congrArg Lsu.rid hnext).trans hrid.symm
  have hentrySeq : entry.seq = BitVec.ofNat 16 (Sender.run iface ifaces events).emitted.length := by
    rw [← hcounts.sequenceNum, ← hseq]
    exact congrArg Prod.fst hheld
  have hpacketSeq : packet.seq = BitVec.ofNat 16 (Sender.run iface ifaces events).emitted.length + 1 := by
    rw [← hcounts.sequenceNum]
    exact congrArg Lsu.seq hnext
  have hne : entry.seq ≠ packet.seq := by
    rw [hentrySeq, hpacketSeq]
    exact (by decide : (1 : U16) ≠ 0) ∘ left_eq_add.mp
  rw [← hpacket, entryOf_handleMospfLsu (by rw [hpacket, hentry]) hne, hentrySeq, hpacketSeq]
  exact lt_succ_iff _

/-- A router with one interface and one neighbour, and its LSU. -/
def oneIface : List Iface := [⟨0x0A000001, 0xFFFFFF00, 1, [⟨2, 0x0A000002, 0xFFFFFF00⟩]⟩]
def oneNeighbour (seq : U16) : LsuPacket :=
  ⟨0x0A000001, 0x0A000002, 0x0A000001, seq, 255, 1, [⟨0x0A000000, 0xFFFFFF00, 2⟩]⟩

theorem entryOf_next_second :
    entryOf (handleMospfLsu ⟨2, 0, []⟩ [.ofLsu (oneNeighbour 1)] (oneNeighbour 2)).1 0x0A000001 =
        some ((MospfDbEntry.ofLsu (oneNeighbour 1)).update (oneNeighbour 2)) ↔
      (Sender.run (0x0A000001, 0xFFFFFF00) [] [.neighbours oneIface, .emit]).emitted.length % 65536 ≠ 65535 :=
  entryOf_next (0x0A000001, 0xFFFFFF00) [] [.neighbours oneIface, .emit] rfl rfl rfl rfl ⟨2, 0, []⟩

/-- A router that emits one LSU after the other. -/
theorem run_emits (iface : U32 × U32) (ifaceList : List Iface) (n : Nat) :
    (Sender.run iface [] (.neighbours ifaceList :: List.replicate n .emit)).inst =
      ⟨iface.1, BitVec.ofNat 16 n, ifaceList⟩ := by
  induction n with
  | zero => rfl
  | succ n ih =>
    rw [List.replicate_succ', ← List.cons_append, Sender.run, List.foldl_append]
    show (sendingMospfLsu (Sender.run iface [] (.neighbours ifaceList :: List.replicate n .emit)).inst).1 = _
    rw [ih, sendingMospfLsu, BitVec.ofNat_add]
    rfl

theorem head_emits (iface : U32 × U32) (ifaceList : List Iface) (n : Nat) :
    (Sender.run iface [] (.neighbours ifaceList :: List.replicate (n + 1) .emit)).emitted.head? =
      some (Instance.nextLsu ⟨iface.1, BitVec.ofNat 16 n, ifaceList⟩) := by
  rw [List.replicate_succ', ← List.cons_append, Sender.run, List.foldl_append, ← run_emits]
  rfl

/-- After 65535 LSUs the next one has the number 0, and the last one stays. -/
theorem lsu_wraps :
    (Sender.run (0x0A000001, 0xFFFFFF00) [] (.neighbours oneIface :: List.replicate 65535 .emit)).emitted.head? =
        some (oneNeighbour 0xFFFF).lsu ∧
      oneNeighbour 0 ∈ (sendingMospfLsu
        (Sender.run (0x0A000001, 0xFFFFFF00) [] (.neighbours oneIface :: List.replicate 65535 .emit)).inst).2 ∧
      (handleMospfLsu ⟨2, 0, []⟩ [.ofLsu (oneNeighbour 0xFFFF)] (oneNeighbour 0)).1 =
        [.ofLsu (oneNeighbour 0xFFFF)] ∧
      MospfDbEntry.ofLsu (oneNeighbour 0xFFFF) ≠
        (MospfDbEntry.ofLsu (oneNeighbour 0xFFFF)).update (oneNeighbour 0) := by
  refine ⟨?_, ?_, by decide, by decide⟩
  · rw [head_emits]
    decide
  · rw [run_emits]
    decide

end NetStack.Mospf
