import NetStack.Lib.Serial
import NetStack.Translation.Stability

/-! When a flow counts as finished (`do_translation`, `is_flow_finished` of
`EXP13-NAT/13-nat/nat.c`, `tcp_seq_end` of `include/tcp.h`).

A flow is finished when each side has sent a FIN and an acknowledgement of the other's
(`Finished`). What a mapping records is less: of each side whether its last packet is a FIN
and nothing else, that packet's sequence number, and the acknowledgement of its last packet
that is an ACK and nothing else, the numbers in network byte order (`isFlowFinished_iff`). A
TCP sets ACK in every packet with a FIN, and then no flow is found finished
(`not_isFlowFinished`). -/
namespace NetStack.Translation

/-- `TCP_SYN`. -/
def tcpSyn : U8 := 0x02#8

/-- The endpoints of a flow: inside, as they are translated, and of the remote. -/
structure Flow where
  internal : U32 × U16
  external : U32 × U16
  remote : U32 × U16
deriving DecidableEq, Repr

/-- A packet of a flow, in host order, with the length of its payload and the time it comes. -/
structure Segment where
  dir : Dir
  seq : U32
  ack : U32
  flags : U8
  len : Nat
  now : Int
deriving DecidableEq, Repr

/-- `tcp_seq_end`. -/
def Segment.seqEnd (s : Segment) : U32 :=
  s.seq + BitVec.ofNat 32 s.len + if s.flags &&& (tcpSyn ||| tcpFin) ≠ 0 then 1 else 0

/-- The packet as it reaches the translator, in network byte order. -/
def Segment.packet (flow : Flow) (s : Segment) : Packet :=
  match s.dir with
  | .outward => ⟨htonl flow.internal.1, htonl flow.remote.1, htons flow.internal.2, htons flow.remote.2,
      htonl s.seq, htonl s.ack, s.flags⟩
  | .inward => ⟨htonl flow.remote.1, htonl flow.external.1, htons flow.remote.2, htons flow.external.2,
      htonl s.seq, htonl s.ack, s.flags⟩

/-- The packets of a flow, translated one after the other. -/
def translateAll (flow : Flow) (nat : NatTable) (h : List Segment) : NatTable :=
  h.foldl (fun nat s => (doTranslation nat (s.packet flow) s.dir s.now).1) nat

/-! ### What finishes a flow -/

def Segment.hasFin (s : Segment) : Bool := s.flags &&& tcpFin != 0
def Segment.hasAck (s : Segment) : Bool := s.flags &&& tcpAck != 0

/-- One side has sent a FIN, and the other an acknowledgement of it. -/
def FinAcked (h : List Segment) (dir : Dir) : Prop :=
  ∃ f ∈ h, f.dir = dir ∧ f.hasFin = true ∧
    ∃ a ∈ h, a.dir ≠ dir ∧ a.hasAck = true ∧ Serial.le f.seqEnd a.ack = true

/-- Both sides have. -/
def Finished (h : List Segment) : Prop := FinAcked h .inward ∧ FinAcked h .outward

instance (h : List Segment) (dir : Dir) : Decidable (FinAcked h dir) := inferInstanceAs (Decidable (∃ _ ∈ h, _))

instance (h : List Segment) : Decidable (Finished h) := inferInstanceAs (Decidable (_ ∧ _))

/-! ### What is recorded -/

/-- The last packet of a side. -/
def lastOf (h : List Segment) (dir : Dir) : Option Segment := (h.filter fun s => s.dir = dir).getLast?

/-- The last packet of a side that is an ACK and nothing else. -/
def lastAck (h : List Segment) (dir : Dir) : Option Segment :=
  (h.filter fun s => s.dir = dir ∧ s.flags = tcpAck).getLast?

/-- The last packet of each side is a FIN and nothing else. -/
def BareFins (h : List Segment) : Prop :=
  (∃ s, lastOf h .inward = some s ∧ s.flags = tcpFin) ∧ ∃ s, lastOf h .outward = some s ∧ s.flags = tcpFin

instance (h : List Segment) : Decidable (BareFins h) :=
  inferInstanceAs (Decidable ((∃ s, lastOf h .inward = some s ∧ _) ∧ ∃ s, lastOf h .outward = some s ∧ _))

/-- The numbers recorded are in order, compared as they are on the wire. -/
def WireOrder (h : List Segment) : Prop :=
  ((lastOf h .inward).elim 0 fun s => htonl s.seq) ≤ ((lastAck h .outward).elim 0 fun s => htonl s.ack) ∧
    ((lastOf h .outward).elim 0 fun s => htonl s.seq) ≤ ((lastAck h .inward).elim 0 fun s => htonl s.ack)

/-- The connection as it is after some packets. -/
def connAfter (h : List Segment) : NatConnection where
  internalFin := (lastOf h .outward).elim 0 fun s => if s.flags = tcpFin then tcpFin else 0
  externalFin := (lastOf h .inward).elim 0 fun s => if s.flags = tcpFin then tcpFin else 0
  internalSeqEnd := (lastOf h .outward).elim 0 fun s => htonl s.seq
  externalSeqEnd := (lastOf h .inward).elim 0 fun s => htonl s.seq
  internalAck := (lastAck h .outward).elim 0 fun s => htonl s.ack
  externalAck := (lastAck h .inward).elim 0 fun s => htonl s.ack

variable {h : List Segment} {s : Segment} {flow : Flow} {nat : NatTable} {m : NatMapping}

theorem getLast?_filter_snoc {α : Type} (l : List α) (a : α) (p : α → Bool) :
    ((l ++ [a]).filter p).getLast? = if p a then some a else (l.filter p).getLast? := by
  rw [List.filter_append]
  cases hp : p a <;> simp [hp]

theorem lastOf_snoc (h : List Segment) (s : Segment) (dir : Dir) :
    lastOf (h ++ [s]) dir = if s.dir = dir then some s else lastOf h dir := by
  rw [lastOf, getLast?_filter_snoc]
  simp only [decide_eq_true_eq]
  rfl

theorem lastAck_snoc (h : List Segment) (s : Segment) (dir : Dir) :
    lastAck (h ++ [s]) dir = if s.dir = dir ∧ s.flags = tcpAck then some s else lastAck h dir := by
  rw [lastAck, getLast?_filter_snoc]
  simp only [decide_eq_true_eq]
  rfl

/-- One more packet is noted. -/
theorem conn_note (hm : m.conn = connAfter h) (s : Segment) :
    (note (s.packet flow) s.now s.dir m).conn = connAfter (h ++ [s]) := by
  unfold connAfter
  simp only [lastOf_snoc, lastAck_snoc]
  cases hdir : s.dir with
  | inward =>
    by_cases hack : s.flags = tcpAck <;> simp [note, noteInward, Segment.packet, hdir, hm, connAfter, hack]
  | outward =>
    by_cases hack : s.flags = tcpAck <;> simp [note, noteOutward, Segment.packet, hdir, hm, connAfter, hack]

/-- A flow counts as finished when the last packets are bare FINs, and in order on the wire. -/
theorem isFlowFinished_iff (h : List Segment) :
    isFlowFinished (connAfter h) = true ↔ BareFins h ∧ WireOrder h := by
  have hfin : ∀ dir, ((lastOf h dir).elim (0 : U8) fun s => if s.flags = tcpFin then tcpFin else 0) ≠ 0 ↔
      ∃ s, lastOf h dir = some s ∧ s.flags = tcpFin := by
    intro dir
    cases lastOf h dir with
    | none => simp
    | some s =>
      by_cases hs : s.flags = tcpFin
      · simp [hs, tcpFin]
      · simp [hs]
  rw [isFlowFinished, Bool.and_eq_true, Bool.and_eq_true, Bool.and_eq_true, bne_iff_ne, bne_iff_ne,
    decide_eq_true_iff, decide_eq_true_iff, and_assoc]
  show ((lastOf h .outward).elim (0 : U8) _ ≠ 0 ∧ (lastOf h .inward).elim (0 : U8) _ ≠ 0) ∧ WireOrder h ↔ _
  rw [hfin, hfin, BareFins, and_comm (b := ∃ s, lastOf h .inward = some s ∧ _)]

/-! ### The flow's mapping -/

/-- The bucket of the flow. -/
def Flow.bucket (flow : Flow) : U8 := bucketOf flow.remote.1 flow.remote.2

/-- The mapping of the flow: the first one of its bucket with one of its endpoints, and it has both. -/
def Carries (flow : Flow) (nat : NatTable) (m : NatMapping) : Prop :=
  ∃ before after, nat.mappings flow.bucket = before ++ m :: after ∧
    (∀ x ∈ before, x.internal ≠ flow.internal ∧ x.external ≠ flow.external) ∧
    m.internal = flow.internal ∧ m.external = flow.external

/-- A packet opens the flow: it finds nothing, and makes the mapping of the flow. -/
structure Opens (flow : Flow) (nat : NatTable) (s : Segment) : Prop where
  absent : ∀ x ∈ nat.mappings flow.bucket, x.internal ≠ flow.internal ∧ x.external ≠ flow.external
  internal : (nat.fresh (s.packet flow) s.dir).internal = flow.internal
  external : (nat.fresh (s.packet flow) s.dir).external = flow.external

theorem packet_bucket (flow : Flow) (s : Segment) : (s.packet flow).bucket s.dir = flow.bucket := by
  unfold Packet.bucket Segment.packet
  cases s.dir <;> simp [Packet.remote, Flow.bucket]

/-- What a packet of the flow looks for. -/
theorem packet_test (flow : Flow) (s : Segment) (m : NatMapping) :
    (s.packet flow).test s.dir m = match s.dir with
      | .inward => decide (m.external = flow.external)
      | .outward => decide (m.internal = flow.internal) := by
  unfold Packet.test Segment.packet
  cases s.dir with
  | inward =>
    refine Bool.eq_iff_iff.mpr ?_
    show m.hasExternal (ntohl (htonl flow.external.1)) (ntohs (htons flow.external.2)) = true ↔ _
    rw [htonl, htons, ntohl_ntohl, ntohs_ntohs, hasExternal_iff, decide_eq_true_iff]
  | outward =>
    refine Bool.eq_iff_iff.mpr ?_
    show m.hasInternal (ntohl (htonl flow.internal.1)) (ntohs (htons flow.internal.2)) = true ↔ _
    rw [htonl, htons, ntohl_ntohl, ntohs_ntohs, hasInternal_iff, decide_eq_true_iff, NatMapping.internal,
      Prod.ext_iff]

theorem upsert_first {test : NatMapping → Bool} {fresh : NatMapping} {update : NatMapping → NatMapping}
    {before after : List NatMapping} (hbefore : ∀ x ∈ before, test x = false) (hm : test m = true) :
    upsert test fresh update (before ++ m :: after) = before ++ update m :: after := by
  induction before with
  | nil => rw [List.nil_append, List.nil_append, upsert, if_pos hm]
  | cons x before ih =>
    obtain ⟨hx, hbefore⟩ := List.forall_mem_cons.mp hbefore
    rw [List.cons_append, List.cons_append, upsert, hx, if_neg Bool.false_ne_true, ih hbefore]

/-- Packets of the flow that are not for a mapping do not find it. -/
theorem packet_test_ne (s : Segment) (hne : m.internal ≠ flow.internal ∧ m.external ≠ flow.external) :
    (s.packet flow).test s.dir m = false := by
  rw [packet_test]
  cases s.dir with
  | inward => exact decide_eq_false hne.2
  | outward => exact decide_eq_false hne.1

/-- Packets of the flow find its mapping, and update it in its place. -/
theorem Carries.translate (hcarries : Carries flow nat m) (s : Segment) :
    Carries flow (doTranslation nat (s.packet flow) s.dir s.now).1 (note (s.packet flow) s.now s.dir m) := by
  obtain ⟨before, after, heq, hbefore, hinternal, hexternal⟩ := hcarries
  refine ⟨before, after, ?_, hbefore, (note_internal ..).trans hinternal, (note_external ..).trans hexternal⟩
  have htest : (s.packet flow).test s.dir m = true := by
    rw [packet_test]
    cases s.dir with
    | inward => exact decide_eq_true hexternal
    | outward => exact decide_eq_true hinternal
  rw [← packet_bucket flow s, mappings_self, packet_bucket, heq]
  exact upsert_first (fun x hx => packet_test_ne s (hbefore x hx)) htest

theorem conn_checkRules (rules : List DnatRule) (m : NatMapping) : (checkRules rules m).conn = m.conn := by
  unfold checkRules
  induction rules generalizing m with
  | nil => rfl
  | cons rule rest ih =>
    rw [List.foldl_cons, ih]
    split <;> rfl

/-- The mapping that is made has seen nothing. -/
theorem conn_fresh (nat : NatTable) (p : Packet) (dir : Dir) : (nat.fresh p dir).conn = connAfter [] := by
  cases dir with
  | inward => exact conn_checkRules nat.rules _
  | outward => rfl

/-- The packet that opens a flow makes its mapping. -/
theorem Opens.translate (hopens : Opens flow nat s) :
    Carries flow (doTranslation nat (s.packet flow) s.dir s.now).1
      (note (s.packet flow) s.now s.dir (nat.fresh (s.packet flow) s.dir)) := by
  refine ⟨nat.mappings flow.bucket, [], ?_, hopens.absent, (note_internal ..).trans hopens.internal,
    (note_external ..).trans hopens.external⟩
  rw [← packet_bucket flow s, mappings_self]
  refine upsert_missing _ _ (List.find?_eq_none.mpr fun x hx => ?_)
  rw [packet_bucket] at hx
  rw [packet_test_ne s (hopens.absent x hx)]
  exact Bool.false_ne_true

/-- The mapping records what there is to record of the packets. -/
theorem Carries.translateAll (hcarries : Carries flow nat m) (hm : m.conn = connAfter h) (h' : List Segment) :
    ∃ m', Carries flow (translateAll flow nat h') m' ∧ m'.conn = connAfter (h ++ h') := by
  induction h' generalizing nat m h with
  | nil => exact ⟨m, hcarries, by rw [hm, List.append_nil]⟩
  | cons s h' ih =>
    obtain ⟨m', hcarries', hm'⟩ := ih (hcarries.translate s) (conn_note hm s)
    exact ⟨m', hcarries', by rw [hm', List.append_assoc, List.singleton_append]⟩

/-- With ACK in every packet with a FIN, no flow is found finished. -/
theorem not_isFlowFinished (h : List Segment) (hpeers : ∀ s ∈ h, s.hasFin = true → s.hasAck = true) :
    isFlowFinished (connAfter h) = false := by
  refine Bool.eq_false_of_not_eq_true fun hfinished => ?_
  obtain ⟨⟨⟨s, hs, hflags⟩, -⟩, -⟩ := (isFlowFinished_iff h).mp hfinished
  have hmem : s ∈ h := List.mem_of_mem_filter (List.mem_of_getLast? hs)
  have hack := hpeers s hmem (by rw [Segment.hasFin, hflags]; decide)
  rw [Segment.hasAck, hflags] at hack
  exact absurd hack (by decide)

/-- **Completion.** Whatever packets of a flow are translated, from the one that opens it on, its
mapping counts as finished exactly when the flow is, exactly if: where the last packets of both
sides are FINs and nothing else, the order on the wire says whether the flow is finished, and
elsewhere it is not. As TCPs set ACK with every FIN, this is as long as their flow is not
finished. -/
theorem isFlowFinished_meets_iff (hopens : Opens flow nat s) (h : List Segment) :
    ∃ m, Carries flow (translateAll flow nat (s :: h)) m ∧
      ((isFlowFinished m.conn = true ↔ Finished (s :: h)) ↔
        if BareFins (s :: h) then WireOrder (s :: h) ↔ Finished (s :: h) else ¬Finished (s :: h)) ∧
      ((∀ s' ∈ s :: h, s'.hasFin = true → s'.hasAck = true) →
        ((isFlowFinished m.conn = true ↔ Finished (s :: h)) ↔ ¬Finished (s :: h))) := by
  have hfirst : (note (s.packet flow) s.now s.dir (nat.fresh (s.packet flow) s.dir)).conn = connAfter [s] :=
    conn_note (conn_fresh nat (s.packet flow) s.dir) s
  obtain ⟨m, hcarries, hm⟩ := hopens.translate.translateAll hfirst h
  rw [List.singleton_append] at hm
  refine ⟨m, hcarries, ?_, fun hpeers => ?_⟩
  · rw [hm, isFlowFinished_iff]
    by_cases hbare : BareFins (s :: h)
    · rw [if_pos hbare, and_iff_right hbare]
    · rw [if_neg hbare, iff_comm]
      exact ⟨fun hnot => ⟨fun hboth => absurd hboth.1 hbare, fun hfinished => absurd hfinished hnot⟩,
        fun hiff hfinished => hbare (hiff.mpr hfinished).1⟩
  · rw [hm, not_isFlowFinished (s :: h) hpeers]
    exact ⟨fun hiff hfinished => Bool.false_ne_true (hiff.mpr hfinished),
      fun hnot => ⟨fun hfalse => absurd hfalse Bool.false_ne_true, fun hfinished => absurd hfinished hnot⟩⟩

/-- A flow to a server, and the packets that end it. -/
def browsing : Flow := ⟨(0x0A150001#32, 5000#16), (0x9FE2272B#32, 12345#16), (0x9FE2277B#32, 8000#16)⟩

def closing : List Segment :=
  [⟨.outward, 100, 200, tcpFin ||| tcpAck, 0, 0⟩, ⟨.inward, 200, 101, tcpAck, 0, 1⟩,
    ⟨.inward, 200, 101, tcpFin ||| tcpAck, 0, 1⟩, ⟨.outward, 101, 201, tcpAck, 0, 2⟩]

theorem isFlowFinished_meets_first :
    ∃ m, Carries browsing (translateAll browsing (natInit 0x9FE2272B#32 []) closing) m ∧
      ((isFlowFinished m.conn = true ↔ Finished closing) ↔
        if BareFins closing then WireOrder closing ↔ Finished closing else ¬Finished closing) ∧
      ((∀ s' ∈ closing, s'.hasFin = true → s'.hasAck = true) →
        ((isFlowFinished m.conn = true ↔ Finished closing) ↔ ¬Finished closing)) :=
  isFlowFinished_meets_iff ⟨fun _ hx => absurd hx List.not_mem_nil, by decide, by decide⟩ closing.tail

/-- Both sides have sent their FIN, and both are acknowledged. -/
theorem closing_not_found :
    Finished closing ∧ ∃ m, Carries browsing (translateAll browsing (natInit 0x9FE2272B#32 []) closing) m ∧
      isFlowFinished m.conn = false := by
  refine ⟨by decide, ?_⟩
  have hopens : Opens browsing (natInit 0x9FE2272B#32 []) ⟨.outward, 100, 200, tcpFin ||| tcpAck, 0, 0⟩ :=
    ⟨fun _ hx => absurd hx List.not_mem_nil, by decide, by decide⟩
  obtain ⟨m, hcarries, hm⟩ := hopens.translate.translateAll (conn_note (conn_fresh _ _ _) _) closing.tail
  exact ⟨m, hcarries, by rw [hm]; exact not_isFlowFinished closing (by decide)⟩

end NetStack.Translation
