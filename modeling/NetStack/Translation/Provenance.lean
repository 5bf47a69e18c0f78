import NetStack.Translation.Stability

/-! Where mappings come from (`EXP13-NAT/13-nat/nat.c`).

A mapping is made for an outbound packet, with the translator's own address, or for an inbound
one, with what the rules say, and its ends are never changed. So an inbound packet goes to a host
that has sent a packet through the same bucket, or where the rules send it, or nowhere
(`inward_asked`), and no outbound packet shows an internal address (`outward_hidden`). -/
namespace NetStack.Translation

/-- Who a packet is from, and who it is for. -/
def Packet.sender (p : Packet) : U32 × U16 := (ntohl p.saddr, ntohs p.sport)
def Packet.receiver (p : Packet) : U32 × U16 := (ntohl p.daddr, ntohs p.dport)

def DnatRule.external (rule : DnatRule) : U32 × U16 := (rule.externalIp, rule.externalPort)
def DnatRule.internal (rule : DnatRule) : U32 × U16 := (rule.internalIp, rule.internalPort)

/-- Where the rules send a packet for an external endpoint; zeros if they say nothing. -/
def ruled (rules : List DnatRule) (e : U32 × U16) : U32 × U16 :=
  (checkRules rules { zeroMapping with externalIp := e.1, externalPort := e.2 }).internal

variable {ip : U32} {rules : List DnatRule} {es : List Event} {nat : NatTable} {b : U8} {m : NatMapping}

/-! ### The rules -/

theorem checkRules_cases (rules : List DnatRule) (m : NatMapping) :
    (∃ rule ∈ rules, rule.external = m.external ∧ (checkRules rules m).internal = rule.internal) ∨
      (∀ rule ∈ rules, rule.external ≠ m.external) ∧ (checkRules rules m).internal = m.internal := by
  induction rules generalizing m with
  | nil => exact .inr ⟨List.forall_mem_nil _, rfl⟩
  | cons rule rest ih =>
    rw [checkRules, List.foldl_cons, ← checkRules]
    by_cases hrule : rule.externalIp = m.externalIp ∧ rule.externalPort = m.externalPort
    · rw [if_pos hrule]
      have hhere : rule.external = m.external := Prod.ext hrule.1 hrule.2
      obtain ⟨later, hlater, hext, hint⟩ | ⟨-, hint⟩ :=
        ih { m with internalIp := rule.internalIp, internalPort := rule.internalPort }
      · exact .inl ⟨later, List.mem_cons_of_mem _ hlater, hext, hint⟩
      · exact .inl ⟨rule, List.mem_cons_self, hhere, hint⟩
    · rw [if_neg hrule]
      have hnot : rule.external ≠ m.external := fun heq =>
        hrule ⟨congrArg Prod.fst heq, congrArg Prod.snd heq⟩
      obtain ⟨later, hlater, hext, hint⟩ | ⟨hnone, hint⟩ := ih m
      · exact .inl ⟨later, List.mem_cons_of_mem _ hlater, hext, hint⟩
      · exact .inr ⟨List.forall_mem_cons.mpr ⟨hnot, hnone⟩, hint⟩

/-- The rules send a packet where a rule for its endpoint says, or nowhere if there is none. -/
theorem ruled_cases (rules : List DnatRule) (e : U32 × U16) :
    (∃ rule ∈ rules, rule.external = e ∧ ruled rules e = rule.internal) ∨
      (∀ rule ∈ rules, rule.external ≠ e) ∧ ruled rules e = (0, 0) :=
  checkRules_cases rules { zeroMapping with externalIp := e.1, externalPort := e.2 }

/-! ### Mappings -/

/-- How a mapping has come into its bucket. -/
inductive Earned (ip : U32) (rules : List DnatRule) (es : List Event) (b : U8) (m : NatMapping) : Prop
  | sent {p : Packet} {now : Int} : .outward p now ∈ es → p.bucket .outward = b → m.internal = p.sender →
      m.externalIp = ip → Earned ip rules es b m
  | came {p : Packet} {now : Int} : .inward p now ∈ es → p.bucket .inward = b → m.external = p.receiver →
      m.internal = ruled rules m.external → Earned ip rules es b m

theorem Earned.congr {m' : NatMapping} (h : Earned ip rules es b m) (hint : m'.internal = m.internal)
    (hext : m'.external = m.external) : Earned ip rules es b m' := by
  cases h with
  | sent hmem hb hsender hip => exact .sent hmem hb (hint.trans hsender) ((congrArg Prod.fst hext).trans hip)
  | came hmem hb hreceiver hruled => exact .came hmem hb (hext.trans hreceiver) (by rw [hint, hext, hruled])

theorem Earned.snoc (h : Earned ip rules es b m) (e : Event) : Earned ip rules (es ++ [e]) b m := by
  cases h with
  | sent hmem hb hsender hip => exact .sent (List.mem_append_left _ hmem) hb hsender hip
  | came hmem hb hreceiver hruled => exact .came (List.mem_append_left _ hmem) hb hreceiver hruled

/-- A table after some events. -/
structure Accounted (ip : U32) (rules : List DnatRule) (es : List Event) (nat : NatTable) : Prop where
  iface : nat.externalIfaceIp = ip
  configured : nat.rules = rules
  earned : ∀ b, ∀ m ∈ nat.mappings b, Earned ip rules es b m

/-- What is in a bucket was there, or is the new mapping, up to its statistics. -/
theorem mem_of_upsert {test : NatMapping → Bool} {fresh : NatMapping} {update : NatMapping → NatMapping}
    {l : List NatMapping} (h : m ∈ upsert test fresh update l) :
    m = update fresh ∨ ∃ old ∈ l, m = old ∨ m = update old := by
  induction l with
  | nil => exact .inl (List.mem_singleton.mp h)
  | cons first rest ih =>
    rw [upsert] at h
    split at h
    · rcases List.mem_cons.mp h with rfl | h
      · exact .inr ⟨first, List.mem_cons_self, .inr rfl⟩
      · exact .inr ⟨m, List.mem_cons_of_mem _ h, .inl rfl⟩
    · rcases List.mem_cons.mp h with rfl | h
      · exact .inr ⟨m, List.mem_cons_self, .inl rfl⟩
      · obtain hnew | ⟨old, hold, hsame⟩ := ih h
        · exact .inl hnew
        · exact .inr ⟨old, List.mem_cons_of_mem _ hold, hsame⟩

theorem Accounted.translate (h : Accounted ip rules es nat) (p : Packet) (dir : Dir) (now : Int) {e : Event}
    (hfresh : Earned ip rules (es ++ [e]) (p.bucket dir) (nat.fresh p dir)) :
    Accounted ip rules (es ++ [e]) (doTranslation nat p dir now).1 where
  iface := by cases dir <;> exact h.iface
  configured := by cases dir <;> exact h.configured
  earned b m hm := by
    by_cases hb : b = p.bucket dir
    · subst hb
      rw [mappings_self] at hm
      obtain rfl | ⟨old, hold, rfl | rfl⟩ := mem_of_upsert hm
      · exact hfresh.congr (note_internal p now dir _) (note_external p now dir _)
      · exact (h.earned _ _ hold).snoc e
      · exact ((h.earned _ old hold).snoc e).congr (note_internal p now dir _) (note_external p now dir _)
    · rw [mappings_ne nat p dir now hb] at hm
      exact (h.earned b m hm).snoc e

theorem Accounted.step (h : Accounted ip rules es nat) (e : Event) :
    Accounted ip rules (es ++ [e]) (step nat e) := by
  cases e with
  | outward p now =>
    have hlast : Event.outward p now ∈ es ++ [.outward p now] := by simp
    refine h.translate p .outward now (.sent hlast rfl rfl ?_)
    exact h.iface
  | inward p now =>
    have hlast : Event.inward p now ∈ es ++ [.inward p now] := by simp
    have hext : (nat.inwardFresh p).external = p.receiver := external_inwardFresh nat p
    refine h.translate p .inward now (.came hlast rfl hext ?_)
    show (nat.inwardFresh p).internal = ruled rules (nat.inwardFresh p).external
    rw [hext, ← h.configured]
    rfl
  | timeout now =>
    exact ⟨h.iface, h.configured, fun b m hm => (h.earned b m (List.mem_of_mem_filter hm)).snoc _⟩

theorem accounted_run (ip : U32) (rules : List DnatRule) (es : List Event) :
    Accounted ip rules es (es.foldl step (natInit ip rules)) := by
  induction es using List.reverseRecOn with
  | nil => exact ⟨rfl, rfl, fun _ _ hm => absurd hm List.not_mem_nil⟩
  | append_singleton es e ih =>
    rw [List.foldl_append]
    exact ih.step e

/-! ### Packets -/

/-- The mapping a packet is translated by. -/
def NatTable.entry (nat : NatTable) (p : Packet) (dir : Dir) : NatMapping :=
  ((nat.mappings (p.bucket dir)).find? (p.test dir)).getD (nat.fresh p dir)

theorem receiver_sent (nat : NatTable) (p : Packet) (now : Int) :
    (doTranslation nat p .inward now).2.receiver = (nat.entry p .inward).internal :=
  Prod.ext (ntohl_ntohl _) (ntohs_ntohs _)

theorem sender_sent (nat : NatTable) (p : Packet) (now : Int) :
    (doTranslation nat p .outward now).2.sender = (nat.entry p .outward).external :=
  Prod.ext (ntohl_ntohl _) (ntohs_ntohs _)

/-- It has the endpoint that was looked for, and is new or has come into its bucket before. -/
theorem Accounted.entry (h : Accounted ip rules es nat) (p : Packet) (dir : Dir) :
    p.test dir (nat.entry p dir) = true ∧
      (nat.entry p dir = nat.fresh p dir ∨ Earned ip rules es (p.bucket dir) (nat.entry p dir)) := by
  unfold NatTable.entry
  cases hfound : (nat.mappings (p.bucket dir)).find? (p.test dir) with
  | none => exact ⟨test_fresh nat p dir, .inl rfl⟩
  | some m => exact ⟨List.find?_some hfound, .inr (h.earned _ m (List.mem_of_find?_eq_some hfound))⟩

/-- **Nothing gets in unasked.** After every run of packets in both directions and timeouts, with any
rules, an inbound packet is sent to an internal endpoint that has sent a packet out, through the
bucket the inbound packet is looked up in and under its destination address, or where a rule for
its destination says; if there is neither, to 0.0.0.0. -/
theorem inward_asked (ip : U32) (rules : List DnatRule) (es : List Event) (p : Packet) (now : Int) :
    let sent := (doTranslation (es.foldl step (natInit ip rules)) p .inward now).2
    (∃ q t, .outward q t ∈ es ∧ q.bucket .outward = p.bucket .inward ∧ p.receiver.1 = ip ∧
        sent.receiver = q.sender) ∨
      (∃ rule ∈ rules, rule.external = p.receiver ∧ sent.receiver = rule.internal) ∨
      (∀ rule ∈ rules, rule.external ≠ p.receiver) ∧ sent.receiver = (0, 0) := by
  have h := accounted_run ip rules es
  generalize es.foldl step (natInit ip rules) = nat at h
  intro sent
  have hsent : sent.receiver = (nat.entry p .inward).internal := receiver_sent nat p now
  obtain ⟨htest, hentry⟩ := h.entry p .inward
  have hext : (nat.entry p .inward).external = p.receiver := (hasExternal_iff _ _ _).mp htest
  -- it was asked for by a packet out, or the rules decide
  have hcases : (∃ q t, .outward q t ∈ es ∧ q.bucket .outward = p.bucket .inward ∧ p.receiver.1 = ip ∧
      sent.receiver = q.sender) ∨ sent.receiver = ruled rules p.receiver := by
    obtain hfresh | hearned := hentry
    · refine .inr ?_
      rw [hsent, hfresh, ← h.configured]
      rfl
    · cases hearned with
      | sent hmem hb hsender hip =>
        exact .inl ⟨_, _, hmem, hb, (congrArg Prod.fst hext).symm.trans hip, hsent.trans hsender⟩
      | came _ _ _ hint => exact .inr (by rw [hsent, hint, hext])
  refine hcases.imp id fun hruled => ?_
  rw [hruled]
  exact ruled_cases rules p.receiver

/-- **No internal address gets out.** After every such run an outbound packet is sent from the
translator's own address, or from the endpoint of a rule that stands for its sender, unless it
came from 0.0.0.0 and port 0. -/
theorem outward_hidden (ip : U32) (rules : List DnatRule) (es : List Event) (p : Packet) (now : Int) :
    let sent := (doTranslation (es.foldl step (natInit ip rules)) p .outward now).2
    sent.sender.1 = ip ∨ (∃ rule ∈ rules, rule.internal = p.sender ∧ sent.sender = rule.external) ∨
      p.sender = (0, 0) := by
  have h := accounted_run ip rules es
  generalize es.foldl step (natInit ip rules) = nat at h
  intro sent
  have hsent : sent.sender = (nat.entry p .outward).external := sender_sent nat p now
  obtain ⟨htest, hentry⟩ := h.entry p .outward
  have hint : (nat.entry p .outward).internal = p.sender := Prod.ext_iff.mpr ((hasInternal_iff _ _ _).mp htest)
  obtain hfresh | hearned := hentry
  · rw [hsent, hfresh]
    exact .inl h.iface
  · rw [hsent]
    cases hearned with
    | sent _ _ _ hip => exact .inl hip
    | came _ _ _ hruled =>
      rw [hint] at hruled
      obtain ⟨rule, hrule, hext, hto⟩ | ⟨_, hzero⟩ := ruled_cases rules (nat.entry p .outward).external
      · exact .inr (.inl ⟨rule, hrule, hto.symm.trans hruled.symm, hext.symm⟩)
      · exact .inr (.inr (hruled.trans hzero))

end NetStack.Translation
