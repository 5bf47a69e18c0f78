import NetStack.Lib.FirstMatch
import NetStack.Translation.Pool

/-! A flow keeps its translation (`EXP13-NAT/13-nat/nat.c`).

Mappings are told apart by numbers here, where the source has their addresses. With numbers
or without, a translator does the same (`table_step`). No step touches the endpoints of a
mapping, and none puts one before another in its bucket, so the mapping an outbound packet
went by stays the first one for its sender until it is reclaimed (`translation_stable`). -/
namespace NetStack.Translation

open FirstMatch

/-- A table whose mappings have numbers; `next` is the one to be given out next. -/
structure Numbering where
  entries : U8 → List (Nat × NatMapping)
  next : Nat
  externalIfaceIp : U32
  assignedPorts : U16 → U8
  rules : List DnatRule

/-- The table. -/
def Numbering.table (t : Numbering) : NatTable :=
  ⟨fun h => (t.entries h).map Prod.snd, t.externalIfaceIp, t.assignedPorts, t.rules⟩

/-- The table `natInit` makes. -/
def numberingInit (externalIfaceIp : U32) (rules : List DnatRule) : Numbering :=
  ⟨fun _ => [], 0, externalIfaceIp, fun _ => 0, rules⟩

/-! ### A packet's mapping -/

/-- The bucket of a packet. -/
def Packet.bucket (p : Packet) (dir : Dir) : U8 := bucketOf (p.remote dir).1 (p.remote dir).2

/-- What the walk over the bucket looks for. -/
def Packet.test (p : Packet) : Dir → NatMapping → Bool
  | .inward => NatMapping.hasExternal (ntohl p.daddr) (ntohs p.dport)
  | .outward => NatMapping.hasInternal (ntohl p.saddr) (ntohs p.sport)

/-- The mapping a packet makes when it finds none. -/
def NatTable.fresh (nat : NatTable) (p : Packet) : Dir → NatMapping
  | .inward => nat.inwardFresh p
  | .outward => nat.outwardFresh p

/-- The statistics a packet leaves. -/
def note (p : Packet) (now : Int) : Dir → NatMapping → NatMapping
  | .inward => noteInward p now
  | .outward => noteOutward p now

/-- What a packet does to its bucket, whichever way it goes, -/
theorem mappings_self (nat : NatTable) (p : Packet) (dir : Dir) (now : Int) :
    (doTranslation nat p dir now).1.mappings (p.bucket dir) =
      upsert (p.test dir) (nat.fresh p dir) (note p now dir) (nat.mappings (p.bucket dir)) := by
  cases dir <;> exact if_pos rfl

/-- and to the others. -/
theorem mappings_ne (nat : NatTable) (p : Packet) (dir : Dir) (now : Int) {b : U8} (h : b ≠ p.bucket dir) :
    (doTranslation nat p dir now).1.mappings b = nat.mappings b := by
  cases dir <;> exact if_neg h

/-- A packet is translated. -/
def Numbering.translate (t : Numbering) (p : Packet) (dir : Dir) (now : Int) : Numbering :=
  { t with
    entries := Function.update t.entries (p.bucket dir)
      (touch (p.test dir) t.next (t.table.fresh p dir) (note p now dir) (t.entries (p.bucket dir)))
    next := t.next + 1
    assignedPorts := (doTranslation t.table p dir now).1.assignedPorts }

theorem translate_entries (t : Numbering) (p : Packet) (dir : Dir) (now : Int) :
    (t.translate p dir now).entries = Function.update t.entries (p.bucket dir)
      (touch (p.test dir) t.next (t.table.fresh p dir) (note p now dir) (t.entries (p.bucket dir))) := rfl

def Numbering.step (t : Numbering) : Event → Numbering
  | .outward p now => t.translate p .outward now
  | .inward p now => t.translate p .inward now
  | .timeout now =>
    { t with
      entries := fun h => (t.entries h).filter fun y => !expired now y.2
      assignedPorts := (natTimeout t.table now).assignedPorts }

def Numbering.run (t : Numbering) (es : List Event) : Numbering := es.foldl Numbering.step t

/-- The mapping a packet uses, found or made. -/
def Numbering.uses (t : Numbering) (p : Packet) (dir : Dir) : Nat :=
  found (p.test dir) t.next (t.entries (p.bucket dir))

/-- The mapping has not been reclaimed. -/
def Numbering.Live (t : Numbering) (k : Nat) : Prop := ∃ h m, (k, m) ∈ t.entries h

/-! ### With numbers and without -/

theorem map_snd_touch (test : NatMapping → Bool) (n : Nat) (fresh : NatMapping) (update : NatMapping → NatMapping)
    (l : List (Nat × NatMapping)) :
    (touch test n fresh update l).map Prod.snd = upsert test fresh update (l.map Prod.snd) := by
  induction l with
  | nil => rfl
  | cons y rest ih =>
    rw [touch, List.map_cons, upsert]
    split
    · rw [List.map_cons]
    · rw [List.map_cons, ih]

theorem chosen_eq (test : NatMapping → Bool) (fresh : NatMapping) (l : List (Nat × NatMapping)) :
    chosen test fresh l = ((l.map Prod.snd).find? test).getD fresh := by
  rw [chosen, List.find?_map]
  rfl

theorem table_translate (t : Numbering) (p : Packet) (dir : Dir) (now : Int) :
    (t.translate p dir now).table = (doTranslation t.table p dir now).1 := by
  have hmappings : (t.translate p dir now).table.mappings = (doTranslation t.table p dir now).1.mappings := by
    funext h
    by_cases hh : h = p.bucket dir
    · subst hh
      show ((t.translate p dir now).entries (p.bucket dir)).map Prod.snd = _
      rw [translate_entries, Function.update_self, map_snd_touch, mappings_self]
      rfl
    · show ((t.translate p dir now).entries h).map Prod.snd = _
      rw [translate_entries, Function.update_of_ne hh, mappings_ne _ _ _ _ hh]
      rfl
  have hrest : (t.translate p dir now).table =
      { (doTranslation t.table p dir now).1 with mappings := (t.translate p dir now).table.mappings } := by
    cases dir <;> rfl
  rw [hrest, hmappings]

/-- A numbered table steps as the table does. -/
theorem table_step (t : Numbering) (e : Event) : (t.step e).table = Translation.step t.table e := by
  cases e with
  | outward p now => exact table_translate t p .outward now
  | inward p now => exact table_translate t p .inward now
  | timeout now =>
    have hmappings : (t.step (.timeout now)).table.mappings = (natTimeout t.table now).mappings := by
      funext h
      show ((t.entries h).filter fun y => !expired now y.2).map Prod.snd =
        ((t.entries h).map Prod.snd).filter fun m => !expired now m
      rw [List.filter_map]
      rfl
    show { natTimeout t.table now with mappings := (t.step (.timeout now)).table.mappings } = natTimeout t.table now
    rw [hmappings]

/-- And a run does. -/
theorem table_run (t : Numbering) (es : List Event) : (t.run es).table = es.foldl Translation.step t.table := by
  induction es generalizing t with
  | nil => rfl
  | cons e es ih =>
    rw [List.foldl_cons, ← table_step]
    exact ih (t.step e)

/-! ### What stays -/

theorem test_note (p p' : Packet) (now : Int) (dir dir' : Dir) (m : NatMapping) :
    p.test dir (note p' now dir' m) = p.test dir m := by
  cases dir <;> cases dir' <;> rfl

theorem note_internal (p : Packet) (now : Int) (dir : Dir) (m : NatMapping) :
    (note p now dir m).internal = m.internal := by
  cases dir <;> rfl

theorem note_external (p : Packet) (now : Int) (dir : Dir) (m : NatMapping) :
    (note p now dir m).external = m.external := by
  cases dir <;> rfl

/-- The mapping a packet makes is the one it looks for. -/
theorem test_fresh (nat : NatTable) (p : Packet) (dir : Dir) : p.test dir (nat.fresh p dir) = true := by
  cases dir with
  | inward => exact (hasExternal_iff _ _ _).mpr (external_inwardFresh nat p)
  | outward => exact (hasInternal_iff _ _ _).mpr ⟨rfl, rfl⟩

/-- Mappings have different numbers, and later ones get others. -/
def Numbering.Sound (t : Numbering) : Prop := Numbered t.next t.entries

theorem numberingInit_sound (ip : U32) (rules : List DnatRule) : (numberingInit ip rules).Sound :=
  ⟨fun _ => List.nodup_nil, nofun, nofun⟩

theorem Numbering.Sound.step {t : Numbering} (h : t.Sound) (e : Event) : (t.step e).Sound := by
  cases e with
  | outward p now => exact Numbered.touch h _ _ _ _
  | inward p now => exact Numbered.touch h _ _ _ _
  | timeout now => exact Numbered.filter h _

theorem Numbering.Sound.run {t : Numbering} (h : t.Sound) (es : List Event) : (t.run es).Sound := by
  induction es generalizing t with
  | nil => exact h
  | cons e es ih => exact ih (h.step e)

/-- **Endpoints are never changed**: a mapping that is there after a step was there before with
the same endpoints, in the same bucket, or is new. -/
theorem step_endpoints {t : Numbering} (h : t.Sound) (e : Event) {b c : U8} {k : Nat} {m m' : NatMapping}
    (hm : (k, m) ∈ t.entries b) (hm' : (k, m') ∈ (t.step e).entries c) :
    c = b ∧ m'.internal = m.internal ∧ m'.external = m.external := by
  -- A mapping of the next state with an old number comes from an old mapping.
  have hfrom : ∃ y ∈ t.entries c, y.1 = k ∧ m'.internal = y.2.internal ∧ m'.external = y.2.external := by
    have htranslate : ∀ p dir now, (k, m') ∈ (t.translate p dir now).entries c →
        ∃ y ∈ t.entries c, y.1 = k ∧ m'.internal = y.2.internal ∧ m'.external = y.2.external := by
      intro p dir now hm'
      rw [translate_entries] at hm'
      by_cases hc : c = p.bucket dir
      · subst hc
        rw [Function.update_self] at hm'
        rcases mem_touch hm' with hnew | ⟨y, hy, hyk, hsame⟩
        · have hlt := h.below b _ hm
          obtain rfl : k = t.next := congrArg Prod.fst hnew
          exact absurd hlt (Nat.lt_irrefl _)
        · refine ⟨y, hy, hyk, ?_⟩
          rcases hsame with hsame | hsame
          · obtain rfl : m' = y.2 := hsame
            exact ⟨rfl, rfl⟩
          · obtain rfl : m' = note p now dir y.2 := hsame
            exact ⟨note_internal p now dir y.2, note_external p now dir y.2⟩
      · rw [Function.update_of_ne hc] at hm'
        exact ⟨_, hm', rfl, rfl, rfl⟩
    cases e with
    | outward p now => exact htranslate p .outward now hm'
    | inward p now => exact htranslate p .inward now hm'
    | timeout now => exact ⟨_, List.mem_of_mem_filter hm', rfl, rfl, rfl⟩
  obtain ⟨y, hy, hnumber, hinternal, hexternal⟩ := hfrom
  obtain ⟨hcb, hsame⟩ := h.unique hy hm hnumber
  rw [hsame] at hinternal hexternal
  exact ⟨hcb, hinternal, hexternal⟩

/-- The mapping is the first one of the bucket for a test, and it has these external
endpoints; or it has been reclaimed. -/
def Stays (test : NatMapping → Bool) (b : U8) (k : Nat) (external : U32 × U16) (t : Numbering) : Prop :=
  k < t.next ∧ ((∃ m, First test k m (t.entries b) ∧ m.external = external) ∨ ¬t.Live k)

theorem not_live_step {t : Numbering} {k : Nat} (hk : k < t.next) (h : ¬t.Live k) (e : Event) :
    ¬(t.step e).Live k := by
  intro hyp
  obtain ⟨b, m, hm⟩ := hyp
  have htranslate : ∀ p dir now, (k, m) ∉ (t.translate p dir now).entries b := by
    intro p dir now hm
    rw [translate_entries] at hm
    by_cases hb : b = p.bucket dir
    · subst hb
      rw [Function.update_self] at hm
      rcases mem_touch hm with hnew | ⟨y, hy, rfl, -⟩
      · have heq : k = t.next := congrArg Prod.fst hnew
        omega
      · exact h ⟨_, y.2, hy⟩
    · rw [Function.update_of_ne hb] at hm
      exact h ⟨b, m, hm⟩
  cases e with
  | outward p now => exact htranslate p .outward now hm
  | inward p now => exact htranslate p .inward now hm
  | timeout now => exact h ⟨b, m, List.mem_of_mem_filter hm⟩

/-- A step leaves it so. -/
theorem Stays.step {t : Numbering} {q : Packet} {dir' : Dir} {b : U8} {k : Nat} {external : U32 × U16}
    (hsound : t.Sound) (h : Stays (q.test dir') b k external t) (e : Event) :
    Stays (q.test dir') b k external (t.step e) := by
  obtain ⟨hk, ⟨m, hfirst, hext⟩ | hgone⟩ := h
  · have htranslate : ∀ p dir now, Stays (q.test dir') b k external (t.translate p dir now) := by
      intro p dir now
      refine ⟨Nat.lt_succ_of_lt hk, .inl ?_⟩
      rw [translate_entries]
      by_cases hb : b = p.bucket dir
      · subst hb
        rw [Function.update_self]
        obtain ⟨m', hfirst', hsame⟩ :=
          hfirst.touch (test_note q p now dir' dir) (p.test dir) t.next (t.table.fresh p dir)
        refine ⟨m', hfirst', ?_⟩
        rcases hsame with rfl | rfl
        · exact hext
        · rw [note_external, hext]
      · rw [Function.update_of_ne hb]
        exact ⟨m, hfirst, hext⟩
    cases e with
    | outward p now => exact htranslate p .outward now
    | inward p now => exact htranslate p .inward now
    | timeout now =>
      refine ⟨hk, ?_⟩
      cases hexpired : expired now m with
      | false => exact .inl ⟨m, hfirst.filter (by simp [hexpired]), hext⟩
      | true =>
        right
        intro hyp
        obtain ⟨c, m', hm'⟩ := hyp
        -- It was this one mapping that had the number.
        obtain ⟨-, hsame⟩ := hsound.unique (List.mem_of_mem_filter hm') hfirst.mem rfl
        have hkept := (List.mem_filter.mp hm').2
        rw [hsame, hexpired] at hkept
        cases hkept
  · refine ⟨?_, .inr (not_live_step hk hgone e)⟩
    cases e with
    | outward p now => exact Nat.lt_succ_of_lt hk
    | inward p now => exact Nat.lt_succ_of_lt hk
    | timeout now => exact hk

theorem Stays.run {t : Numbering} {q : Packet} {dir' : Dir} {b : U8} {k : Nat} {external : U32 × U16}
    (hsound : t.Sound) (h : Stays (q.test dir') b k external t) (es : List Event) :
    Stays (q.test dir') b k external (t.run es) := by
  induction es generalizing t with
  | nil => exact h
  | cons e es ih => exact ih (hsound.step e) (h.step hsound e)

/-- What an outbound packet used stays. -/
theorem stays_translate {t : Numbering} (hsound : t.Sound) (p : Packet) (now : Int) :
    Stays (p.test .outward) (p.bucket .outward) (t.uses p .outward)
      (chosen (p.test .outward) (t.table.fresh p .outward) (t.entries (p.bucket .outward))).external
      (t.translate p .outward now) := by
  have hfirst := first_touch_self (test_note p p now .outward .outward) (test_fresh t.table p .outward) t.next
    (t.entries (p.bucket .outward))
  refine ⟨?_, .inl ⟨_, ?_, note_external p now .outward _⟩⟩
  · have hsound' := Numbering.Sound.step hsound (.outward p now)
    have hmem := hfirst.mem
    rw [← Function.update_self (p.bucket .outward) (touch _ _ _ _ _) t.entries] at hmem
    exact hsound'.below (p.bucket .outward) _ hmem
  · rw [translate_entries, Function.update_self]
    exact hfirst

/-- What an outbound packet is rewritten to. -/
theorem outward_external (t : Numbering) (p : Packet) (now : Int) :
    ((doTranslation t.table p .outward now).2.saddr, (doTranslation t.table p .outward now).2.sport) =
      (htonl (chosen (p.test .outward) (t.table.fresh p .outward) (t.entries (p.bucket .outward))).externalIp,
        htons (chosen (p.test .outward) (t.table.fresh p .outward) (t.entries (p.bucket .outward))).externalPort) := by
  rw [chosen_eq]
  rfl

/-- The packets are of one flow, from one endpoint to one remote. -/
def SameFlow (p p' : Packet) : Prop :=
  p'.saddr = p.saddr ∧ p'.sport = p.sport ∧ p'.daddr = p.daddr ∧ p'.dport = p.dport

/-- A later packet of the flow uses the mapping, and is rewritten as the first one was. -/
theorem uses_again {t : Numbering} (hsound : t.Sound) {p p' : Packet} (hflow : SameFlow p p') (now now' : Int)
    (after : List Event) (hlive : ((t.step (.outward p now)).run after).Live (t.uses p .outward)) :
    ((t.step (.outward p now)).run after).uses p' .outward = t.uses p .outward ∧
      (doTranslation ((t.step (.outward p now)).run after).table p' .outward now').2.saddr =
        (doTranslation t.table p .outward now).2.saddr ∧
      (doTranslation ((t.step (.outward p now)).run after).table p' .outward now').2.sport =
        (doTranslation t.table p .outward now).2.sport := by
  obtain ⟨hsaddr, hsport, hdaddr, hdport⟩ := hflow
  have htest : p'.test .outward = p.test .outward := by
    rw [Packet.test, Packet.test, hsaddr, hsport]
  have hbucket : p'.bucket .outward = p.bucket .outward := by
    simp only [Packet.bucket, Packet.remote, hdaddr, hdport]
  obtain ⟨-, ⟨m, hfirst, hext⟩ | hgone⟩ := (stays_translate hsound p now).run (hsound.step (.outward p now)) after
  · have hexternal := outward_external t p now
    have hexternal' := outward_external ((t.step (.outward p now)).run after) p' now'
    rw [htest, hbucket, hfirst.chosen] at hexternal'
    obtain ⟨hip, hport⟩ := Prod.mk.inj hext
    obtain ⟨hsaddr, hsport⟩ := Prod.mk.inj hexternal
    obtain ⟨hsaddr', hsport'⟩ := Prod.mk.inj hexternal'
    refine ⟨?_, by rw [hsaddr, hsaddr', hip], by rw [hsport, hsport', hport]⟩
    rw [Numbering.uses, htest, hbucket]
    exact hfirst.found
  · exact absurd hlive hgone

/-- **Stability.** From a fresh table on, with any rules and traffic, a numbered table is the table
that `do_translation` and `nat_timeout` lead to; and as long as the mapping
that an outbound packet used has not been reclaimed, every later packet from the same
endpoint to the same remote uses it, and is rewritten to the same external address and port;
and no step changes the endpoints of a mapping. -/
theorem translation_stable (ip : U32) (rules : List DnatRule) :
    (∀ es, ((numberingInit ip rules).run es).table = es.foldl step (natInit ip rules)) ∧
    (∀ before p now after p' now', SameFlow p p' →
      ((((numberingInit ip rules).run before).step (.outward p now)).run after).Live
        (((numberingInit ip rules).run before).uses p .outward) →
      let t := (numberingInit ip rules).run before
      let t' := (t.step (.outward p now)).run after
      t'.uses p' .outward = t.uses p .outward ∧
        (doTranslation t'.table p' .outward now').2.saddr = (doTranslation t.table p .outward now).2.saddr ∧
        (doTranslation t'.table p' .outward now').2.sport = (doTranslation t.table p .outward now).2.sport) ∧
      ∀ es e b c k m m', (k, m) ∈ ((numberingInit ip rules).run es).entries b →
        (k, m') ∈ (((numberingInit ip rules).run es).step e).entries c →
        c = b ∧ m'.internal = m.internal ∧ m'.external = m.external := by
  have hsound := numberingInit_sound ip rules
  refine ⟨table_run (numberingInit ip rules), ?_, ?_⟩
  · intro before p now after p' now' hflow hlive
    exact uses_again (hsound.run before) hflow now now' after hlive
  · intro es e b c k m m' hm hm'
    exact step_endpoints (hsound.run es) e hm hm'

/-- A packet, and one of the same flow after a pass of `nat_timeout`. -/
def request : Packet := ⟨htonl 0x0A150001#32, htonl 0x9FE2277B#32, htons 5000#16, htons 8000#16, 0, 0, 0⟩

theorem translation_stable_pass :
    let t := (numberingInit 0x9FE2272B#32 []).run []
    let t' := (t.step (.outward request 0)).run [.timeout 5]
    t'.uses { request with flags := tcpAck } .outward = t.uses request .outward ∧
      (doTranslation t'.table { request with flags := tcpAck } .outward 6).2.saddr =
        (doTranslation t.table request .outward 0).2.saddr ∧
      (doTranslation t'.table { request with flags := tcpAck } .outward 6).2.sport =
        (doTranslation t.table request .outward 0).2.sport :=
  (translation_stable 0x9FE2272B#32 []).2.1 [] request 0 [.timeout 5] { request with flags := tcpAck } 6
    ⟨rfl, rfl, rfl, rfl⟩
    ⟨request.bucket .outward, noteOutward request 0 ((natInit 0x9FE2272B#32 []).outwardFresh request), by decide⟩

end NetStack.Translation
