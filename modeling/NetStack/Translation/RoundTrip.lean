import NetStack.Lib.Run
import NetStack.Translation.Table

/-! Replies reach the endpoint that sent the request.

An outbound packet leaves with the external endpoint of its mapping, found by the
internal endpoint; the reply is translated by the first mapping of the same bucket
with that external endpoint. The two are one mapping as long as no two mappings of a
bucket share an external endpoint (`Distinct`). Timeouts and inbound packets cannot
break that; an outbound packet that makes a mapping breaks it exactly when the port
the pool hands out is already on a mapping of the bucket, which happens after
unsolicited inbound packets, after a timeout returned a port another mapping still
uses, and when the pool is empty. `replies_return` makes that an equivalence over
whole runs. -/
namespace NetStack.Translation

def Step (nat : NatTable) (e : Event) (nat' : NatTable) : Prop := step nat e = nat'

/-- The reply to a sent packet: back from its destination to its source. -/
def IsReply (sent reply : Packet) : Prop :=
  reply.saddr = sent.daddr ∧ reply.sport = sent.dport ∧
    reply.daddr = sent.saddr ∧ reply.dport = sent.sport

instance (sent reply : Packet) : Decidable (IsReply sent reply) := by
  unfold IsReply
  infer_instance

/-- Whatever an outbound packet was rewritten to, a reply processed next is rewritten
to the endpoint the packet came from. -/
def RoundTrips (nat : NatTable) : Event → Prop
  | .outward p now => ∀ reply now', IsReply (doTranslation nat p .outward now).2 reply →
      (doTranslation (doTranslation nat p .outward now).1 reply .inward now').2.daddr = p.saddr ∧
      (doTranslation (doTranslation nat p .outward now).1 reply .inward now').2.dport = p.sport
  | _ => True

/-- The bucket an outbound packet is looked up in. -/
def outwardBucket (nat : NatTable) (p : Packet) : List NatMapping :=
  nat.mappings (bucketOf (ntohl p.daddr) (ntohs p.dport))

/-- An outbound packet without a mapping gets an external endpoint that no mapping of
its bucket has. -/
def FreshExternal (nat : NatTable) : Event → Prop
  | .outward p _ =>
    (∀ m ∈ outwardBucket nat p, m.hasInternal (ntohl p.saddr) (ntohs p.sport) = false) →
      ∀ m ∈ outwardBucket nat p,
        m.hasExternal nat.externalIfaceIp (BitVec.ofNat 16 (freePort nat.assignedPorts)) = false
  | _ => True

instance (nat : NatTable) (e : Event) : Decidable (FreshExternal nat e) := by
  cases e <;> unfold FreshExternal <;> infer_instance

def NatMapping.external (m : NatMapping) : U32 × U16 := (m.externalIp, m.externalPort)

/-- No two mappings of a bucket share an external endpoint. -/
def Distinct (nat : NatTable) : Prop :=
  ∀ h, ((nat.mappings h).map NatMapping.external).Nodup

/-! ### Mappings -/

theorem hasExternal_iff (m : NatMapping) (ip : U32) (port : U16) :
    m.hasExternal ip port = true ↔ m.external = (ip, port) := by
  simp [NatMapping.hasExternal, NatMapping.external]

theorem hasInternal_iff (m : NatMapping) (ip : U32) (port : U16) :
    m.hasInternal ip port = true ↔ m.internalIp = ip ∧ m.internalPort = port := by
  simp [NatMapping.hasInternal]

@[simp] theorem external_noteInward (p : Packet) (now : Int) (m : NatMapping) :
    (noteInward p now m).external = m.external := rfl

@[simp] theorem external_noteOutward (p : Packet) (now : Int) (m : NatMapping) :
    (noteOutward p now m).external = m.external := rfl

/-- Rules set the internal endpoint only. -/
theorem external_checkRules (rules : List DnatRule) (m : NatMapping) :
    (checkRules rules m).external = m.external := by
  unfold checkRules
  induction rules generalizing m with
  | nil => rfl
  | cons rule rest ih =>
    rw [List.foldl_cons, ih]
    split <;> rfl

theorem external_inwardFresh (nat : NatTable) (p : Packet) :
    (nat.inwardFresh p).external = (ntohl p.daddr, ntohs p.dport) :=
  external_checkRules nat.rules _

theorem external_outwardFresh (nat : NatTable) (p : Packet) :
    (nat.outwardFresh p).external =
      (nat.externalIfaceIp, BitVec.ofNat 16 (freePort nat.assignedPorts)) := rfl

/-- In a bucket without shared external endpoints the inbound walk finds a mapping by
its own. -/
theorem find?_hasExternal {l : List NatMapping} (hnodup : (l.map NatMapping.external).Nodup)
    {m : NatMapping} (hm : m ∈ l) {ip : U32} {port : U16} (hext : m.external = (ip, port)) :
    l.find? (NatMapping.hasExternal ip port) = some m := by
  cases hfind : l.find? (NatMapping.hasExternal ip port) with
  | none =>
    have := List.find?_eq_none.mp hfind m hm
    exact absurd ((hasExternal_iff m ip port).mpr hext) this
  | some m' =>
    have hm' := (hasExternal_iff m' ip port).mp (List.find?_some hfind)
    rw [List.inj_on_of_nodup_map hnodup (List.mem_of_find?_eq_some hfind) hm (hm'.trans hext.symm)]

/-! ### Updating a bucket -/

section Upsert
variable {test : NatMapping → Bool} (fresh : NatMapping) (update : NatMapping → NatMapping)

theorem upsert_missing {l : List NatMapping} (h : l.find? test = none) :
    upsert test fresh update l = l ++ [update fresh] := by
  induction l with
  | nil => rfl
  | cons m rest ih =>
    rw [List.find?_cons] at h
    split at h
    · cases h
    · rename_i hm
      rw [upsert, if_neg (by simp [hm]), ih h, List.cons_append]

theorem upsert_found {l : List NatMapping} {e : NatMapping} (h : l.find? test = some e) :
    ∃ before after, l = before ++ e :: after ∧
      upsert test fresh update l = before ++ update e :: after := by
  induction l with
  | nil => cases h
  | cons m rest ih =>
    rw [List.find?_cons] at h
    split at h
    · rename_i hm
      cases h
      exact ⟨[], rest, rfl, by rw [upsert, if_pos (by simp [hm])]; rfl⟩
    · rename_i hm
      obtain ⟨before, after, hl, hu⟩ := ih h
      exact ⟨m :: before, after, by rw [hl, List.cons_append],
        by rw [upsert, if_neg (by simp [hm]), hu, List.cons_append]⟩

/-- The mapping a walk used is in the bucket afterwards. -/
theorem mem_upsert (test : NatMapping → Bool) (l : List NatMapping) :
    update ((l.find? test).getD fresh) ∈ upsert test fresh update l := by
  cases h : l.find? test with
  | none => simp [upsert_missing fresh update h]
  | some e =>
    obtain ⟨before, after, _, hu⟩ := upsert_found fresh update h
    simp [hu]

/-- An update that leaves the external endpoints alone keeps them distinct, unless it
appends one that is there. -/
theorem nodup_upsert (hupdate : ∀ m, (update m).external = m.external) {l : List NatMapping}
    (h : (l.map NatMapping.external).Nodup)
    (hfresh : l.find? test = none → fresh.external ∉ l.map NatMapping.external) :
    ((upsert test fresh update l).map NatMapping.external).Nodup := by
  cases hfind : l.find? test with
  | none =>
    rw [upsert_missing fresh update hfind, List.map_append, List.map_singleton, hupdate]
    exact List.nodup_append.mpr ⟨h, List.nodup_singleton _, fun a ha b hb hab =>
      hfresh hfind (by rw [← List.mem_singleton.mp hb, ← hab]; exact ha)⟩
  | some e =>
    obtain ⟨before, after, hl, hu⟩ := upsert_found fresh update hfind
    have hmap : (upsert test fresh update l).map NatMapping.external = l.map NatMapping.external := by
      rw [hu, hl]
      simp [hupdate]
    rw [hmap]
    exact h

end Upsert

/-! ### One step -/

theorem distinct_setBucket {nat nat' : NatTable} {h : U8} {l : List NatMapping}
    (hmappings : nat'.mappings = setBucket nat.mappings h l) (hd : Distinct nat)
    (hl : (l.map NatMapping.external).Nodup) : Distinct nat' := by
  intro k
  rw [hmappings]
  by_cases hk : k = h
  · simpa [setBucket, hk] using hl
  · simpa [setBucket, hk] using hd k

/-- An inbound packet appends an external endpoint only after it looked for it. -/
theorem distinct_inward (nat : NatTable) (hd : Distinct nat) (p : Packet) (now : Int) :
    Distinct (doTranslation nat p .inward now).1 := by
  refine distinct_setBucket rfl hd (nodup_upsert _ _ (external_noteInward p now) (hd _) ?_)
  intro hnone hmem
  rw [external_inwardFresh] at hmem
  obtain ⟨m, hm, hext⟩ := List.mem_map.mp hmem
  exact List.find?_eq_none.mp hnone m hm ((hasExternal_iff m _ _).mpr hext)

theorem freshExternal_iff (nat : NatTable) (p : Packet) (now : Int) :
    FreshExternal nat (.outward p now) ↔
      ((outwardBucket nat p).find? (NatMapping.hasInternal (ntohl p.saddr) (ntohs p.sport)) = none →
        (nat.outwardFresh p).external ∉ (outwardBucket nat p).map NatMapping.external) := by
  rw [external_outwardFresh, List.find?_eq_none]
  simp only [FreshExternal, Bool.not_eq_true, List.mem_map, not_exists, not_and]
  refine imp_congr_right fun _ => forall₂_congr fun m _ => ?_
  rw [← hasExternal_iff, Bool.not_eq_true]

theorem distinct_outward (nat : NatTable) (hd : Distinct nat) (p : Packet) (now : Int)
    (hfresh : FreshExternal nat (.outward p now)) : Distinct (doTranslation nat p .outward now).1 :=
  distinct_setBucket rfl hd (nodup_upsert _ _ (external_noteOutward p now) (hd _)
    ((freshExternal_iff nat p now).mp hfresh))

theorem distinct_timeout (nat : NatTable) (hd : Distinct nat) (now : Int) :
    Distinct (natTimeout nat now) :=
  fun h => (hd h).sublist (List.Sublist.map _ List.filter_sublist)

/-- Every step that meets the condition keeps the external endpoints distinct. -/
theorem distinct_step (nat : NatTable) (e : Event) (nat' : NatTable) (hd : Distinct nat)
    (hfresh : FreshExternal nat e) (h : Step nat e nat') : Distinct nat' := by
  obtain rfl : step nat e = nat' := h
  cases e with
  | outward p now => exact distinct_outward nat hd p now hfresh
  | inward p now => exact distinct_inward nat hd p now
  | timeout now => exact distinct_timeout nat hd now

/-- A reply is looked up in the bucket its request went through. -/
theorem reply_bucket (nat : NatTable) (p : Packet) (now : Int) (reply : Packet)
    (h : IsReply (doTranslation nat p .outward now).2 reply) :
    (doTranslation nat p .outward now).1.mappings (bucketOf (reply.remote .inward).1 (reply.remote .inward).2) =
      upsert (NatMapping.hasInternal (ntohl p.saddr) (ntohs p.sport)) (nat.outwardFresh p)
        (noteOutward p now) (outwardBucket nat p) := by
  obtain ⟨hs, hp, _, _⟩ := h
  have hs' : reply.saddr = p.daddr := hs
  have hp' : reply.sport = p.dport := hp
  simp [doTranslation, Packet.remote, hs', hp', setBucket, outwardBucket]

/-- The mapping an outbound packet goes out by. -/
def outwardEntry (nat : NatTable) (p : Packet) : NatMapping :=
  ((outwardBucket nat p).find? (NatMapping.hasInternal (ntohl p.saddr) (ntohs p.sport))).getD
    (nat.outwardFresh p)

theorem outwardEntry_internal (nat : NatTable) (p : Packet) :
    (outwardEntry nat p).hasInternal (ntohl p.saddr) (ntohs p.sport) = true := by
  unfold outwardEntry
  cases h : (outwardBucket nat p).find? (NatMapping.hasInternal (ntohl p.saddr) (ntohs p.sport)) with
  | none => simp [NatTable.outwardFresh, NatMapping.hasInternal]
  | some e => simpa using List.find?_some h

/-- Where a reply goes: to the internal endpoint of the first mapping with the external
endpoint the request left with. -/
theorem reply_destination (nat : NatTable) (p : Packet) (now : Int) (reply : Packet) (now' : Int)
    (h : IsReply (doTranslation nat p .outward now).2 reply) {m : NatMapping}
    (hfind : (upsert (NatMapping.hasInternal (ntohl p.saddr) (ntohs p.sport)) (nat.outwardFresh p)
        (noteOutward p now) (outwardBucket nat p)).find?
      (NatMapping.hasExternal (outwardEntry nat p).externalIp (outwardEntry nat p).externalPort) = some m) :
    let sent := (doTranslation (doTranslation nat p .outward now).1 reply .inward now').2
    sent.daddr = htonl m.internalIp ∧ sent.dport = htons m.internalPort := by
  have hbucket := reply_bucket nat p now reply h
  obtain ⟨_, _, hd, hp⟩ := h
  have hd' : ntohl reply.daddr = (outwardEntry nat p).externalIp := by
    rw [hd]
    exact ntohl_ntohl _
  have hp' : ntohs reply.dport = (outwardEntry nat p).externalPort := by
    rw [hp]
    exact ntohs_ntohs _
  intro sent
  simp only [sent]
  rw [doTranslation]
  simp only [hbucket, hd', hp', hfind, Option.getD_some, and_self]

/-- With distinct external endpoints, replies return exactly when the packet did not
have to make a mapping with an external endpoint of its bucket. -/
theorem roundTrips_iff (nat : NatTable) (e : Event) (hd : Distinct nat) :
    RoundTrips nat e ↔ FreshExternal nat e := by
  cases e with
  | inward p now => exact Iff.rfl
  | timeout now => exact Iff.rfl
  | outward p now =>
    constructor
    · intro hround
      rw [freshExternal_iff]
      intro hnone hmem
      obtain ⟨m, hm, hext⟩ := List.mem_map.mp hmem
      have hentry : outwardEntry nat p = nat.outwardFresh p := by
        rw [outwardEntry, hnone, Option.getD_none]
      -- An older mapping answers for the new one.
      obtain ⟨old, hold, hfind⟩ : ∃ old ∈ outwardBucket nat p,
          (outwardBucket nat p).find? (NatMapping.hasExternal (outwardEntry nat p).externalIp
            (outwardEntry nat p).externalPort) = some old := by
        cases hf : (outwardBucket nat p).find? (NatMapping.hasExternal (outwardEntry nat p).externalIp
            (outwardEntry nat p).externalPort) with
        | none =>
          have := List.find?_eq_none.mp hf m hm
          exact absurd ((hasExternal_iff m _ _).mpr (by rw [hext, hentry]; rfl)) this
        | some old => exact ⟨old, List.mem_of_find?_eq_some hf, rfl⟩
      let sent := (doTranslation nat p .outward now).2
      let reply : Packet := ⟨sent.daddr, sent.saddr, sent.dport, sent.sport, 0, 0, 0⟩
      have hreply : IsReply sent reply := ⟨rfl, rfl, rfl, rfl⟩
      have hdest := reply_destination nat p now reply now hreply (by
        rw [upsert_missing _ _ hnone, List.find?_append, hfind]
        rfl)
      obtain ⟨hip, hport⟩ := hround reply now hreply
      have hne := List.find?_eq_none.mp hnone old hold
      apply hne
      rw [hasInternal_iff, ← hip, ← hport, hdest.1, hdest.2, htonl, htons, ntohl_ntohl, ntohs_ntohs]
      exact ⟨rfl, rfl⟩
    · intro hfresh reply now' hreply
      have hnodup := nodup_upsert _ _ (external_noteOutward p now) (hd _)
        ((freshExternal_iff nat p now).mp hfresh)
      have hmem := mem_upsert (nat.outwardFresh p) (noteOutward p now)
        (NatMapping.hasInternal (ntohl p.saddr) (ntohs p.sport)) (outwardBucket nat p)
      have hdest := reply_destination nat p now reply now' hreply
        (find?_hasExternal hnodup hmem (external_noteOutward p now _))
      have hint := (hasInternal_iff _ _ _).mp (outwardEntry_internal nat p)
      rw [hdest.1, hdest.2]
      exact ⟨(congrArg htonl hint.1).trans (ntohl_ntohl _), (congrArg htons hint.2).trans (ntohs_ntohs _)⟩

/-! ### Whole runs -/

theorem distinct_natInit (ip : U32) (rules : List DnatRule) : Distinct (natInit ip rules) :=
  fun _ => List.nodup_nil

/-- **Replies return.** Along every run from a fresh table, with any rules, any traffic
and any timeouts, every outbound packet's replies reach its sender exactly when every
outbound packet that makes a mapping gets an external endpoint that is new to its
bucket. -/
theorem replies_return (ip : U32) (rules : List DnatRule) (events : List Event) :
    Along Step RoundTrips (natInit ip rules) events ↔
      Along Step FreshExternal (natInit ip rules) events :=
  along_iff distinct_step roundTrips_iff (distinct_natInit ip rules) events

/-- An unsolicited packet to the first port of the pool leaves a mapping to 0.0.0.0
there; the next connection to the same remote gets that port, and its replies go to
0.0.0.0. -/
theorem replies_lost :
    ¬ Along Step RoundTrips (natInit 0x9FE2272B#32 [])
      [.inward ⟨htonl 0x9FE2277B#32, htonl 0x9FE2272B#32, htons 8000#16, htons 12345#16, 0, 0, 0⟩ 0,
        .outward ⟨htonl 0x0A150001#32, htonl 0x9FE2277B#32, htons 5000#16, htons 8000#16, 0, 0, 0⟩ 1] := by
  intro h
  have hround := (h.2 _ rfl).1 ⟨htonl 0x9FE2277B#32, htonl 0x9FE2272B#32, htons 8000#16,
    htons 12345#16, 0, 0, 0⟩ 2 (by decide)
  exact absurd hround.1 (by decide)

end NetStack.Translation
