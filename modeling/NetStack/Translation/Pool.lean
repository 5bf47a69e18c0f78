import NetStack.Translation.RoundTrip

/-! The port pool and the mappings.

The pool marks a port assigned when an outbound packet takes it and free when a
mapping with it is reclaimed. The two books agree (`PoolInvariant`) when a port of
the pool is marked exactly while some mapping has it, and no external endpoint stands
for two internal ones. A step breaks that in three ways only: an outbound packet finds
the pool empty and is given port 0 next to another mapping on port 0, an inbound packet
without a mapping makes one on a port the pool still holds or on an external endpoint
that stands for something else, and a timeout frees the port of a mapping that stays. -/
namespace NetStack.Translation

/-- The ports `assign_port` hands out. -/
def InPool (q : U16) : Prop := portMin ≤ q.toNat ∧ q.toNat < portMax

instance (q : U16) : Decidable (InPool q) := by
  unfold InPool
  infer_instance

def NatMapping.internal (m : NatMapping) : U32 × U16 := (m.internalIp, m.internalPort)

/-- The mapping is in one of the lists. -/
def NatTable.Live (nat : NatTable) (m : NatMapping) : Prop := ∃ h, m ∈ nat.mappings h

structure PoolInvariant (nat : NatTable) : Prop where
  assigned : ∀ q, InPool q →
    (nat.assignedPorts q = 1 ↔ ∃ m, nat.Live m ∧ m.externalPort = q)
  unshared : ∀ m m', nat.Live m → nat.Live m' → m.internal ≠ m'.internal →
    m.external ≠ m'.external

/-- The bucket an inbound packet is looked up in. -/
def inwardBucket (nat : NatTable) (p : Packet) : List NatMapping :=
  nat.mappings (bucketOf (ntohl p.saddr) (ntohs p.sport))

/-- What a step has to meet for the pool and the mappings to agree afterwards. -/
def KeepsPool (nat : NatTable) : Event → Prop
  | .outward p _ =>
    -- Without a mapping and with the pool empty, port 0 of the interface is not taken.
    (∀ m ∈ outwardBucket nat p, m.hasInternal (ntohl p.saddr) (ntohs p.sport) = false) →
      (∀ q, InPool q → nat.assignedPorts q ≠ 0) →
      ∀ m, nat.Live m → m.external = (nat.externalIfaceIp, 0) →
        m.internal = (ntohl p.saddr, ntohs p.sport)
  | .inward p _ =>
    -- Without a mapping, the port is not one the pool holds, and wherever the
    -- destination is mapped it is mapped to what the rules say.
    (∀ m ∈ inwardBucket nat p, m.hasExternal (ntohl p.daddr) (ntohs p.dport) = false) →
      (InPool (ntohs p.dport) → ∃ m, nat.Live m ∧ m.externalPort = ntohs p.dport) ∧
      ∀ m, nat.Live m → m.external = (ntohl p.daddr, ntohs p.dport) →
        m.internal = (nat.inwardFresh p).internal
  | .timeout now =>
    -- No reclaimed mapping has a port of the pool that a mapping keeps.
    ∀ m m', nat.Live m → nat.Live m' → expired now m = true → expired now m' = false →
      InPool m'.externalPort → m.externalPort ≠ m'.externalPort

/-! ### The pool -/

theorem inPool_iff (q : U16) : InPool q ↔ q.toNat ∈ List.range' portMin (portMax - portMin) := by
  rw [InPool, List.mem_range'_1, portMin, portMax]

theorem setPort_apply (ports : U16 → U8) (q r : U16) (v : U8) :
    setPort ports q v r = if r = q then v else ports r := rfl

/-- The pool hands out a free port of its own, or finds none. -/
theorem freePort_cases (ports : U16 → U8) :
    (freePort ports = 0 ∧ ∀ q, InPool q → ports q ≠ 0) ∨
      (freePort ports ≠ 0 ∧ InPool (BitVec.ofNat 16 (freePort ports)) ∧
        ports (BitVec.ofNat 16 (freePort ports)) = 0) := by
  cases h : (List.range' portMin (portMax - portMin)).find? fun i => ports (BitVec.ofNat 16 i) == 0 with
  | none =>
    refine .inl ⟨by rw [freePort, h]; rfl, fun q hq hzero => ?_⟩
    have := List.find?_eq_none.mp h q.toNat ((inPool_iff q).mp hq)
    simp [hzero] at this
  | some i =>
    have hi : freePort ports = i := by rw [freePort, h]; rfl
    have hmem := List.mem_of_find?_eq_some h
    have hfree := List.find?_some h
    rw [List.mem_range'_1] at hmem
    simp only [portMin, portMax] at hmem
    have hnat : (BitVec.ofNat 16 i).toNat = i := by
      rw [BitVec.toNat_ofNat]
      omega
    refine .inr ⟨by omega, ?_, by simpa [hi] using hfree⟩
    rw [hi, InPool, hnat, portMin, portMax]
    omega

theorem assignPort_pool (ports : U16 → U8) :
    (assignPort ports).2 = if freePort ports = 0 then ports
      else setPort ports (BitVec.ofNat 16 (freePort ports)) 1 := rfl

/-- Handing ports back clears exactly them. -/
theorem foldl_setPort (l : List NatMapping) (ports : U16 → U8) (q : U16) :
    l.foldl (fun ports m => setPort ports m.externalPort 0) ports q =
      if ∃ m ∈ l, m.externalPort = q then 0 else ports q := by
  induction l generalizing ports with
  | nil => simp
  | cons m rest ih =>
    rw [List.foldl_cons, ih, setPort_apply]
    by_cases hrest : ∃ m ∈ rest, m.externalPort = q
    · have hall : ∃ m' ∈ m :: rest, m'.externalPort = q := by
        obtain ⟨m', hm', hq⟩ := hrest
        exact ⟨m', List.mem_cons_of_mem _ hm', hq⟩
      rw [if_pos hrest, if_pos hall]
    · rw [if_neg hrest]
      by_cases hm : q = m.externalPort
      · rw [if_pos hm, if_pos ⟨m, List.mem_cons_self, hm.symm⟩]
      · rw [if_neg hm, if_neg]
        intro hyp
        obtain ⟨m', hm', hq⟩ := hyp
        cases List.mem_cons.mp hm' with
        | inl heq => exact hm (by rw [← hq, heq])
        | inr hmem => exact hrest ⟨m', hmem, hq⟩

/-! ### Which endpoints are mapped to which -/

/-- The internal and the external end of a mapping. -/
def NatMapping.ends (m : NatMapping) : (U32 × U16) × (U32 × U16) := (m.internal, m.external)

theorem ends_noteInward (p : Packet) (now : Int) (m : NatMapping) :
    (noteInward p now m).ends = m.ends := rfl

theorem ends_noteOutward (p : Packet) (now : Int) (m : NatMapping) :
    (noteOutward p now m).ends = m.ends := rfl

/-- Some mapping stands for the internal endpoint with the external one. -/
def NatTable.Maps (nat : NatTable) (i e : U32 × U16) : Prop :=
  ∃ h, (i, e) ∈ (nat.mappings h).map NatMapping.ends

theorem maps_iff (nat : NatTable) (i e : U32 × U16) :
    nat.Maps i e ↔ ∃ m, nat.Live m ∧ m.internal = i ∧ m.external = e := by
  constructor
  · intro hmaps
    obtain ⟨h, hmem⟩ := hmaps
    obtain ⟨m, hm, hends⟩ := List.mem_map.mp hmem
    exact ⟨m, ⟨h, hm⟩, congrArg Prod.fst hends, congrArg Prod.snd hends⟩
  · intro hlive
    obtain ⟨m, ⟨h, hm⟩, hi, he⟩ := hlive
    exact ⟨h, List.mem_map.mpr ⟨m, hm, by rw [NatMapping.ends, hi, he]⟩⟩

theorem NatTable.Live.maps {nat : NatTable} {m : NatMapping} (h : nat.Live m) :
    nat.Maps m.internal m.external :=
  (maps_iff nat _ _).mpr ⟨m, h, rfl, rfl⟩

/-- Some mapping has the port. -/
theorem exists_port_iff (nat : NatTable) (q : U16) :
    (∃ m, nat.Live m ∧ m.externalPort = q) ↔ ∃ i e, nat.Maps i e ∧ e.2 = q := by
  constructor
  · intro hlive
    obtain ⟨m, hm, hq⟩ := hlive
    exact ⟨_, _, hm.maps, hq⟩
  · intro hmaps
    obtain ⟨i, e, h, hq⟩ := hmaps
    obtain ⟨m, hm, _, he⟩ := (maps_iff nat i e).mp h
    exact ⟨m, hm, by rw [← hq, ← he]; rfl⟩

/-- An external endpoint stands for one internal endpoint. -/
theorem PoolInvariant.functional {nat : NatTable} (h : PoolInvariant nat) {i i' e : U32 × U16}
    (hi : nat.Maps i e) (hi' : nat.Maps i' e) : i = i' := by
  obtain ⟨m, hm, rfl, rfl⟩ := (maps_iff nat i e).mp hi
  obtain ⟨m', hm', rfl, hext⟩ := (maps_iff nat i' _).mp hi'
  by_contra hne
  exact h.unshared m m' hm hm' hne hext.symm

/-- The invariant, in terms of which endpoints are mapped. -/
theorem poolInvariant_of_maps {nat : NatTable}
    (hassigned : ∀ q, InPool q → (nat.assignedPorts q = 1 ↔ ∃ i e, nat.Maps i e ∧ e.2 = q))
    (hfunctional : ∀ i i' e, nat.Maps i e → nat.Maps i' e → i = i') : PoolInvariant nat where
  assigned q hq := (hassigned q hq).trans (exists_port_iff nat q).symm
  unshared _ _ hm hm' hne hext := hne (hfunctional _ _ _ hm.maps (hext ▸ hm'.maps))

theorem setBucket_self (mappings : U8 → List NatMapping) (h : U8) :
    mappings = setBucket mappings h (mappings h) := by
  funext k
  rw [setBucket]
  split
  · rename_i hk
    rw [hk]
  · rfl

/-- The mapped endpoints after one bucket changed. -/
theorem maps_setBucket {nat nat' : NatTable} {h : U8} {l : List NatMapping}
    (hmappings : nat'.mappings = setBucket nat.mappings h l) (i e : U32 × U16) :
    nat'.Maps i e ↔ (i, e) ∈ l.map NatMapping.ends ∨
      ∃ k, k ≠ h ∧ (i, e) ∈ (nat.mappings k).map NatMapping.ends := by
  constructor
  · intro hmaps
    obtain ⟨k, hmem⟩ := hmaps
    rw [hmappings, setBucket] at hmem
    split at hmem
    · exact .inl hmem
    · exact .inr ⟨k, ‹_›, hmem⟩
  · intro hmaps
    cases hmaps with
    | inl hmem => exact ⟨h, by rw [hmappings, setBucket, if_pos rfl]; exact hmem⟩
    | inr hother =>
      obtain ⟨k, hk, hmem⟩ := hother
      exact ⟨k, by rw [hmappings, setBucket, if_neg hk]; exact hmem⟩

section Upsert
variable {test : NatMapping → Bool} {fresh : NatMapping} {update : NatMapping → NatMapping}
  {nat nat' : NatTable} {h : U8}

/-- A packet that finds its mapping changes no endpoints. -/
theorem maps_upsert_found (hupdate : ∀ m, (update m).ends = m.ends)
    (hmappings : nat'.mappings = setBucket nat.mappings h (upsert test fresh update (nat.mappings h)))
    (hfound : (nat.mappings h).find? test ≠ none) (i e : U32 × U16) :
    nat'.Maps i e ↔ nat.Maps i e := by
  obtain ⟨m, hm⟩ := Option.ne_none_iff_exists'.mp hfound
  obtain ⟨before, after, hl, hu⟩ := upsert_found fresh update hm
  have hends : (upsert test fresh update (nat.mappings h)).map NatMapping.ends =
      (nat.mappings h).map NatMapping.ends := by
    rw [hu, hl]
    simp [hupdate]
  rw [maps_setBucket hmappings, hends, maps_setBucket (setBucket_self nat.mappings h)]

/-- A packet that finds none adds the endpoints of the one it makes. -/
theorem maps_upsert_missing (hupdate : ∀ m, (update m).ends = m.ends)
    (hmappings : nat'.mappings = setBucket nat.mappings h (upsert test fresh update (nat.mappings h)))
    (hmissing : (nat.mappings h).find? test = none) (i e : U32 × U16) :
    nat'.Maps i e ↔ nat.Maps i e ∨ (i = fresh.internal ∧ e = fresh.external) := by
  rw [maps_setBucket hmappings, maps_setBucket (setBucket_self nat.mappings h), upsert_missing fresh update hmissing,
    List.map_append, List.map_singleton, hupdate, List.mem_append, List.mem_singleton,
    NatMapping.ends, Prod.mk.injEq]
  exact or_right_comm

end Upsert

/-! ### What a step adds or takes away -/

/-- A step that changes neither book keeps the invariant. -/
theorem PoolInvariant.same {nat nat' : NatTable} (hinv : PoolInvariant nat)
    (hmaps : ∀ i e, nat'.Maps i e ↔ nat.Maps i e) (hports : nat'.assignedPorts = nat.assignedPorts) :
    PoolInvariant nat' := by
  refine poolInvariant_of_maps (fun q hq => ?_) (fun i i' e hi hi' => ?_)
  · simp only [hports, hmaps]
    exact (hinv.assigned q hq).trans (exists_port_iff nat q)
  · exact hinv.functional ((hmaps i e).mp hi) ((hmaps i' e).mp hi')

/-- A new mapping keeps the invariant exactly when its port is marked from now on, and
no other, and its external endpoint stood for nothing else. -/
theorem PoolInvariant.add_iff {nat nat' : NatTable} (hinv : PoolInvariant nat) {i₀ e₀ : U32 × U16}
    (hmaps : ∀ i e, nat'.Maps i e ↔ nat.Maps i e ∨ (i = i₀ ∧ e = e₀)) :
    PoolInvariant nat' ↔
      (∀ q, InPool q → (nat'.assignedPorts q = 1 ↔ nat.assignedPorts q = 1 ∨ q = e₀.2)) ∧
        ∀ i, nat.Maps i e₀ → i = i₀ := by
  have hnew : nat'.Maps i₀ e₀ := (hmaps i₀ e₀).mpr (.inr ⟨rfl, rfl⟩)
  have hports : ∀ q, InPool q →
      ((∃ i e, nat'.Maps i e ∧ e.2 = q) ↔ nat.assignedPorts q = 1 ∨ q = e₀.2) := by
    intro q hq
    rw [hinv.assigned q hq, exists_port_iff]
    constructor
    · intro hyp
      obtain ⟨i, e, hmap, he⟩ := hyp
      cases (hmaps i e).mp hmap with
      | inl hold => exact .inl ⟨i, e, hold, he⟩
      | inr hadd => exact .inr (by rw [← he, hadd.2])
    · intro hyp
      cases hyp with
      | inl hold =>
        obtain ⟨i, e, hmap, he⟩ := hold
        exact ⟨i, e, (hmaps i e).mpr (.inl hmap), he⟩
      | inr hadd => exact ⟨i₀, e₀, hnew, hadd.symm⟩
  constructor
  · intro hinv'
    refine ⟨fun q hq => ?_, fun i hi => ?_⟩
    · exact ((hinv'.assigned q hq).trans (exists_port_iff nat' q)).trans (hports q hq)
    · exact hinv'.functional ((hmaps i e₀).mpr (.inl hi)) hnew
  · intro hyp
    obtain ⟨hassigned, hfunctional⟩ := hyp
    refine poolInvariant_of_maps (fun q hq => (hassigned q hq).trans (hports q hq).symm) ?_
    intro i i' e hi hi'
    cases (hmaps i e).mp hi with
    | inl hold =>
      cases (hmaps i' e).mp hi' with
      | inl hold' => exact hinv.functional hold hold'
      | inr hadd' =>
        rw [hadd'.1]
        exact hfunctional i (hadd'.2 ▸ hold)
    | inr hadd =>
      cases (hmaps i' e).mp hi' with
      | inl hold' =>
        rw [hadd.1]
        exact (hfunctional i' (hadd.2 ▸ hold')).symm
      | inr hadd' => rw [hadd.1, hadd'.1]

theorem internal_outwardFresh (nat : NatTable) (p : Packet) :
    (nat.outwardFresh p).internal = (ntohl p.saddr, ntohs p.sport) := rfl

/-- The condition's talk of mappings, in terms of what is mapped. -/
theorem forall_maps_iff (nat : NatTable) (i₀ e₀ : U32 × U16) :
    (∀ i, nat.Maps i e₀ → i = i₀) ↔ ∀ m, nat.Live m → m.external = e₀ → m.internal = i₀ := by
  constructor
  · intro h m hm he
    exact h _ (he ▸ hm.maps)
  · intro h i hi
    obtain ⟨m, hm, hint, hext⟩ := (maps_iff nat i e₀).mp hi
    rw [← hint]
    exact h m hm hext

theorem poolInvariant_outward (nat : NatTable) (hinv : PoolInvariant nat) (p : Packet) (now : Int) :
    PoolInvariant (doTranslation nat p .outward now).1 ↔ KeepsPool nat (.outward p now) := by
  cases hfind : (outwardBucket nat p).find? (NatMapping.hasInternal (ntohl p.saddr) (ntohs p.sport)) with
  | some m =>
    have hsome : (outwardBucket nat p).find?
        (NatMapping.hasInternal (ntohl p.saddr) (ntohs p.sport)) ≠ none := by simp [hfind]
    refine iff_of_true (hinv.same (maps_upsert_found (ends_noteOutward p now) rfl hsome) ?_) ?_
    · show (if (List.find? _ (outwardBucket nat p)).isSome then _ else _) = _
      rw [hfind]
      rfl
    · intro hmissing
      have := hmissing m (List.mem_of_find?_eq_some hfind)
      rw [List.find?_some hfind] at this
      cases this
  | none =>
    have hmissing : ∀ m ∈ outwardBucket nat p,
        m.hasInternal (ntohl p.saddr) (ntohs p.sport) = false := by
      intro m hm
      simpa using List.find?_eq_none.mp hfind m hm
    have hports : (doTranslation nat p .outward now).1.assignedPorts =
        (assignPort nat.assignedPorts).2 := by
      show (if (List.find? _ (outwardBucket nat p)).isSome then _ else _) = _
      rw [hfind]
      rfl
    rw [hinv.add_iff (maps_upsert_missing (ends_noteOutward p now) rfl hfind), hports, forall_maps_iff,
      internal_outwardFresh, external_outwardFresh]
    cases freePort_cases nat.assignedPorts with
    | inl hempty =>
      obtain ⟨hzero, hfull⟩ := hempty
      rw [assignPort_pool, if_pos hzero, hzero]
      constructor
      · intro h _ _
        exact h.2
      · intro h
        refine ⟨fun q hq => (or_iff_left ?_).symm, h hmissing hfull⟩
        intro hq0
        rw [hq0] at hq
        exact absurd hq (show ¬ InPool 0#16 by decide)
    | inr hfree =>
      obtain ⟨hne, hpool, hunassigned⟩ := hfree
      -- Nobody has a port the pool marks free.
      have hunused : ¬ ∃ m, nat.Live m ∧ m.externalPort = BitVec.ofNat 16 (freePort nat.assignedPorts) := by
        rw [← hinv.assigned _ hpool, hunassigned]
        decide
      rw [assignPort_pool, if_neg hne]
      refine iff_of_true ⟨fun q _ => ?_, fun m hm hext => ?_⟩ fun _ hfull => ?_
      · rw [setPort_apply]
        split
        · exact iff_of_true rfl (.inr ‹_›)
        · exact (or_iff_left ‹_›).symm
      · exact absurd ⟨m, hm, congrArg Prod.snd hext⟩ hunused
      · exact absurd hunassigned (hfull _ hpool)

theorem poolInvariant_inward (nat : NatTable) (hinv : PoolInvariant nat) (p : Packet) (now : Int) :
    PoolInvariant (doTranslation nat p .inward now).1 ↔ KeepsPool nat (.inward p now) := by
  cases hfind : (inwardBucket nat p).find? (NatMapping.hasExternal (ntohl p.daddr) (ntohs p.dport)) with
  | some m =>
    have hsome : (inwardBucket nat p).find?
        (NatMapping.hasExternal (ntohl p.daddr) (ntohs p.dport)) ≠ none := by simp [hfind]
    refine iff_of_true (hinv.same (maps_upsert_found (ends_noteInward p now) rfl hsome) rfl) ?_
    intro hmissing
    have := hmissing m (List.mem_of_find?_eq_some hfind)
    rw [List.find?_some hfind] at this
    cases this
  | none =>
    have hmissing : ∀ m ∈ inwardBucket nat p,
        m.hasExternal (ntohl p.daddr) (ntohs p.dport) = false := by
      intro m hm
      simpa using List.find?_eq_none.mp hfind m hm
    have hports : (doTranslation nat p .inward now).1.assignedPorts = nat.assignedPorts := rfl
    rw [hinv.add_iff (maps_upsert_missing (ends_noteInward p now) rfl hfind), hports, forall_maps_iff,
      external_inwardFresh]
    constructor
    · intro h _
      exact ⟨fun hq => (hinv.assigned _ hq).mp (((h.1 _ hq).mpr (.inr rfl))), h.2⟩
    · intro h
      obtain ⟨hport, hother⟩ := h hmissing
      refine ⟨fun q hq => (or_iff_left_of_imp ?_).symm, hother⟩
      intro heq
      subst heq
      exact (hinv.assigned _ hq).mpr (hport hq)

theorem live_timeout (nat : NatTable) (now : Int) (m : NatMapping) :
    (natTimeout nat now).Live m ↔ nat.Live m ∧ expired now m = false := by
  simp only [NatTable.Live, natTimeout, List.mem_filter, Bool.not_eq_true', exists_and_right]

/-- A port stays marked unless a mapping with it is reclaimed. -/
theorem assignedPorts_timeout (nat : NatTable) (now : Int) (q : U16) :
    (natTimeout nat now).assignedPorts q = 1 ↔
      (¬ ∃ m, nat.Live m ∧ expired now m = true ∧ m.externalPort = q) ∧ nat.assignedPorts q = 1 := by
  let reclaimed := (List.range 256).flatMap fun i =>
    (nat.mappings (BitVec.ofNat 8 i)).filter (expired now)
  have hreclaimed : (∃ m ∈ reclaimed, m.externalPort = q) ↔
      ∃ m, nat.Live m ∧ expired now m = true ∧ m.externalPort = q := by
    constructor
    · intro hyp
      obtain ⟨m, hm, hq⟩ := hyp
      obtain ⟨i, _, hi⟩ := List.mem_flatMap.mp hm
      obtain ⟨hlive, hexp⟩ := List.mem_filter.mp hi
      exact ⟨m, ⟨_, hlive⟩, hexp, hq⟩
    · intro hyp
      obtain ⟨m, ⟨h, hlive⟩, hexp, hq⟩ := hyp
      refine ⟨m, List.mem_flatMap.mpr ⟨h.toNat, List.mem_range.mpr h.isLt, ?_⟩, hq⟩
      rw [BitVec.ofNat_toNat, BitVec.setWidth_eq]
      exact List.mem_filter.mpr ⟨hlive, hexp⟩
  show reclaimed.foldl _ nat.assignedPorts q = 1 ↔ _
  rw [foldl_setPort, ← hreclaimed]
  split
  · rename_i hyes
    exact iff_of_false (by decide) fun hyp => hyp.1 hyes
  · rename_i hno
    exact (and_iff_right hno).symm

theorem poolInvariant_timeout (nat : NatTable) (hinv : PoolInvariant nat) (now : Int) :
    PoolInvariant (natTimeout nat now) ↔ KeepsPool nat (.timeout now) := by
  constructor
  · intro hinv' m m' hm hm' hexp hkept hpool hsame
    have hmarked := (hinv'.assigned _ hpool).mpr ⟨m', (live_timeout nat now m').mpr ⟨hm', hkept⟩, rfl⟩
    exact ((assignedPorts_timeout nat now _).mp hmarked).1 ⟨m, hm, hexp, hsame⟩
  · intro hkeeps
    refine ⟨fun q hq => ?_, fun m m' hm hm' => ?_⟩
    · rw [assignedPorts_timeout]
      constructor
      · intro hmarked
        obtain ⟨hnone, hmarked⟩ := hmarked
        obtain ⟨m, hm, hport⟩ := (hinv.assigned q hq).mp hmarked
        refine ⟨m, (live_timeout nat now m).mpr ⟨hm, ?_⟩, hport⟩
        rw [← Bool.not_eq_true]
        exact fun hexp => hnone ⟨m, hm, hexp, hport⟩
      · intro hyp
        obtain ⟨m', hm', hport⟩ := hyp
        obtain ⟨hlive, hkept⟩ := (live_timeout nat now m').mp hm'
        refine ⟨?_, (hinv.assigned q hq).mpr ⟨m', hlive, hport⟩⟩
        intro hyp
        obtain ⟨m, hm, hexp, hport'⟩ := hyp
        exact hkeeps m m' hm hlive hexp hkept (hport ▸ hq) (hport'.trans hport.symm)
    · exact hinv.unshared m m' ((live_timeout nat now m).mp hm).1 ((live_timeout nat now m').mp hm').1

/-! ### Whole runs -/

theorem poolInvariant_natInit (ip : U32) (rules : List DnatRule) : PoolInvariant (natInit ip rules) where
  assigned q _ := by
    have hfree : ¬ (0 : U8) = 1 := by decide
    apply iff_of_false hfree
    intro hyp
    obtain ⟨_, ⟨_, hmem⟩, _⟩ := hyp
    cases hmem
  unshared _ _ hm := by
    obtain ⟨_, hmem⟩ := hm
    cases hmem

/-- Whether a step keeps the invariant is decided by the state it is taken in. -/
theorem poolInvariant_step (nat : NatTable) (e : Event) (hinv : PoolInvariant nat) :
    (∀ nat', Step nat e nat' → PoolInvariant nat') ↔ KeepsPool nat e := by
  have hstep : (∀ nat', Step nat e nat' → PoolInvariant nat') ↔ PoolInvariant (step nat e) := by
    constructor
    · exact fun h => h _ rfl
    · intro h nat' heq
      obtain rfl : step nat e = nat' := heq
      exact h
  rw [hstep]
  cases e with
  | outward p now => exact poolInvariant_outward nat hinv p now
  | inward p now => exact poolInvariant_inward nat hinv p now
  | timeout now => exact poolInvariant_timeout nat hinv now

/-- **The pool and the mappings agree.** Throughout a run from a fresh table, with any
rules, any traffic and any timeouts, a port of the pool is marked exactly while a
mapping has it and no external endpoint stands for two internal ones, exactly when
every step of the run meets the condition. -/
theorem pool_agrees (ip : U32) (rules : List DnatRule) (events : List Event) :
    Throughout Step PoolInvariant (natInit ip rules) events ↔
      Along Step KeepsPool (natInit ip rules) events :=
  throughout_iff poolInvariant_step (poolInvariant_natInit ip rules) events

/-- An unsolicited packet to the first port of the pool leaves a mapping on it, and the
pool goes on calling it free. -/
theorem pool_disagrees :
    ¬ Throughout Step PoolInvariant (natInit 0x9FE2272B#32 [])
      [.inward ⟨htonl 0x9FE2277B#32, htonl 0x9FE2272B#32, htons 8000#16, htons 12345#16, 0, 0, 0⟩ 0] := by
  intro h
  have hinv := h.2 _ rfl
  have hmarked := (hinv.assigned 12345#16 (by decide)).mpr
    ⟨_, ⟨bucketOf 0x9FE2277B#32 8000#16, List.mem_cons_self⟩, by decide⟩
  exact absurd hmarked (by decide)

end NetStack.Translation
