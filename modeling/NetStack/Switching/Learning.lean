import NetStack.Switching.Table
import NetStack.Lib.Run

/-! What the switch learns, over any frames and sweeps.

Two facts hold of every table: an entry stands in the bucket of its address, and a bucket
has an address once. With them a lookup is a question about entries (`Placed.lookup_iff`).
A frame adds an entry for its source only where a lookup finds none, and no frame changes
the interface of an entry: the table is right about a source after its frame exactly when
it held nothing else about it before. -/
namespace NetStack.Switching

/-- What happens to the switch. -/
inductive Event where
  | frame (iface : IfaceInfo) (packet : EtherFrame) (now : Int)
  | sweep (now : Int)
deriving DecidableEq, Repr

/-- The time it happens at. -/
def Event.time : Event → Int
  | .frame _ _ now => now
  | .sweep now => now

def next (s : Switch) : Event → Switch
  | .frame iface packet now => (handlePacket s iface packet now).2
  | .sweep now => { s with map := (sweepAgedMacPortEntry s.map now).2 }

def Step (s : Switch) (e : Event) (t : Switch) : Prop := t = next s e

/-- The switch `init_ustack` leaves. -/
def start (ifaceList : List IfaceInfo) : Switch := ⟨ifaceList, initMacPortTable⟩

/-! ### Every table -/

/-- Every entry in the bucket of its address, and no address twice. -/
structure Placed (map : MacPortMap) : Prop where
  own : ∀ i, ∀ entry ∈ map.hashTable i, hash8 entry.mac = i
  once : ∀ i, ((map.hashTable i).map (·.mac)).Nodup

variable {map : MacPortMap} {mac m : Mac} {iface : IfaceInfo} {now : Int} {entry : MacPortEntry}

theorem placed_init : Placed initMacPortTable where
  own _ _ h := absurd h List.not_mem_nil
  once _ := List.nodup_nil

theorem Placed.mem_bucket (h : Placed map) (hmem : entry ∈ map.entries) :
    entry ∈ map.hashTable (hash8 entry.mac) := by
  obtain ⟨i, hi⟩ := MacPortMap.mem_entries.mp hmem
  rw [h.own i entry hi]
  exact hi

/-- Over the whole table an address occurs once. -/
theorem Placed.nodup (h : Placed map) : (map.entries.map (·.mac)).Nodup := by
  rw [MacPortMap.entries, List.map_flatMap, List.nodup_flatMap]
  refine ⟨fun i _ => h.once i, buckets_nodup.imp ?_⟩
  intro i j hne m hi hj
  obtain ⟨a, ha, rfl⟩ := List.mem_map.mp hi
  obtain ⟨b, hb, hab⟩ := List.mem_map.mp hj
  exact hne (by rw [← h.own i a ha, ← h.own j b hb, hab])

/-- A lookup returns the interface of the entry with the address. -/
theorem Placed.lookup_iff (h : Placed map) :
    (lookupPort map m now).1 = some iface ↔ ∃ entry ∈ map.entries, entry.mac = m ∧ entry.iface = iface := by
  rw [lookupPort_fst]
  constructor
  · intro hfound
    obtain ⟨entry, hfind, rfl⟩ := Option.map_eq_some_iff.mp hfound
    exact ⟨entry, MacPortMap.mem_entries.mpr ⟨_, List.mem_of_find?_eq_some hfind⟩,
      by simpa using List.find?_some hfind, rfl⟩
  · intro hyp
    obtain ⟨entry, hmem, rfl, rfl⟩ := hyp
    have hbucket := h.mem_bucket hmem
    cases hfind : (map.hashTable (hash8 entry.mac)).find? fun other => other.mac = entry.mac with
    | none =>
      have := List.find?_eq_none.mp hfind entry hbucket
      simp at this
    | some other =>
      have hmac : other.mac = entry.mac := by simpa using List.find?_some hfind
      rw [List.inj_on_of_nodup_map (h.once _) (List.mem_of_find?_eq_some hfind) hbucket hmac]
      rfl

theorem Placed.lookup_none (h : Placed map) :
    (lookupPort map m now).1 = none ↔ ∀ entry ∈ map.entries, entry.mac ≠ m := by
  rw [Option.eq_none_iff_forall_ne_some]
  constructor
  · intro hnone entry hmem hmac
    exact hnone entry.iface (h.lookup_iff.mpr ⟨entry, hmem, hmac, rfl⟩)
  · intro hall iface hfound
    obtain ⟨entry, hmem, hmac, -⟩ := h.lookup_iff.mp hfound
    exact hall entry hmem hmac

theorem Placed.lookupPort (h : Placed map) (mac : Mac) (now : Int) : Placed (lookupPort map mac now).2 := by
  have hmacs : ∀ i, ((Switching.lookupPort map mac now).2.hashTable i).map (·.mac) =
      (map.hashTable i).map (·.mac) := by
    intro i
    simp only [Switching.lookupPort, setBucket_hashTable]
    split
    · rename_i hi
      rw [visit_map (·.mac) (fun _ => rfl), hi]
    · rfl
  refine ⟨fun i entry hmem => ?_, fun i => hmacs i ▸ h.once i⟩
  obtain ⟨old, hold, hmac⟩ := List.mem_map.mp (hmacs i ▸ List.mem_map_of_mem hmem)
  rw [← hmac]
  exact h.own i old hold

theorem Placed.insertMacPort (h : Placed map) (hnone : (Switching.lookupPort map mac now).1 = none) :
    Placed (insertMacPort map mac iface now) := by
  have hnew := h.lookup_none.mp hnone
  refine ⟨fun i entry hmem => ?_, fun i => ?_⟩
  · simp only [Switching.insertMacPort, setBucket_hashTable, macCpy_eq] at hmem
    split at hmem
    · rename_i hi
      rcases List.mem_append.mp hmem with hmem | hmem
      · rw [hi]
        exact h.own _ entry hmem
      · rw [List.mem_singleton.mp hmem, hi]
    · exact h.own i entry hmem
  · simp only [Switching.insertMacPort, setBucket_hashTable, macCpy_eq]
    split
    · rw [List.map_append, List.nodup_append]
      refine ⟨h.once _, List.nodup_singleton _, ?_⟩
      intro a ha b hb
      obtain ⟨old, hold, rfl⟩ := List.mem_map.mp ha
      rw [List.map_singleton, List.mem_singleton] at hb
      rw [hb]
      exact hnew old (MacPortMap.mem_entries.mpr ⟨_, hold⟩)
    · exact h.once i

theorem Placed.sweep (h : Placed map) (now : Int) : Placed (sweepAgedMacPortEntry map now).2 where
  own i entry hmem := h.own i entry (List.mem_of_mem_filter hmem)
  once i := (h.once i).sublist (List.filter_sublist.map _)

/-! ### One frame -/

variable {s : Switch} {packet : EtherFrame}

/-- What a frame leaves in the table. -/
theorem handlePacket_map (s : Switch) (iface : IfaceInfo) (packet : EtherFrame) (now : Int) :
    (handlePacket s iface packet now).2.map =
      let map := (lookupPort (lookupPort s.map packet.etherDhost now).2 packet.etherShost now).2
      if (lookupPort s.map packet.etherShost now).1 = none then
        insertMacPort map packet.etherShost iface now
      else map := by
  simp only [handlePacket, lookupPort_lookupPort, Option.isNone_iff_eq_none]

theorem Placed.handlePacket (h : Placed s.map) (iface : IfaceInfo) (packet : EtherFrame) (now : Int) :
    Placed (handlePacket s iface packet now).2.map := by
  have hlooked := (h.lookupPort packet.etherDhost now).lookupPort packet.etherShost now
  rw [handlePacket_map]
  dsimp only
  split
  · rename_i hnone
    apply hlooked.insertMacPort
    rw [lookupPort_lookupPort, lookupPort_lookupPort]
    exact hnone
  · exact hlooked

/-- A frame teaches its source to a switch that does not know it, and nothing else. -/
theorem lookup_handlePacket (s : Switch) (iface : IfaceInfo) (packet : EtherFrame) (now : Int) (m : Mac)
    (now' : Int) :
    (lookupPort (handlePacket s iface packet now).2.map m now').1 =
      (lookupPort s.map m now').1.or (if m = packet.etherShost then some iface else none) := by
  rw [handlePacket_map]
  dsimp only
  split
  · rw [lookupPort_insertMacPort, lookupPort_lookupPort, lookupPort_lookupPort]
  · rename_i hknown
    rw [lookupPort_lookupPort, lookupPort_lookupPort]
    split
    · rename_i hm
      rw [lookupPort_fst_time _ _ _ now', ← hm] at hknown
      obtain ⟨known, hfound⟩ := Option.ne_none_iff_exists'.mp hknown
      rw [hfound, Option.some_or]
    · rw [Option.or_none]

/-! ### Runs -/

theorem placed_next (h : Placed s.map) (e : Event) : Placed (next s e).map := by
  cases e with
  | frame iface packet now => exact h.handlePacket iface packet now
  | sweep now => exact h.sweep now

/-- Right after a frame the table has its source at the interface it came in on. -/
def Current (s : Switch) (e : Event) : Prop :=
  ∀ iface packet now, e = .frame iface packet now →
    ∀ now', (lookupPort (next s e).map packet.etherShost now').1 = some iface

/-- The table has no entry for the source of the frame that is at another interface. -/
def Settled (s : Switch) (e : Event) : Prop :=
  ∀ iface packet now, e = .frame iface packet now →
    ∀ entry ∈ s.map.entries, entry.mac = packet.etherShost → entry.iface = iface

theorem current_iff_settled (h : Placed s.map) (e : Event) : Current s e ↔ Settled s e := by
  constructor
  · intro hcurrent iface packet now heq entry hmem hmac
    obtain rfl := heq
    have hfound : (lookupPort s.map packet.etherShost now).1 = some entry.iface :=
      h.lookup_iff.mpr ⟨entry, hmem, hmac, rfl⟩
    have hafter := hcurrent iface packet now rfl now
    rw [next, lookup_handlePacket, hfound, Option.some_or] at hafter
    exact Option.some.inj hafter
  · intro hsettled iface packet now heq now'
    obtain rfl := heq
    rw [next, lookup_handlePacket]
    cases hfound : (lookupPort s.map packet.etherShost now').1 with
    | none => simp
    | some known =>
      obtain ⟨entry, hmem, hmac, rfl⟩ := h.lookup_iff.mp hfound
      rw [hsettled iface packet now rfl entry hmem hmac, Option.some_or]

/-- **What is learnt is current** after every frame exactly where no frame comes from an
address that an entry, not yet swept, has at another interface. Then the entry stays, and
is stamped: the table never learns of the move while the host is heard of. -/
theorem learning_current_iff (ifaceList : List IfaceInfo) (es : List Event) :
    Along Step Current (start ifaceList) es ↔ Along Step Settled (start ifaceList) es := by
  have hkeep : ∀ s e t, Placed s.map → Settled s e → Step s e t → Placed t.map := by
    intro s e t h _ heq
    obtain rfl := heq
    exact placed_next h e
  have hiff : ∀ s e, Placed s.map → (Current s e ↔ Settled s e) :=
    fun s e h => current_iff_settled h e
  exact along_iff hkeep hiff placed_init es

/-- A frame from one address, on one interface and then on another. -/
theorem learning_stale : ¬ Along Step Current (start [⟨3, 1⟩, ⟨4, 2⟩])
    [.frame ⟨3, 1⟩ ⟨#v[2, 0, 0, 0, 0, 9], #v[2, 0, 0, 0, 0, 1], 0x0800, []⟩ 0,
      .frame ⟨4, 2⟩ ⟨#v[2, 0, 0, 0, 0, 9], #v[2, 0, 0, 0, 0, 1], 0x0800, []⟩ 1] := by
  intro h
  have hafter := (h.2 _ rfl).1 _ _ _ rfl 1
  simp only [next, lookup_handlePacket] at hafter
  revert hafter
  decide

end NetStack.Switching
