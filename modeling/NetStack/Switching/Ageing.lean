import NetStack.Switching.Learning
import NetStack.Lib.Ageing

/-! The table as a map that forgets.

What the table is for: an address is known while it was heard of, as a source, and since
then named, as a source or a destination, within the timeout before every sweep
(`Remembered`). An entry's time stamp is the time of the last frame that names its
address, so a sweep can tell; it tells by a difference converted to `int`, and a stamp
some 68 years old looks like one from the future. -/
namespace NetStack.Switching

/-- A frame from the address. -/
def Event.From (m : Mac) : Event → Prop
  | .frame _ packet _ => packet.etherShost = m
  | .sweep _ => False

/-- A frame from the address or to it. -/
def Event.Names (m : Mac) : Event → Prop
  | .frame _ packet _ => packet.etherShost = m ∨ packet.etherDhost = m
  | .sweep _ => False

def Event.IsSweep : Event → Prop
  | .frame _ _ _ => False
  | .sweep _ => True

/-- What events are to the entry of an address. -/
def role (m : Mac) : Ageing.Role Event where
  time := Event.time
  starts := Event.From m
  uses := Event.Names m
  sweeps := Event.IsSweep
  uses_of_starts e h := by
    cases e with
    | frame => exact Or.inl h
    | sweep => exact h.elim
  not_sweeps_of_uses e h := by
    cases e with
    | frame => exact not_false
    | sweep => exact h.elim

/-- There was a frame from the address such that every sweep since was preceded, at that
frame or after it, by a frame naming the address at most the timeout before the sweep. -/
def Remembered (m : Mac) (past : List Event) : Prop := Ageing.Kept (role m) macPortTimeout past

/-- The switch, and what has happened to it. -/
structure Watched where
  switch : Switch
  past : List Event

namespace Watched

def next (w : Watched) (e : Event) : Watched := ⟨Switching.next w.switch e, w.past ++ [e]⟩

def Step (w : Watched) (e : Event) (w' : Watched) : Prop := w' = w.next e

def start (ifaceList : List IfaceInfo) : Watched := ⟨Switching.start ifaceList, []⟩

end Watched

/-- The table is the map of the addresses remembered. -/
structure Refines (w : Watched) : Prop where
  once : (w.switch.map.entries.map (·.mac)).Nodup
  own : ∀ i, ∀ entry ∈ w.switch.map.hashTable i, hash8 entry.mac = i
  exists_iff : ∀ m, (∃ entry ∈ w.switch.map.entries, entry.mac = m) ↔ Remembered m w.past
  lookup : ∀ m now iface, (lookupPort w.switch.map m now).1 = some iface ↔
    ∃ entry ∈ w.switch.map.entries, entry.mac = m ∧ entry.iface = iface

/-- A sweep takes no entry for younger than it is: the time since an entry's last visit, if
over the timeout, is still over it as an `int`. -/
def Timely (w : Watched) (e : Event) : Prop :=
  ∀ now, e = .sweep now → ∀ entry ∈ w.switch.map.entries,
    macPortTimeout < now - entry.visited → macPortTimeout < toCInt (now - entry.visited)

/-! ### Entries after an event -/

variable {map : MacPortMap} {s : Switch} {w : Watched} {m : Mac} {entry : MacPortEntry} {now : Int}
  {iface : IfaceInfo} {packet : EtherFrame}

theorem mem_lookupPort (h : Placed map) (mac : Mac) (now : Int) :
    entry ∈ (lookupPort map mac now).2.entries ↔
      ∃ old ∈ map.entries, entry = if old.mac = mac then { old with visited := now } else old := by
  have hbucket : ∀ i, (lookupPort map mac now).2.hashTable i =
      (map.hashTable i).map fun old => if old.mac = mac then { old with visited := now } else old := by
    intro i
    simp only [lookupPort, setBucket_hashTable]
    split
    · rename_i hi
      rw [visit_snd mac now _ (h.once _), hi]
    · rename_i hi
      -- no entry of another bucket has the address
      have hother : ∀ old ∈ map.hashTable i,
          (if old.mac = mac then { old with visited := now } else old) = id old :=
        fun old hold => if_neg fun hmac => hi (by rw [← h.own i old hold, hmac])
      rw [List.map_congr_left hother, List.map_id]
  rw [MacPortMap.mem_entries]
  constructor
  · intro hyp
    obtain ⟨i, hi⟩ := hyp
    rw [hbucket] at hi
    obtain ⟨old, hold, rfl⟩ := List.mem_map.mp hi
    exact ⟨old, MacPortMap.mem_entries.mpr ⟨i, hold⟩, rfl⟩
  · intro hyp
    obtain ⟨old, hold, rfl⟩ := hyp
    obtain ⟨i, hi⟩ := MacPortMap.mem_entries.mp hold
    exact ⟨i, hbucket i ▸ List.mem_map_of_mem hi⟩

theorem mem_insertMacPort (map : MacPortMap) (mac : Mac) (iface : IfaceInfo) (now : Int) :
    entry ∈ (insertMacPort map mac iface now).entries ↔
      entry ∈ map.entries ∨ entry = ⟨mac, iface, now⟩ := by
  simp only [MacPortMap.mem_entries, insertMacPort, setBucket_hashTable, macCpy_eq]
  constructor
  · intro h
    obtain ⟨i, hi⟩ := h
    split at hi
    · rcases List.mem_append.mp hi with hi | hi
      · exact Or.inl ⟨_, hi⟩
      · exact Or.inr (List.mem_singleton.mp hi)
    · exact Or.inl ⟨i, hi⟩
  · intro h
    rcases h with ⟨i, hi⟩ | rfl
    · refine ⟨i, ?_⟩
      split
      · rename_i heq
        exact List.mem_append_left _ (heq ▸ hi)
      · exact hi
    · exact ⟨hash8 mac, by rw [if_pos rfl]; simp⟩

theorem mem_sweep : entry ∈ (sweepAgedMacPortEntry map now).2.entries ↔
    entry ∈ map.entries ∧ entry.aged now = false := by
  simp only [MacPortMap.mem_entries, sweepAgedMacPortEntry, List.mem_filter, Bool.not_eq_true']
  exact exists_and_right

/-- A sweep counts what it removes. -/
theorem sweep_count (map : MacPortMap) (now : Int) :
    (sweepAgedMacPortEntry map now).1 + (sweepAgedMacPortEntry map now).2.entries.length =
      map.entries.length := by
  simp only [sweepAgedMacPortEntry, MacPortMap.entries, List.length_flatMap]
  generalize buckets = is
  induction is with
  | nil => rfl
  | cons i is ih =>
    have hi := List.length_eq_length_filter_add (l := map.hashTable i) (MacPortEntry.aged now)
    simp only [List.map_cons, List.sum_cons]
    omega

/-- A frame stamps the entries it names and adds one for its source if there is none. -/
theorem mem_handlePacket (h : Placed s.map) (iface : IfaceInfo) (packet : EtherFrame) (now : Int) :
    entry ∈ (handlePacket s iface packet now).2.map.entries ↔
      (∃ old ∈ s.map.entries, entry =
        if packet.etherShost = old.mac ∨ packet.etherDhost = old.mac then { old with visited := now }
        else old) ∨
      ((∀ old ∈ s.map.entries, old.mac ≠ packet.etherShost) ∧ entry = ⟨packet.etherShost, iface, now⟩) := by
  have hlooked : entry ∈
      (lookupPort (lookupPort s.map packet.etherDhost now).2 packet.etherShost now).2.entries ↔
      ∃ old ∈ s.map.entries, entry =
        if packet.etherShost = old.mac ∨ packet.etherDhost = old.mac then { old with visited := now }
        else old := by
    rw [mem_lookupPort (h.lookupPort packet.etherDhost now)]
    constructor
    · intro hyp
      obtain ⟨mid, hmid, rfl⟩ := hyp
      obtain ⟨old, hold, rfl⟩ := (mem_lookupPort h _ _).mp hmid
      refine ⟨old, hold, ?_⟩
      by_cases hd : old.mac = packet.etherDhost <;> by_cases hs : old.mac = packet.etherShost <;>
        simp_all [eq_comm]
    · intro hyp
      obtain ⟨old, hold, rfl⟩ := hyp
      refine ⟨_, (mem_lookupPort h _ _).mpr ⟨old, hold, rfl⟩, ?_⟩
      by_cases hd : old.mac = packet.etherDhost <;> by_cases hs : old.mac = packet.etherShost <;>
        simp_all [eq_comm]
  rw [handlePacket_map]
  dsimp only
  split
  · rename_i hnone
    rw [mem_insertMacPort, hlooked, and_iff_right (h.lookup_none.mp hnone)]
  · rename_i hknown
    rw [hlooked, or_iff_left]
    exact fun hnew => hknown (h.lookup_none.mpr hnew.1)

/-! ### The invariant -/

/-- The events so far, in order of time, account for every entry and its stamp. -/
structure Faithful (w : Watched) : Prop where
  placed : Placed w.switch.map
  order : Ageing.InOrder (role 0) w.past
  stamp : ∀ entry ∈ w.switch.map.entries, Ageing.LastUse (role entry.mac) w.past entry.visited
  exists_iff : ∀ m, (∃ entry ∈ w.switch.map.entries, entry.mac = m) ↔ Remembered m w.past

theorem Faithful.refines (h : Faithful w) : Refines w where
  once := h.placed.nodup
  own := h.placed.own
  exists_iff := h.exists_iff
  lookup _ _ _ := h.placed.lookup_iff

/-- The event is not before any so far. -/
def NotBefore (w : Watched) (e : Event) : Prop := ∀ p ∈ w.past, p.time ≤ e.time

theorem Faithful.order_next (h : Faithful w) {e : Event} (htime : NotBefore w e) :
    Ageing.InOrder (role 0) (w.next e).past := by
  refine List.pairwise_append.mpr ⟨h.order, List.pairwise_singleton _ _, ?_⟩
  intro p hp q hq
  rw [List.mem_singleton.mp hq]
  exact htime p hp

theorem Faithful.frame (h : Faithful w) (htime : NotBefore w (.frame iface packet now)) :
    Faithful (w.next (.frame iface packet now)) where
  placed := h.placed.handlePacket iface packet now
  order := h.order_next htime
  stamp := by
    intro entry hmem
    rcases (mem_handlePacket h.placed iface packet now).mp hmem with ⟨old, hold, rfl⟩ | ⟨-, rfl⟩
    · split
      · rename_i hnames
        exact Ageing.lastUse_snoc_of_uses (r := role old.mac) (e := .frame iface packet now) hnames
      · rename_i hnot
        exact (h.stamp old hold).snoc hnot
    · exact Ageing.lastUse_snoc_of_uses (r := role packet.etherShost) (e := .frame iface packet now)
        (Or.inl rfl)
  exists_iff := by
    intro m
    have hmem : ∀ {entry}, entry ∈ (w.next (.frame iface packet now)).switch.map.entries ↔ _ :=
      mem_handlePacket h.placed iface packet now
    by_cases hsrc : packet.etherShost = m
    · refine iff_of_true ?_ (Ageing.kept_snoc_of_starts (r := role m) hsrc)
      by_cases hknown : ∃ old ∈ w.switch.map.entries, old.mac = packet.etherShost
      · obtain ⟨old, hold, hmac⟩ := hknown
        refine ⟨_, hmem.mpr (Or.inl ⟨old, hold, rfl⟩), ?_⟩
        rw [if_pos (Or.inl hmac.symm)]
        exact hmac.trans hsrc
      · refine ⟨_, hmem.mpr (Or.inr ⟨fun old hold hmac => hknown ⟨old, hold, hmac⟩, rfl⟩), hsrc⟩
    · have hkept : Remembered m (w.past ++ [.frame iface packet now]) ↔ Remembered m w.past :=
        Ageing.kept_snoc_of_not (r := role m) (e := .frame iface packet now) hsrc not_false
      refine Iff.trans ?_ ((h.exists_iff m).trans hkept.symm)
      constructor
      · intro hyp
        obtain ⟨entry, hentry, hmac⟩ := hyp
        rcases hmem.mp hentry with ⟨old, hold, rfl⟩ | ⟨-, rfl⟩
        · refine ⟨old, hold, ?_⟩
          split at hmac <;> exact hmac
        · exact absurd hmac hsrc
      · intro hyp
        obtain ⟨old, hold, hmac⟩ := hyp
        refine ⟨_, hmem.mpr (Or.inl ⟨old, hold, rfl⟩), ?_⟩
        split <;> exact hmac

/-- A sweep that takes no entry for younger than it is removes those over the timeout. -/
theorem Faithful.aged_iff (h : Faithful w) (htime : NotBefore w (.sweep now))
    (htimely : Timely w (.sweep now)) (hmem : entry ∈ w.switch.map.entries) :
    entry.aged now = false ↔ now - entry.visited ≤ macPortTimeout := by
  rw [MacPortEntry.aged, decide_eq_false_iff_not]
  constructor
  · intro hkept
    by_contra hold
    exact hkept (htimely now rfl entry hmem (not_le.mp hold))
  · intro hle hold
    obtain ⟨p, hp, htp⟩ := (h.stamp entry hmem).exists_mem
    have hvisited : entry.visited ≤ now := htp ▸ htime p hp
    -- between 0 and the timeout the conversion changes nothing
    have hlimit : macPortTimeout = 30 := rfl
    have hsame : toCInt (now - entry.visited) = now - entry.visited := toCInt_eq (by omega) (by omega)
    omega

/-- An entry that a sweep leaves is remembered exactly when it is not over the timeout. -/
theorem Faithful.remembered_sweep (h : Faithful w) (hmem : entry ∈ w.switch.map.entries) :
    Remembered entry.mac (w.past ++ [.sweep now]) ↔ now - entry.visited ≤ macPortTimeout := by
  have hsweep : Remembered entry.mac (w.past ++ [.sweep now]) ↔
      Remembered entry.mac w.past ∧ now - entry.visited ≤ macPortTimeout :=
    Ageing.kept_snoc_of_sweeps (r := role entry.mac) (e := .sweep now) trivial h.order (h.stamp entry hmem)
  exact hsweep.trans (and_iff_right ((h.exists_iff entry.mac).mp ⟨entry, hmem, rfl⟩))

theorem Faithful.sweep (h : Faithful w) (htime : NotBefore w (.sweep now))
    (htimely : Timely w (.sweep now)) : Faithful (w.next (.sweep now)) where
  placed := h.placed.sweep now
  order := h.order_next htime
  stamp := fun entry hmem => (h.stamp entry (mem_sweep.mp hmem).1).snoc not_false
  exists_iff := by
    intro m
    constructor
    · intro hyp
      obtain ⟨entry, hmem, rfl⟩ := hyp
      obtain ⟨hold, hkept⟩ := mem_sweep.mp hmem
      exact (h.remembered_sweep hold).mpr ((h.aged_iff htime htimely hold).mp hkept)
    · intro hremembered
      have hbefore : Remembered m w.past := (Ageing.Kept.of_snoc (r := role m) hremembered not_false).1
      obtain ⟨entry, hold, rfl⟩ := (h.exists_iff m).mpr hbefore
      have hkept := (h.aged_iff htime htimely hold).mpr ((h.remembered_sweep hold).mp hremembered)
      exact ⟨entry, mem_sweep.mpr ⟨hold, hkept⟩, rfl⟩

/-- A sweep that takes an entry for younger than it is leaves one that is forgotten. -/
theorem Faithful.not_refines (h : Faithful w) {e : Event} (hnot : ¬ Timely w e) :
    ¬ Refines (w.next e) := by
  intro hrefines
  refine hnot ?_
  intro now heq entry hmem hold
  obtain rfl := heq
  by_contra hyoung
  have hkept : entry ∈ (w.next (.sweep now)).switch.map.entries :=
    mem_sweep.mpr ⟨hmem, by rw [MacPortEntry.aged, decide_eq_false hyoung]⟩
  have hremembered := (hrefines.exists_iff entry.mac).mp ⟨entry, hkept, rfl⟩
  have hle := (h.remembered_sweep hmem).mp hremembered
  omega

/-! ### Runs -/

theorem faithful_start (ifaceList : List IfaceInfo) : Faithful (.start ifaceList) where
  placed := placed_init
  order := List.Pairwise.nil
  stamp _ hmem := by
    obtain ⟨i, hi⟩ := MacPortMap.mem_entries.mp hmem
    exact absurd hi List.not_mem_nil
  exists_iff m := by
    refine iff_of_false ?_ Ageing.not_kept_nil
    intro h
    obtain ⟨entry, hmem, -⟩ := h
    obtain ⟨i, hi⟩ := MacPortMap.mem_entries.mp hmem
    exact absurd hi List.not_mem_nil

theorem faithful_step (w : Watched) (e : Event) (w' : Watched) (h : Faithful w) (htime : NotBefore w e)
    (htimely : Timely w e) (hstep : Watched.Step w e w') : Faithful w' := by
  subst hstep
  cases e with
  | frame iface packet now => exact h.frame htime
  | sweep now => exact h.sweep htime htimely

/-- Events at nondecreasing times come one not before another. -/
theorem along_notBefore (w : Watched) (es : List Event)
    (h : (w.past ++ es).Pairwise fun e f => e.time ≤ f.time) : Along Watched.Step NotBefore w es := by
  induction es generalizing w with
  | nil => trivial
  | cons e es ih =>
    refine ⟨fun p hp => (List.pairwise_append.mp h).2.2 p hp e List.mem_cons_self, ?_⟩
    intro w' heq
    obtain rfl := heq
    apply ih
    simpa [Watched.next] using h

/-- **The table refines the map of the addresses remembered**, over any frames and sweeps at
nondecreasing times, exactly where no sweep takes an entry for younger than it is. -/
theorem table_refines_iff (ifaceList : List IfaceInfo) {es : List Event}
    (horder : es.Pairwise fun e f => e.time ≤ f.time) :
    Throughout Watched.Step Refines (.start ifaceList) es ↔
      Along Watched.Step Timely (.start ifaceList) es :=
  throughout_iff_along_of (fun _ h => h.refines) faithful_step
    (fun w e h _ hnot => ⟨w.next e, rfl, h.not_refines hnot⟩) (faithful_start ifaceList)
    (along_notBefore _ _ horder)

/-- A frame between two hosts. -/
def greeting : EtherFrame := ⟨#v[2, 0, 0, 0, 0, 9], #v[2, 0, 0, 0, 0, 1], 0x0800, []⟩

/-- A frame, and sweeps before and after its source is over the timeout. -/
theorem table_refines_swept :
    Throughout Watched.Step Refines (.start [⟨3, 1⟩, ⟨4, 2⟩])
      [.frame ⟨3, 1⟩ greeting 0, .sweep 30, .sweep 31] ↔
    Along Watched.Step Timely (.start [⟨3, 1⟩, ⟨4, 2⟩])
      [.frame ⟨3, 1⟩ greeting 0, .sweep 30, .sweep 31] :=
  table_refines_iff _ (by simp [Event.time])

/-- A frame, and a sweep 2^31 seconds later. -/
theorem table_keeps_aged : ¬ Throughout Watched.Step Refines (.start [⟨3, 1⟩, ⟨4, 2⟩])
    [.frame ⟨3, 1⟩ greeting 0, .sweep 2147483648] := by
  intro h
  have hstart := faithful_start [⟨3, 1⟩, ⟨4, 2⟩]
  have hempty : ∀ entry, entry ∉ (Watched.start [⟨3, 1⟩, ⟨4, 2⟩]).switch.map.entries := by
    intro entry hmem
    obtain ⟨i, hi⟩ := MacPortMap.mem_entries.mp hmem
    exact absurd hi List.not_mem_nil
  have hlearnt := (mem_handlePacket hstart.placed ⟨3, 1⟩ greeting 0).mpr
    (Or.inr ⟨fun old hold => absurd hold (hempty old), rfl⟩)
  have hfaithful := faithful_step _ (.frame ⟨3, 1⟩ greeting 0) _ hstart
    (fun p hp => absurd hp List.not_mem_nil) (fun now heq => by cases heq) rfl
  refine hfaithful.not_refines (e := .sweep 2147483648) ?_ ((h.2 _ rfl).2 _ rfl)
  intro htimely
  have hyoung := htimely 2147483648 rfl _ hlearnt (by decide)
  revert hyoung
  decide

end NetStack.Switching
