import NetStack.Ethernet
import Mathlib.Data.Fin.VecNotation
import Mathlib.Data.List.FinRange
import Mathlib.Logic.Function.Basic

/-! The entries of the ARP cache (`arpcache.c`, `include/arpcache.h` of
`EXP18-TCP_Stack_4/code/18-tcp_stack`).

`arpcache_insert` looks for the address and for a free slot in one scan. If the address is
not there it takes a slot at random where the scan found a free one, and otherwise the one
the scan found, which then is none: the index is −1. So it keeps what it need not evict
exactly if it finds the address, or the random slot happens to be free (`insert_keeps_iff`). -/
namespace NetStack.Arp

/-- `MAX_ARP_SIZE`. -/
def maxArpSize : Nat := 32

/-- `struct arp_cache_entry`. -/
structure ArpCacheEntry where
  ip4 : U32
  mac : Mac
  added : Int
  valid : Bool
deriving DecidableEq, Repr

/-- `arpcache.entries`. -/
abbrev Entries := Fin maxArpSize → ArpCacheEntry

/-- The entry is valid and for this address. -/
def ArpCacheEntry.isFor (ip4 : U32) (entry : ArpCacheEntry) : Bool := entry.valid && entry.ip4 == ip4

/-- `arpcache_lookup`. -/
def arpcacheLookup (entries : Entries) (ip4 : U32) : Option Mac :=
  ((List.finRange maxArpSize).find? fun i => (entries i).isFor ip4).map fun i => (entries i).mac

/-- No address has two valid entries. -/
def Unique (entries : Entries) : Prop :=
  ∀ i j, (entries i).valid = true → (entries j).valid = true → (entries i).ip4 = (entries j).ip4 → i = j

instance (entries : Entries) : Decidable (Unique entries) := inferInstanceAs (Decidable (∀ _ _, _ → _ → _ → _))

variable {entries : Entries} {ip4 : U32} {mac : Mac} {i : Fin maxArpSize} {entry : ArpCacheEntry}

theorem ArpCacheEntry.isFor_iff : entry.isFor ip4 = true ↔ entry.valid = true ∧ entry.ip4 = ip4 := by
  simp [isFor]

/-! ### Lookups -/

theorem arpcacheLookup_eq_none :
    arpcacheLookup entries ip4 = none ↔ ∀ i, (entries i).valid = true → (entries i).ip4 ≠ ip4 := by
  simp [arpcacheLookup, ArpCacheEntry.isFor_iff]

/-- What is found is in an entry, -/
theorem exists_of_arpcacheLookup (h : arpcacheLookup entries ip4 = some mac) :
    ∃ i, (entries i).valid = true ∧ (entries i).ip4 = ip4 ∧ (entries i).mac = mac := by
  obtain ⟨i, hi, hmac⟩ := Option.map_eq_some_iff.mp h
  have hfor := List.find?_some hi
  obtain ⟨hvalid, hip⟩ := ArpCacheEntry.isFor_iff.mp hfor
  exact ⟨i, hvalid, hip, hmac⟩

/-- and if that is the only one for the address, it is found. -/
theorem arpcacheLookup_eq_some (hvalid : (entries i).valid = true) (hip : (entries i).ip4 = ip4)
    (honly : ∀ j, (entries j).valid = true → (entries j).ip4 = ip4 → j = i) :
    arpcacheLookup entries ip4 = some (entries i).mac := by
  cases hfind : arpcacheLookup entries ip4 with
  | none => exact absurd hip (arpcacheLookup_eq_none.mp hfind i hvalid)
  | some mac =>
    obtain ⟨j, hj, hjip, rfl⟩ := exists_of_arpcacheLookup hfind
    rw [honly j hj hjip]

theorem Unique.arpcacheLookup (h : Unique entries) (hvalid : (entries i).valid = true) :
    arpcacheLookup entries (entries i).ip4 = some (entries i).mac :=
  arpcacheLookup_eq_some hvalid rfl fun j hj hip => h j i hj hvalid hip

/-! ### `arpcache_insert` -/

/-- The scan: the entries, `pos`, `found`, and the indices written to. -/
structure Scan where
  entries : Entries
  pos : Int
  found : Bool
  written : List Int

/-- One step of it, at time `now`. -/
def Scan.step (ip4 : U32) (mac : Mac) (now : Int) (s : Scan) (i : Fin maxArpSize) : Scan :=
  let s :=
    if (s.entries i).isFor ip4 then
      { s with
        entries := Function.update s.entries i { s.entries i with mac, added := now }
        found := true
        written := s.written ++ [(i : Int)] }
    else s
  if (s.entries i).valid then s else { s with pos := (i : Int) }

/-- `entries[pos]` set; at an index outside the array it is other memory that is written. -/
def setEntry (entries : Entries) (pos : Int) (entry : ArpCacheEntry) : Entries :=
  fun i => if (i : Int) = pos then entry else entries i

/-- `arpcache_insert`, the part about the entries, where `rand()` gives `rand`: the entries
after it, and the indices written to. -/
def arpcacheInsert (rand : Nat) (now : Int) (entries : Entries) (ip4 : U32) (mac : Mac) : Entries × List Int :=
  let s := (List.finRange maxArpSize).foldl (Scan.step ip4 mac now) ⟨entries, -1, false, []⟩
  if s.found then (s.entries, s.written)
  else
    let pos := if s.pos ≠ -1 then ((rand % maxArpSize : Nat) : Int) else s.pos
    (setEntry s.entries pos ⟨ip4, mac, now, true⟩, s.written ++ [pos])

/-! ### The scan -/

/-- An entry, as a found one is written. -/
def ArpCacheEntry.renewed (ip4 : U32) (mac : Mac) (now : Int) (entry : ArpCacheEntry) : ArpCacheEntry :=
  if entry.isFor ip4 then { entry with mac, added := now } else entry

@[simp] theorem ArpCacheEntry.renewed_ip4 (ip : U32) (mac : Mac) (now : Int) (entry : ArpCacheEntry) :
    (entry.renewed ip mac now).ip4 = entry.ip4 := by
  unfold renewed
  split <;> rfl

@[simp] theorem ArpCacheEntry.renewed_valid (ip4 : U32) (mac : Mac) (now : Int) (entry : ArpCacheEntry) :
    (entry.renewed ip4 mac now).valid = entry.valid := by
  unfold renewed
  split <;> rfl

theorem ArpCacheEntry.renewed_other {now : Int} (h : entry.isFor ip4 = false) : entry.renewed ip4 mac now = entry := by
  rw [renewed, h, if_neg Bool.false_ne_true]

/-- What a scan over some entries leads to. -/
structure Scanned (ip4 : U32) (mac : Mac) (now : Int) (l : List (Fin maxArpSize)) (s t : Scan) : Prop where
  entries : ∀ i, t.entries i = if i ∈ l then (s.entries i).renewed ip4 mac now else s.entries i
  found : t.found = true ↔ s.found = true ∨ ∃ i ∈ l, (s.entries i).isFor ip4 = true
  written : ∀ k ∈ t.written, k ∈ s.written ∨ ∃ i ∈ l, (s.entries i).isFor ip4 = true ∧ k = (i : Int)
  pos : t.pos = s.pos ∧ (∀ i ∈ l, (s.entries i).valid = true) ∨
    ∃ i ∈ l, (s.entries i).valid = false ∧ t.pos = (i : Int)

theorem Scan.step_eq (ip4 : U32) (mac : Mac) (now : Int) (s : Scan) (i : Fin maxArpSize) :
    s.step ip4 mac now i =
      { entries := Function.update s.entries i ((s.entries i).renewed ip4 mac now)
        pos := if (s.entries i).valid then s.pos else (i : Int)
        found := s.found || (s.entries i).isFor ip4
        written := s.written ++ if (s.entries i).isFor ip4 then [(i : Int)] else [] } := by
  unfold Scan.step ArpCacheEntry.renewed
  cases hfor : (s.entries i).isFor ip4 with
  | false =>
    simp only [Bool.false_eq_true, if_false, Function.update_eq_self, Bool.or_false, List.append_nil]
    split <;> rfl
  | true =>
    have hvalid := (ArpCacheEntry.isFor_iff.mp hfor).1
    simp only [if_true, Function.update_self, hvalid, Bool.or_true]

theorem scanned (ip4 : U32) (mac : Mac) (now : Int) {l : List (Fin maxArpSize)} (hl : l.Nodup) (s : Scan) :
    Scanned ip4 mac now l s (l.foldl (Scan.step ip4 mac now) s) := by
  induction l generalizing s with
  | nil =>
    refine ⟨fun i => (if_neg List.not_mem_nil).symm, ?_, fun k hk => .inl hk, .inl ⟨rfl, nofun⟩⟩
    simp
  | cons i l ih =>
    obtain ⟨hnotin, hrest⟩ := List.nodup_cons.mp hl
    have h := ih hrest (s.step ip4 mac now i)
    rw [List.foldl_cons]
    generalize l.foldl (Scan.step ip4 mac now) (s.step ip4 mac now i) = t at h ⊢
    -- The entries still to come are as they were.
    have hlater : ∀ j ∈ l, (s.step ip4 mac now i).entries j = s.entries j := by
      intro j hj
      rw [Scan.step_eq]
      exact Function.update_of_ne (by rintro rfl; exact hnotin hj) _ _
    refine ⟨fun j => ?_, ?_, fun k hk => ?_, ?_⟩
    · rw [h.entries j]
      by_cases hj : j ∈ l
      · rw [if_pos hj, if_pos (List.mem_cons_of_mem i hj), hlater j hj]
      · rw [if_neg hj, Scan.step_eq]
        by_cases heq : j = i
        · subst heq
          rw [if_pos (List.mem_cons_self ..)]
          exact Function.update_self ..
        · rw [if_neg (fun h => (List.mem_cons.mp h).elim heq hj)]
          exact Function.update_of_ne heq _ _
    · have hrest : (∃ j ∈ l, ((s.step ip4 mac now i).entries j).isFor ip4 = true) ↔
          ∃ j ∈ l, (s.entries j).isFor ip4 = true :=
        exists_congr fun j => and_congr_right fun hj => by rw [hlater j hj]
      rw [h.found, hrest, Scan.step_eq]
      simp only [Bool.or_eq_true, or_assoc, List.mem_cons, exists_eq_or_imp]
    · rcases h.written k hk with hk | ⟨j, hj, hfor, rfl⟩
      · rw [Scan.step_eq] at hk
        rcases List.mem_append.mp hk with hk | hk
        · exact .inl hk
        · right
          split at hk
          · exact ⟨i, List.mem_cons_self .., ‹_›, List.mem_singleton.mp hk⟩
          · cases hk
      · exact .inr ⟨j, List.mem_cons_of_mem i hj, hlater j hj ▸ hfor, rfl⟩
    · rcases h.pos with ⟨hpos, hall⟩ | ⟨j, hj, hfree, hpos⟩
      · rw [Scan.step_eq] at hpos
        cases hvalid : (s.entries i).valid with
        | true =>
          left
          simp only [hvalid, if_true] at hpos
          refine ⟨hpos, fun j hj => ?_⟩
          rcases List.mem_cons.mp hj with rfl | hj
          · exact hvalid
          · exact hlater j hj ▸ hall j hj
        | false =>
          right
          simp only [hvalid, Bool.false_eq_true, if_false] at hpos
          exact ⟨i, List.mem_cons_self .., hvalid, hpos⟩
      · exact .inr ⟨j, List.mem_cons_of_mem i hj, hlater j hj ▸ hfree, hpos⟩

/-! ### What an insertion leads to -/

/-- Some entry is valid and for the address. -/
def Present (entries : Entries) (ip4 : U32) : Prop := ∃ i, (entries i).isFor ip4 = true

instance (entries : Entries) (ip4 : U32) : Decidable (Present entries ip4) := inferInstanceAs (Decidable (∃ _, _))

section Insert

variable (rand : Nat) (now : Int) (mac)

/-- An address that is there has its entry renewed. -/
theorem insert_present (h : Present entries ip4) :
    (∀ i, (arpcacheInsert rand now entries ip4 mac).1 i = (entries i).renewed ip4 mac now) ∧
      ∀ k ∈ (arpcacheInsert rand now entries ip4 mac).2, ∃ i : Fin maxArpSize, k = (i : Int) := by
  have hscan := scanned ip4 mac now (List.nodup_finRange maxArpSize) ⟨entries, -1, false, []⟩
  obtain ⟨i, hfor⟩ := h
  have hfound := hscan.found.mpr (.inr ⟨i, List.mem_finRange i, hfor⟩)
  rw [arpcacheInsert]
  simp only [hfound, if_true]
  constructor
  · intro j
    rw [hscan.entries j, if_pos (List.mem_finRange j)]
  · intro k hk
    rcases hscan.written k hk with hk | ⟨j, -, -, rfl⟩
    · cases hk
    · exact ⟨j, rfl⟩

/-- One that is not takes the slot drawn, if there is room, and is written before the first
entry if there is none. -/
theorem insert_absent (h : ¬Present entries ip4) :
    ∃ pos, arpcacheInsert rand now entries ip4 mac = (setEntry entries pos ⟨ip4, mac, now, true⟩, [pos]) ∧
      ((∃ i, (entries i).valid = false) → pos = ((rand % maxArpSize : Nat) : Int)) ∧
      ((∀ i, (entries i).valid = true) → pos = -1) := by
  have hscan := scanned ip4 mac now (List.nodup_finRange maxArpSize) ⟨entries, -1, false, []⟩
  rw [arpcacheInsert]
  generalize (List.finRange maxArpSize).foldl (Scan.step ip4 mac now) ⟨entries, -1, false, []⟩ = t at hscan ⊢
  have habsent : ∀ i, (entries i).isFor ip4 = false := fun i => Bool.eq_false_of_not_eq_true fun hfor => h ⟨i, hfor⟩
  have hfound : t.found = false := by
    refine Bool.eq_false_of_not_eq_true fun hfound => ?_
    rcases hscan.found.mp hfound with hfound | ⟨i, -, hfor⟩
    · cases hfound
    · exact h ⟨i, hfor⟩
  have hentries : t.entries = entries := by
    funext i
    rw [hscan.entries i, if_pos (List.mem_finRange i), ArpCacheEntry.renewed_other (habsent i)]
  have hwritten : t.written = [] := by
    refine List.eq_nil_iff_forall_not_mem.mpr fun k hk => ?_
    rcases hscan.written k hk with hk | ⟨i, -, hfor, -⟩
    · cases hk
    · exact h ⟨i, hfor⟩
  simp only [hfound, hentries, hwritten, Bool.false_eq_true, if_false, List.nil_append]
  refine ⟨_, rfl, fun ⟨i, hfree⟩ => ?_, fun hall => ?_⟩
  · rcases hscan.pos with ⟨-, hall⟩ | ⟨j, -, -, hpos⟩
    · exact nomatch hfree.symm.trans (hall i (List.mem_finRange i))
    · rw [if_pos (by rw [hpos]; omega)]
  · rcases hscan.pos with ⟨hpos, -⟩ | ⟨j, -, hfree, -⟩
    · rw [if_neg (not_not_intro hpos), hpos]
    · exact nomatch hfree.symm.trans (hall j)

end Insert

/-! ### One slot written -/

/-- The slot that `rand()` draws. -/
def drawn (rand : Nat) : Fin maxArpSize := ⟨rand % maxArpSize, Nat.mod_lt _ (by decide)⟩

theorem setEntry_slot (entries : Entries) (i : Fin maxArpSize) (entry : ArpCacheEntry) :
    setEntry entries (i : Int) entry = Function.update entries i entry := by
  funext j
  by_cases h : j = i
  · subst h
    rw [Function.update_self]
    exact if_pos rfl
  · rw [Function.update_of_ne h]
    exact if_neg fun heq => h (Fin.ext (by omega))

/-- No other entry is for the address that is written. -/
theorem Unique.update (h : Unique entries)
    (hother : ∀ j, j ≠ i → (entries j).valid = true → (entries j).ip4 ≠ entry.ip4) :
    Unique (Function.update entries i entry) := by
  intro j k hj hk hip
  by_cases hji : j = i
  · by_cases hki : k = i
    · rw [hji, hki]
    · subst hji
      rw [Function.update_of_ne hki] at hk hip
      rw [Function.update_self] at hip
      exact absurd hip.symm (hother k hki hk)
  · rw [Function.update_of_ne hji] at hj hip
    by_cases hki : k = i
    · subst hki
      rw [Function.update_self] at hip
      exact absurd hip (hother j hji hj)
    · rw [Function.update_of_ne hki] at hk hip
      exact h j k hj hk hip

/-- An address in another slot is found as before. -/
theorem lookup_update_of_ne (h : Unique (Function.update entries i entry)) {j : Fin maxArpSize} (hji : j ≠ i)
    (hj : (entries j).valid = true) :
    arpcacheLookup (Function.update entries i entry) (entries j).ip4 = some (entries j).mac := by
  have hfound := h.arpcacheLookup (by rwa [Function.update_of_ne hji] : (Function.update entries i entry j).valid = true)
  rwa [Function.update_of_ne hji] at hfound

/-- The address of a valid entry that is written over is lost. -/
theorem lookup_update_lost (h : Unique entries) (hi : (entries i).valid = true) (hne : entry.ip4 ≠ (entries i).ip4) :
    arpcacheLookup (Function.update entries i entry) (entries i).ip4 = none := by
  refine arpcacheLookup_eq_none.mpr fun j hj hip => ?_
  by_cases hji : j = i
  · subst hji
    rw [Function.update_self] at hip
    exact hne hip
  · rw [Function.update_of_ne hji] at hj hip
    exact hji (h j i hj hi hip)

/-! ### What is kept -/

/-- An address that resolved before does not resolve so any more. -/
def Lost (entries entries' : Entries) (ip4 : U32) : Prop :=
  ∃ mac, arpcacheLookup entries ip4 = some mac ∧ arpcacheLookup entries' ip4 ≠ some mac

/-- What is asked of an insertion: it stays in the array, the address resolves to its new
hardware address, no address has two entries, and no other address is lost if the address was
there or some entry was not valid, and at most one otherwise. -/
structure Keeps (rand : Nat) (now : Int) (entries : Entries) (ip4 : U32) (mac : Mac) : Prop where
  inside : ∀ k ∈ (arpcacheInsert rand now entries ip4 mac).2, 0 ≤ k ∧ k < maxArpSize
  found : arpcacheLookup (arpcacheInsert rand now entries ip4 mac).1 ip4 = some mac
  unique : Unique (arpcacheInsert rand now entries ip4 mac).1
  kept : (Present entries ip4 ∨ ∃ i, (entries i).valid = false) →
    ∀ other, other ≠ ip4 → ¬Lost entries (arpcacheInsert rand now entries ip4 mac).1 other
  lost : ∀ a b, a ≠ ip4 → b ≠ ip4 → Lost entries (arpcacheInsert rand now entries ip4 mac).1 a →
    Lost entries (arpcacheInsert rand now entries ip4 mac).1 b → a = b

variable {rand : Nat} {now : Int}

/-- Where no other address is lost, that is all there is to see. -/
theorem Keeps.of_none_lost (hinside : ∀ k ∈ (arpcacheInsert rand now entries ip4 mac).2, 0 ≤ k ∧ k < maxArpSize)
    (hfound : arpcacheLookup (arpcacheInsert rand now entries ip4 mac).1 ip4 = some mac)
    (hunique : Unique (arpcacheInsert rand now entries ip4 mac).1)
    (hkept : ∀ j, (entries j).valid = true → (entries j).ip4 ≠ ip4 →
      arpcacheLookup (arpcacheInsert rand now entries ip4 mac).1 (entries j).ip4 = some (entries j).mac) :
    Keeps rand now entries ip4 mac := by
  have hnone : ∀ other, other ≠ ip4 → ¬Lost entries (arpcacheInsert rand now entries ip4 mac).1 other := by
    intro other hne h
    obtain ⟨m, hm, hlost⟩ := h
    obtain ⟨j, hj, rfl, rfl⟩ := exists_of_arpcacheLookup hm
    exact hlost (hkept j hj hne)
  exact ⟨hinside, hfound, hunique, fun _ => hnone, fun a _ ha _ hlost => absurd hlost (hnone a ha)⟩

/-- An address that is there is renewed in its place. -/
theorem Keeps.of_present (h : Unique entries) (hpresent : Present entries ip4) : Keeps rand now entries ip4 mac := by
  obtain ⟨hentries, hwritten⟩ := insert_present mac rand now hpresent
  obtain ⟨i, hfor⟩ := hpresent
  obtain ⟨hvalid, rfl⟩ := ArpCacheEntry.isFor_iff.mp hfor
  have hunique : Unique (arpcacheInsert rand now entries (entries i).ip4 mac).1 := by
    intro j k hj hk hip
    rw [hentries, ArpCacheEntry.renewed_valid] at hj hk
    rw [hentries, hentries, ArpCacheEntry.renewed_ip4, ArpCacheEntry.renewed_ip4] at hip
    exact h j k hj hk hip
  refine .of_none_lost (fun k hk => ?_) ?_ hunique fun j hj hne => ?_
  · obtain ⟨j, rfl⟩ := hwritten k hk
    exact ⟨by omega, by have := j.isLt; omega⟩
  · have hstill : ((arpcacheInsert rand now entries (entries i).ip4 mac).1 i).valid = true := by
      rw [hentries, ArpCacheEntry.renewed_valid, hvalid]
    have hfound := hunique.arpcacheLookup hstill
    rw [hentries, ArpCacheEntry.renewed_ip4, ArpCacheEntry.renewed, if_pos hfor] at hfound
    exact hfound
  · have hother : (entries j).isFor (entries i).ip4 = false :=
      Bool.eq_false_of_not_eq_true fun hfor => hne (ArpCacheEntry.isFor_iff.mp hfor).2
    have hsame : (arpcacheInsert rand now entries (entries i).ip4 mac).1 j = entries j := by
      rw [hentries, ArpCacheEntry.renewed_other hother]
    rw [← hsame]
    exact hunique.arpcacheLookup (by rw [hsame, hj])

/-- One that is not goes to the slot drawn, if there is room. -/
theorem insert_drawn {rand : Nat} {now : Int} (habsent : ¬Present entries ip4) (hroom : ∃ i, (entries i).valid = false) :
    arpcacheInsert rand now entries ip4 mac =
      (Function.update entries (drawn rand) ⟨ip4, mac, now, true⟩, [(drawn rand : Int)]) := by
  obtain ⟨pos, heq, hpos, -⟩ := insert_absent mac rand now habsent
  rw [heq, hpos hroom, ← setEntry_slot]
  rfl

/-- If that slot is free, nothing is lost. -/
theorem Keeps.of_free (h : Unique entries) (habsent : ¬Present entries ip4)
    (hfree : (entries (drawn rand)).valid = false) : Keeps rand now entries ip4 mac := by
  have heq : arpcacheInsert rand now entries ip4 mac = _ := insert_drawn habsent ⟨_, hfree⟩
  have hne : ∀ j, (entries j).valid = true → j ≠ drawn rand := by
    intro j hj hsame
    obtain rfl := hsame
    exact nomatch hj.symm.trans hfree
  have hunique : Unique (Function.update entries (drawn rand) ⟨ip4, mac, now, true⟩) :=
    h.update fun j _ hj hip => habsent ⟨j, ArpCacheEntry.isFor_iff.mpr ⟨hj, hip⟩⟩
  refine .of_none_lost (fun k hk => ?_) ?_ ?_ fun j hj _ => ?_
  · rw [heq] at hk
    rw [List.mem_singleton.mp hk]
    exact ⟨by omega, by have := (drawn rand).isLt; omega⟩
  · have hfound := hunique.arpcacheLookup (i := drawn rand) (by rw [Function.update_self])
    rw [Function.update_self] at hfound
    rw [heq]
    exact hfound
  · rwa [heq]
  · rw [heq]
    exact lookup_update_of_ne hunique (hne j hj) hj

/-- **What an insertion keeps.** An insertion keeps what it need not evict exactly if the
address is there already, or the slot that is drawn at random is free. -/
theorem insert_keeps_iff (h : Unique entries) :
    Keeps rand now entries ip4 mac ↔ Present entries ip4 ∨ (entries (drawn rand)).valid = false := by
  constructor
  · intro hkeeps
    by_cases hpresent : Present entries ip4
    · exact .inl hpresent
    · right
      by_cases hroom : ∃ i, (entries i).valid = false
      · refine Bool.eq_false_of_not_eq_true fun hvalid => ?_
        have hne : ip4 ≠ (entries (drawn rand)).ip4 := fun hip =>
          hpresent ⟨drawn rand, ArpCacheEntry.isFor_iff.mpr ⟨hvalid, hip.symm⟩⟩
        refine hkeeps.kept (.inr hroom) _ (Ne.symm hne) ⟨_, h.arpcacheLookup hvalid, ?_⟩
        rw [insert_drawn hpresent hroom, lookup_update_lost h hvalid hne]
        exact nofun
      · obtain ⟨pos, heq, -, hpos⟩ := insert_absent mac rand now hpresent
        have hfull := hpos fun i => Bool.eq_true_of_not_eq_false fun hfree => hroom ⟨i, hfree⟩
        have hinside := hkeeps.inside pos (by rw [heq]; exact List.mem_singleton.mpr rfl)
        omega
  · intro hyp
    rcases hyp with hpresent | hfree
    · exact .of_present h hpresent
    · by_cases hpresent : Present entries ip4
      · exact .of_present h hpresent
      · exact .of_free h hpresent hfree

/-- An empty cache. -/
def emptyCache : Entries := fun _ => ⟨0, Vector.replicate 6 0, 0, false⟩

/-- A cache with one entry. -/
def oneKnown : Entries := Function.update emptyCache (drawn 5) ⟨0x0A000001, Vector.replicate 6 1, 0, true⟩

/-- Another address, for which a free slot is drawn. -/
theorem insert_keeps_oneKnown : Keeps 6 1 oneKnown 0x0A000002 (Vector.replicate 6 2) :=
  (insert_keeps_iff (by decide)).mpr (.inr (by decide))

theorem oneKnown_free {i : Fin maxArpSize} (h : i ≠ drawn 5) : oneKnown i = emptyCache i :=
  Function.update_of_ne h _ _

/-- The same with the slot of that entry drawn: 31 slots are free, and the entry is lost. -/
theorem insert_evicts : Unique oneKnown ∧ ¬Keeps 5 1 oneKnown 0x0A000002 (Vector.replicate 6 2) := by
  have hunique : Unique oneKnown := Unique.update (fun _ _ hi => nomatch hi) fun _ _ hj => nomatch hj
  have hself : oneKnown (drawn 5) = ⟨0x0A000001, Vector.replicate 6 1, 0, true⟩ := Function.update_self ..
  have hvalid : (oneKnown (drawn 5)).valid = true := by rw [hself]
  have hfree : (oneKnown (drawn 0)).valid = false := by
    rw [oneKnown_free (by decide)]
    rfl
  have habsent : ¬Present oneKnown 0x0A000002 := by
    intro hyp
    obtain ⟨i, hi⟩ := hyp
    by_cases h : i = drawn 5
    · rw [h, hself] at hi
      cases hi
    · rw [oneKnown_free h] at hi
      cases hi
  have hne : (0x0A000002 : U32) ≠ (oneKnown (drawn 5)).ip4 := by
    rw [hself]
    decide
  refine ⟨hunique, fun hkeeps => ?_⟩
  refine hkeeps.kept (.inr ⟨drawn 0, hfree⟩) _ hne.symm ⟨_, hunique.arpcacheLookup hvalid, ?_⟩
  rw [insert_drawn habsent ⟨drawn 0, hfree⟩, lookup_update_lost hunique hvalid hne]
  exact nofun

end NetStack.Arp
