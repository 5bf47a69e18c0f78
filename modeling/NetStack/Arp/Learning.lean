import NetStack.Arp.Cache
import Mathlib.Data.Finset.Card
import Mathlib.Data.List.Induction

/-! What the cache of the router holds (`arpcache.c` of `EXP07-Router/07-router`).

`arpcache_insert` writes over the first entry that is valid, and takes a slot at random where
none is. So there is never more than one valid entry, the one inserted last
(`run_current`): the cache holds what it learned exactly while nothing else that was learned
is still to be held (`run_holds_iff`). -/
namespace NetStack.Arp.Learning

/-- `ARP_ENTRY_TIMEOUT`. -/
def arpEntryTimeout : Int := 15

/-- The first valid entry. -/
def firstValid (entries : Entries) : Option (Fin maxArpSize) :=
  (List.finRange maxArpSize).find? fun i => (entries i).valid

/-- `arpcache_insert`, the part about the entries, at time `now`, where `rand()` gives `rand`. -/
def arpcacheInsert (rand : Nat) (now : Int) (entries : Entries) (ip4 : U32) (mac : Mac) : Entries :=
  match firstValid entries with
  | some i => Function.update entries i ⟨ip4, mac, now, true⟩
  | none => Function.update entries (drawn rand) ⟨ip4, mac, now, true⟩

/-- `arpcache_sweep`, the part about the entries. -/
def arpcacheSweep (now : Int) (entries : Entries) : Entries := fun i =>
  if arpEntryTimeout < now - (entries i).added ∧ (entries i).valid then { entries i with valid := false }
  else entries i

/-- A reply comes in, or the thread sweeps. -/
inductive Event
  | insert (now : Int) (rand : Nat) (ip4 : U32) (mac : Mac)
  | sweep (now : Int)
deriving DecidableEq

def step (entries : Entries) : Event → Entries
  | .insert now rand ip4 mac => arpcacheInsert rand now entries ip4 mac
  | .sweep now => arpcacheSweep now entries

/-- From `arpcache_init` on. -/
def run (es : List Event) : Entries := es.foldl step emptyCache

/-! ### What is learned -/

/-- The address that an event is about, if it is an insertion. -/
def Event.ip4? : Event → Option U32
  | .insert _ _ ip4 _ => some ip4
  | .sweep _ => none

/-- An insertion that no later event in `renews` takes the place of, and that no later sweep
finds older than the timeout. -/
def Stands (renews : Event → Prop) (es : List Event) (ip4 : U32) (mac : Mac) (added : Int) : Prop :=
  ∃ before rand after, es = before ++ .insert added rand ip4 mac :: after ∧ (∀ e ∈ after, ¬renews e) ∧
    ∀ now, .sweep now ∈ after → now - added ≤ arpEntryTimeout

/-- The latest insertion of its address, not expired. -/
def Learned (es : List Event) (ip4 : U32) : Mac → Int → Prop :=
  Stands (fun e => e.ip4? = some ip4) es ip4

/-- The latest insertion of all, not expired. -/
def Current (es : List Event) : U32 → Mac → Int → Prop := Stands (fun e => e.ip4?.isSome) es

variable {renews : Event → Prop} {es : List Event} {e : Event} {ip4 : U32} {mac : Mac} {added : Int}

/-- It stands after one more event. -/
theorem stands_snoc : Stands renews (es ++ [e]) ip4 mac added ↔
    (∃ rand, e = .insert added rand ip4 mac) ∨
      Stands renews es ip4 mac added ∧ ¬renews e ∧ ∀ now, e = .sweep now → now - added ≤ arpEntryTimeout := by
  constructor
  · intro h
    obtain ⟨before, rand, after, heq, hafter, hsweeps⟩ := h
    rcases List.eq_nil_or_concat after with rfl | ⟨after, last, rfl⟩
    · left
      exact ⟨rand, (List.append_inj' heq rfl).2 |> List.singleton_inj.mp⟩
    · right
      rw [List.concat_eq_append, ← List.cons_append, ← List.append_assoc] at heq
      obtain ⟨rfl, hlast⟩ := List.append_inj' heq rfl
      obtain rfl := List.singleton_inj.mp hlast
      rw [List.concat_eq_append] at hafter hsweeps
      have hmem : e ∈ after ++ [e] := List.mem_append_right _ (List.mem_singleton.mpr rfl)
      refine ⟨⟨before, rand, after, rfl, fun f hf => hafter f (List.mem_append_left _ hf), fun now hnow =>
        hsweeps now (List.mem_append_left _ hnow)⟩, hafter e hmem, fun now hnow => hsweeps now (hnow ▸ hmem)⟩
  · intro h
    rcases h with ⟨rand, rfl⟩ | ⟨⟨before, rand, after, rfl, hafter, hsweeps⟩, hkeep, hsweep⟩
    · exact ⟨es, rand, [], rfl, nofun, nofun⟩
    · refine ⟨before, rand, after ++ [e], by simp, fun f hf => ?_, fun now hnow => ?_⟩
      · rcases List.mem_append.mp hf with hf | hf
        · exact hafter f hf
        · exact List.mem_singleton.mp hf ▸ hkeep
      · rcases List.mem_append.mp hnow with hnow | hnow
        · exact hsweeps now hnow
        · exact hsweep now (List.mem_singleton.mp hnow).symm

/-- The address inserted last. -/
def lastIp (es : List Event) : Option U32 := (es.filterMap Event.ip4?).getLast?

theorem lastIp_snoc (es : List Event) (e : Event) : lastIp (es ++ [e]) = e.ip4?.or (lastIp es) := by
  cases e <;> simp [lastIp, Event.ip4?]

/-- The latest insertion of all is that of the address inserted last. -/
theorem current_iff : Current es ip4 mac added ↔ Learned es ip4 mac added ∧ lastIp es = some ip4 := by
  induction es using List.reverseRecOn with
  | nil => simp [Current, Stands, lastIp]
  | append_singleton es e ih =>
    unfold Current Learned at ih ⊢
    rw [stands_snoc, stands_snoc, lastIp_snoc]
    cases e with
    | insert now rand ip mac =>
      have hsome : (Event.insert now rand ip mac).ip4? = some ip := rfl
      simp only [hsome, Option.isSome_some, not_true_eq_false, false_and, and_false, or_false, Option.some_or,
        Option.some.injEq, Event.insert.injEq]
      constructor
      · intro hyp
        obtain ⟨rand', hnow, hrand, hip, hmac⟩ := hyp
        exact ⟨.inl ⟨rand', hnow, hrand, hip, hmac⟩, hip⟩
      · intro hyp
        obtain ⟨⟨rand', h⟩ | ⟨-, hne, -⟩, hip⟩ := hyp
        · exact ⟨rand', h⟩
        · exact absurd hip hne
    | sweep now =>
      have hnone : (Event.sweep now).ip4? = none := rfl
      simp only [hnone, Option.isSome_none, Option.none_or, reduceCtorEq, exists_false, false_or,
        Bool.false_eq_true, not_false_eq_true, true_and]
      rw [ih, and_right_comm]

/-! ### What is held -/

/-- The one valid entry, if there is one, is the latest insertion of all. -/
structure Holds (es : List Event) (entries : Entries) : Prop where
  only : ∀ i j, (entries i).valid = true → (entries j).valid = true → i = j
  current : ∀ i, (entries i).valid = true → Current es (entries i).ip4 (entries i).mac (entries i).added
  held : ∀ ip4 mac added, Current es ip4 mac added →
    ∃ i, (entries i).valid = true ∧ (entries i).ip4 = ip4 ∧ (entries i).mac = mac ∧ (entries i).added = added

variable {entries : Entries}

/-- What is inserted takes the place of whatever is valid. -/
theorem insert_slot (honly : ∀ i j, (entries i).valid = true → (entries j).valid = true → i = j)
    (rand : Nat) (now : Int) (ip4 : U32) (mac : Mac) :
    ∃ k, arpcacheInsert rand now entries ip4 mac = Function.update entries k ⟨ip4, mac, now, true⟩ ∧
      ∀ j, (entries j).valid = true → j = k := by
  unfold arpcacheInsert
  cases hfirst : firstValid entries with
  | some i =>
    rw [firstValid] at hfirst
    have hvalid := List.find?_some hfirst
    exact ⟨i, rfl, fun j hj => honly j i hj hvalid⟩
  | none =>
    refine ⟨drawn rand, rfl, fun j hj => ?_⟩
    exact absurd hj (List.find?_eq_none.mp hfirst j (List.mem_finRange j))

theorem Holds.insert (h : Holds es entries) (now : Int) (rand : Nat) (ip4 : U32) (mac : Mac) :
    Holds (es ++ [.insert now rand ip4 mac]) (arpcacheInsert rand now entries ip4 mac) := by
  obtain ⟨k, heq, hother⟩ := insert_slot h.only rand now ip4 mac
  have hself : arpcacheInsert rand now entries ip4 mac k = ⟨ip4, mac, now, true⟩ := by
    rw [heq, Function.update_self]
  have hvalid : ∀ i, (arpcacheInsert rand now entries ip4 mac i).valid = true → i = k := by
    intro i hi
    by_cases hik : i = k
    · exact hik
    · rw [heq, Function.update_of_ne hik] at hi
      exact hother i hi
  refine ⟨fun i j hi hj => (hvalid i hi).trans (hvalid j hj).symm, fun i hi => ?_, fun ip mac' added hcurrent => ?_⟩
  · rw [hvalid i hi, hself]
    exact stands_snoc.mpr (.inl ⟨rand, rfl⟩)
  · rcases stands_snoc.mp hcurrent with ⟨rand', he⟩ | ⟨-, hkeep, -⟩
    · cases he
      exact ⟨k, by rw [hself], by rw [hself], by rw [hself], by rw [hself]⟩
    · exact absurd rfl hkeep

theorem sweep_valid {now : Int} {i : Fin maxArpSize} (h : (arpcacheSweep now entries i).valid = true) :
    (entries i).valid = true ∧ now - (entries i).added ≤ arpEntryTimeout ∧ arpcacheSweep now entries i = entries i := by
  unfold arpcacheSweep at h ⊢
  split at h
  · cases h
  · rename_i hfresh
    rw [if_neg hfresh]
    exact ⟨h, not_lt.mp fun hlt => hfresh ⟨hlt, h⟩, rfl⟩

theorem sweep_fresh {now : Int} {i : Fin maxArpSize} (h : now - (entries i).added ≤ arpEntryTimeout) :
    arpcacheSweep now entries i = entries i :=
  if_neg fun hexpired => not_lt.mpr h hexpired.1

theorem Holds.sweep (h : Holds es entries) (now : Int) : Holds (es ++ [.sweep now]) (arpcacheSweep now entries) := by
  refine ⟨fun i j hi hj => h.only i j (sweep_valid hi).1 (sweep_valid hj).1, fun i hi => ?_,
    fun ip mac added hcurrent => ?_⟩
  · obtain ⟨hvalid, hfresh, hsame⟩ := sweep_valid hi
    rw [hsame]
    refine stands_snoc.mpr (.inr ⟨h.current i hvalid, Bool.false_ne_true, fun now' hnow => ?_⟩)
    obtain rfl := Event.sweep.inj hnow
    exact hfresh
  · rcases stands_snoc.mp hcurrent with ⟨rand, he⟩ | ⟨hbefore, -, hfresh⟩
    · cases he
    · obtain ⟨i, hvalid, hip, hmac, hadded⟩ := h.held ip mac added hbefore
      have hsame : arpcacheSweep now entries i = entries i := sweep_fresh (hadded.symm ▸ hfresh now rfl)
      exact ⟨i, by rw [hsame, hvalid], by rw [hsame, hip], by rw [hsame, hmac], by rw [hsame, hadded]⟩

theorem run_current (es : List Event) : Holds es (run es) := by
  induction es using List.reverseRecOn with
  | nil => exact ⟨nofun, nofun, fun ip mac added h => by obtain ⟨before, rand, after, h, -⟩ := h; simp at h⟩
  | append_singleton es e ih =>
    rw [run, List.foldl_append]
    cases e with
    | insert now rand ip4 mac => exact ih.insert now rand ip4 mac
    | sweep now => exact ih.sweep now

/-- No more than 32 addresses have been inserted. -/
def Fits (es : List Event) : Prop := (es.filterMap Event.ip4?).toFinset.card ≤ maxArpSize

instance (es : List Event) : Decidable (Fits es) := Nat.decLe _ _

/-- Every address whose latest insertion is not expired resolves to what was inserted for it. -/
def HoldsLearned (es : List Event) : Prop :=
  ∀ ip4 mac added, Learned es ip4 mac added → arpcacheLookup (run es) ip4 = some mac

/-- **What the cache holds.** It holds what it learned exactly if, of the addresses whose
latest insertion is not expired, there is none but the one inserted last. -/
theorem run_holds_iff (es : List Event) :
    (Fits es → HoldsLearned es) ↔
      (Fits es → ∀ ip4 mac added, Learned es ip4 mac added → lastIp es = some ip4) := by
  have hrun := run_current es
  refine imp_congr_right fun _ => forall_congr' fun ip => forall_congr' fun mac => forall_congr' fun added =>
    imp_congr_right fun hlearned => ?_
  constructor
  · intro hlookup
    obtain ⟨i, hvalid, rfl, -⟩ := exists_of_arpcacheLookup hlookup
    exact (current_iff.mp (hrun.current i hvalid)).2
  · intro hlast
    obtain ⟨i, hvalid, hip, rfl, -⟩ := hrun.held ip mac added (current_iff.mpr ⟨hlearned, hlast⟩)
    exact arpcacheLookup_eq_some hvalid hip fun j hj _ => hrun.only j i hj hvalid

/-- Two addresses in turn: the first is gone. -/
theorem run_forgets :
    ¬(Fits [.insert 0 7 0x0A000001 (Vector.replicate 6 1), .insert 0 9 0x0A000002 (Vector.replicate 6 2)] →
      HoldsLearned [.insert 0 7 0x0A000001 (Vector.replicate 6 1), .insert 0 9 0x0A000002 (Vector.replicate 6 2)]) := by
  intro h
  have hfits : Fits [.insert 0 7 0x0A000001 (Vector.replicate 6 1), .insert 0 9 0x0A000002 (Vector.replicate 6 2)] := by
    decide
  have hlearned : Learned [.insert 0 7 0x0A000001 (Vector.replicate 6 1),
      .insert 0 9 0x0A000002 (Vector.replicate 6 2)] 0x0A000001 (Vector.replicate 6 1) 0 :=
    ⟨[], 7, _, rfl, by decide, by simp⟩
  have hlookup := h hfits _ _ _ hlearned
  obtain ⟨i, hvalid, hip, -⟩ := exists_of_arpcacheLookup hlookup
  have hcurrent := (current_iff.mp ((run_current _).current i hvalid)).2
  rw [hip] at hcurrent
  exact absurd hcurrent (by decide)

end NetStack.Arp.Learning
