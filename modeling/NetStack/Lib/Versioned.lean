import Mathlib.Logic.Function.Basic
import Mathlib.Order.Lattice
import Mathlib.Data.List.Induction

/-! Stores of versioned values.

A store holds one value for a key, and a write replaces it only by one of a larger version.
What a store holds after some writes is the newest that was written under each key
(`puts_eq_some`, `puts_eq_none`). Where a key and a version determine the value, the writes
can therefore come in any order and any number of times (`puts_congr`). -/
namespace NetStack.Versioned

variable {κ α ν : Type} [DecidableEq κ] [LinearOrder ν] (version : α → ν)

/-- Nothing is held under the key, or something older. -/
def Newer (store : κ → Option α) (k : κ) (a : α) : Prop := ∀ held, store k = some held → version held < version a

instance (store : κ → Option α) (k : κ) (a : α) : Decidable (Newer version store k a) :=
  match h : store k with
  | none => .isTrue fun _ hheld => nomatch h.symm.trans hheld
  | some held => decidable_of_iff (version held < version a)
      ⟨fun hlt _ hheld => Option.some.inj (h.symm.trans hheld) ▸ hlt, fun hnewer => hnewer held h⟩

/-- One write. -/
def put (store : κ → Option α) (w : κ × α) : κ → Option α :=
  if Newer version store w.1 w.2 then Function.update store w.1 (some w.2) else store

/-- Writes to a store that holds nothing. -/
def puts (ws : List (κ × α)) : κ → Option α := ws.foldl (put version) fun _ => none

/-- A write under the key, and none is newer. -/
structure IsNewest (ws : List (κ × α)) (k : κ) (a : α) : Prop where
  mem : (k, a) ∈ ws
  le : ∀ b, (k, b) ∈ ws → version b ≤ version a

/-- The key and the version of a write determine its value. -/
def Determined (ws : List (κ × α)) : Prop :=
  ∀ k a b, (k, a) ∈ ws → (k, b) ∈ ws → version a = version b → a = b

variable {version} {ws vs : List (κ × α)} {k : κ} {a : α}

theorem puts_snoc (ws : List (κ × α)) (w : κ × α) : puts version (ws ++ [w]) = put version (puts version ws) w := by
  rw [puts, puts, List.foldl_append]
  rfl

theorem put_ne {store : κ → Option α} {w : κ × α} (h : k ≠ w.1) : put version store w k = store k := by
  rw [put]
  split
  · exact Function.update_of_ne h _ _
  · rfl

theorem put_of_newer {store : κ → Option α} (h : Newer version store k a) :
    put version store (k, a) = Function.update store k (some a) :=
  if_pos h

theorem put_newer {store : κ → Option α} {w : κ × α} (h : Newer version store w.1 w.2) :
    put version store w w.1 = some w.2 := by
  rw [put_of_newer h, Function.update_self]

theorem put_stale {store : κ → Option α} {w : κ × α} (h : ¬Newer version store w.1 w.2) :
    put version store w = store :=
  if_neg h

/-- What is held was written, -/
theorem mem_of_puts (h : puts version ws k = some a) : (k, a) ∈ ws := by
  induction ws using List.reverseRecOn with
  | nil => cases h
  | append_singleton ws w ih =>
    rw [puts_snoc] at h
    by_cases hw : k = w.1 ∧ Newer version (puts version ws) w.1 w.2
    · obtain ⟨rfl, hnewer⟩ := hw
      rw [put_newer hnewer] at h
      cases h
      exact List.mem_append_right _ (List.mem_singleton.mpr rfl)
    · refine List.mem_append_left _ (ih ?_)
      by_cases hk : k = w.1
      · rwa [put_stale fun hnewer => hw ⟨hk, hnewer⟩] at h
      · rwa [put_ne hk] at h

/-- and is at least as new as anything that was. -/
theorem exists_puts (version : α → ν) (h : (k, a) ∈ ws) : ∃ b, puts version ws k = some b ∧ version a ≤ version b := by
  induction ws using List.reverseRecOn with
  | nil => cases h
  | append_singleton ws w ih =>
    rw [puts_snoc]
    rcases List.mem_append.mp h with h | h
    · obtain ⟨b, hheld, hle⟩ := ih h
      by_cases hk : k = w.1
      · subst hk
        by_cases hnewer : Newer version (puts version ws) w.1 w.2
        · exact ⟨w.2, put_newer hnewer, le_trans hle (le_of_lt (hnewer b hheld))⟩
        · exact ⟨b, by rw [put_stale hnewer, hheld], hle⟩
      · exact ⟨b, by rw [put_ne hk, hheld], hle⟩
    · obtain rfl := List.mem_singleton.mp h
      by_cases hnewer : Newer version (puts version ws) k a
      · exact ⟨a, put_newer hnewer, le_refl _⟩
      · rw [put_stale hnewer]
        obtain ⟨b, hheld, hle⟩ := not_forall₂.mp hnewer
        exact ⟨b, hheld, not_lt.mp hle⟩

/-- Under a key that was not written nothing is held. -/
theorem puts_eq_none (h : ∀ a, (k, a) ∉ ws) : puts version ws k = none := by
  cases hheld : puts version ws k with
  | none => rfl
  | some a => exact absurd (mem_of_puts hheld) (h a)

/-- Under one that was, the newest is. -/
theorem puts_eq_some (hdet : Determined version ws) (h : IsNewest version ws k a) : puts version ws k = some a := by
  obtain ⟨b, hheld, hle⟩ := exists_puts version h.mem
  have hb := mem_of_puts hheld
  rw [hheld, hdet k a b h.mem hb (le_antisymm hle (h.le b hb))]

/-- What is held was the newest. -/
theorem isNewest_of_puts (h : puts version ws k = some a) : IsNewest version ws k a := by
  refine ⟨mem_of_puts h, fun b hb => ?_⟩
  obtain ⟨held, hheld, hle⟩ := exists_puts version hb
  rwa [Option.some.inj (h.symm.trans hheld)]

/-- Only the set of the writes matters. -/
theorem puts_congr (hdet : Determined version ws) (h : ∀ w, w ∈ ws ↔ w ∈ vs) :
    puts version ws = puts version vs := by
  have hdet' : Determined version vs := fun k a b ha hb => hdet k a b ((h _).mpr ha) ((h _).mpr hb)
  funext k
  cases hheld : puts version ws k with
  | none =>
    refine (puts_eq_none fun a ha => ?_).symm
    obtain ⟨b, hb, -⟩ := exists_puts version ((h _).mpr ha)
    exact nomatch hheld.symm.trans hb
  | some a =>
    have hnewest := isNewest_of_puts hheld
    exact (puts_eq_some hdet' ⟨(h _).mp hnewest.mem, fun b hb => hnewest.le b ((h _).mpr hb)⟩).symm

end NetStack.Versioned
