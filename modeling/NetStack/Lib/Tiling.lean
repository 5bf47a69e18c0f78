import NetStack.Lib.Serial
import Mathlib.Algebra.BigOperators.Group.List.Basic

/-! Segments that tile a range of positions.

Every segment covers `len` positions and is numbered by the serial number `num` of its
first one. A list of segments tiles the range from `p` on when each starts where the one
before it ends. Dropping what is numbered before a boundary of the tiling leaves the
segments from that boundary on, as long as the positions compared are near. -/
namespace NetStack.Tiling

variable {β : Type} (len : β → Nat)

/-- How many positions the segments cover. -/
def extent (l : List β) : Nat := (l.map len).sum

/-- Where each segment starts, the first at `p`. -/
def starts (p : Nat) : List β → List Nat
  | [] => []
  | x :: rest => p :: starts (p + len x) rest

/-- The boundaries between segments, both ends included. -/
def bounds (p : Nat) : List β → List Nat
  | [] => [p]
  | x :: rest => p :: bounds (p + len x) rest

@[simp] theorem extent_nil : extent len [] = 0 := rfl

@[simp] theorem extent_cons (x : β) (l : List β) : extent len (x :: l) = len x + extent len l := by
  simp [extent]

@[simp] theorem extent_append (l m : List β) : extent len (l ++ m) = extent len l + extent len m := by
  simp [extent]

theorem extent_sublist {l m : List β} (h : l.Sublist m) : extent len l ≤ extent len m := by
  induction h with
  | slnil => exact Nat.le_refl _
  | cons x _ ih =>
    rw [extent_cons]
    omega
  | cons_cons x _ ih =>
    rw [extent_cons, extent_cons]
    omega

theorem mem_bounds_iff {p q : Nat} {l : List β} :
    q ∈ bounds len p l ↔ ∃ pre post, l = pre ++ post ∧ q = p + extent len pre := by
  induction l generalizing p with
  | nil =>
    simp only [bounds, List.mem_singleton]
    constructor
    · intro h
      exact ⟨[], [], rfl, by simpa using h⟩
    · intro hyp
      obtain ⟨pre, post, hl, rfl⟩ := hyp
      obtain ⟨rfl, -⟩ := List.append_eq_nil_iff.mp hl.symm
      simp
  | cons x rest ih =>
    simp only [bounds, List.mem_cons, ih]
    constructor
    · intro hyp
      rcases hyp with rfl | ⟨pre, post, rfl, rfl⟩
      · exact ⟨[], x :: rest, rfl, by simp⟩
      · exact ⟨x :: pre, post, rfl, by simp [Nat.add_assoc]⟩
    · intro hyp
      obtain ⟨pre, post, hl, rfl⟩ := hyp
      cases pre with
      | nil => simp
      | cons y pre =>
        obtain ⟨rfl, rfl⟩ := List.cons.inj hl
        exact .inr ⟨pre, post, rfl, by simp [Nat.add_assoc]⟩

/-- A boundary of `done ++ rest` is one of `done` or lies in `rest`. -/
theorem bounds_append {p q : Nat} {done rest : List β} (h : q ∈ bounds len p (done ++ rest)) :
    q ≤ p + extent len done ∨
      ∃ pre post, rest = pre ++ post ∧ q = p + extent len done + extent len pre := by
  obtain ⟨pre, post, hl, rfl⟩ := (mem_bounds_iff len).mp h
  rcases List.append_eq_append_iff.mp hl with ⟨mid, rfl, hrest⟩ | ⟨mid, rfl, hpost⟩
  · exact .inr ⟨mid, post, hrest, by simp [Nat.add_assoc]⟩
  · left
    simp

/-! ### Numbered segments -/

variable {w : Nat} (num : β → BitVec w) (base : BitVec w)

/-- The segments tile the range from `p` on, each at least one position long and
numbered by where it starts. -/
def Tiles (p : Nat) : List β → Prop
  | [] => True
  | x :: rest => num x = Serial.nth base p ∧ 0 < len x ∧ Tiles (p + len x) rest

variable {len num base}

theorem tiles_append {p : Nat} {l m : List β} :
    Tiles len num base p (l ++ m) ↔
      Tiles len num base p l ∧ Tiles len num base (p + extent len l) m := by
  induction l generalizing p with
  | nil => simp [Tiles]
  | cons x rest ih =>
    simp only [List.cons_append, Tiles, ih, extent_cons]
    rw [Nat.add_assoc, and_assoc, and_assoc]

/-- Nothing of a tiling that starts at or after `q` is numbered before `q`. -/
theorem filter_after {p q : Nat} {l : List β} (ht : Tiles len num base p l) (hpq : q ≤ p)
    (hnear : ∀ s ∈ starts len p l, Serial.Near w s q) :
    (l.filter fun x => !Serial.lt (num x) (Serial.nth base q)) = l := by
  induction l generalizing p with
  | nil => rfl
  | cons x rest ih =>
    obtain ⟨hx, -, hrest⟩ := ht
    simp only [starts, List.forall_mem_cons] at hnear
    have hkeep : Serial.lt (num x) (Serial.nth base q) = false := by
      rw [hx, Serial.lt_nth base hnear.1]
      simpa using hpq
    rw [List.filter_cons_of_pos (by rw [hkeep]; rfl), ih hrest (by omega) hnear.2]

/-- **Dropping what an acknowledgement covers.** Of a tiling cut at the boundary `q`,
what is numbered before `q` is exactly the part before the cut. -/
theorem filter_cut {p q : Nat} {pre post : List β} (ht : Tiles len num base p (pre ++ post))
    (hq : q = p + extent len pre) (hnear : ∀ s ∈ starts len p (pre ++ post), Serial.Near w s q) :
    ((pre ++ post).filter fun x => !Serial.lt (num x) (Serial.nth base q)) = post := by
  induction pre generalizing p with
  | nil => exact filter_after ht (by simp [hq]) hnear
  | cons x rest ih =>
    obtain ⟨hx, hpos, hrest⟩ := ht
    simp only [List.cons_append, starts, List.forall_mem_cons] at hnear
    rw [extent_cons] at hq
    have hdrop : Serial.lt (num x) (Serial.nth base q) = true := by
      rw [hx, Serial.lt_nth base hnear.1]
      simp only [decide_eq_true_eq]
      omega
    rw [List.cons_append, List.filter_cons_of_neg (by rw [hdrop]; decide)]
    exact ih hrest (by omega) hnear.2

/-! ### What ends after a position -/

variable (len) in
/-- The segments that end after position `u`, the first one starting at `p`. -/
def endsAfter (u p : Nat) : List β → List β
  | [] => []
  | x :: rest => if u < p + len x then x :: endsAfter u (p + len x) rest else endsAfter u (p + len x) rest

theorem endsAfter_append (u p : Nat) (l m : List β) :
    endsAfter len u p (l ++ m) = endsAfter len u p l ++ endsAfter len u (p + extent len l) m := by
  induction l generalizing p with
  | nil => rfl
  | cons x rest ih =>
    rw [List.cons_append, endsAfter, endsAfter, ih, extent_cons, Nat.add_assoc]
    split <;> rfl

/-- From `u` on, everything ends after `u`. -/
theorem endsAfter_of_le {u p : Nat} {l : List β} (ht : Tiles len num base p l) (hle : u ≤ p) :
    endsAfter len u p l = l := by
  induction l generalizing p with
  | nil => rfl
  | cons x rest ih =>
    obtain ⟨-, hpos, hrest⟩ := ht
    rw [endsAfter, if_pos (by omega), ih hrest (by omega)]

/-- Up to `u`, nothing does. -/
theorem endsAfter_eq_nil {u p : Nat} {l : List β} (hle : p + extent len l ≤ u) :
    endsAfter len u p l = [] := by
  induction l generalizing p with
  | nil => rfl
  | cons x rest ih =>
    rw [extent_cons] at hle
    rw [endsAfter, if_neg (by omega)]
    exact ih (by omega)

/-- What ends after `u` is the tail of the tiling, from a segment that starts by `u`. -/
theorem endsAfter_suffix {u p : Nat} {l : List β} (ht : Tiles len num base p l) (hle : p ≤ u) :
    ∃ pre, l = pre ++ endsAfter len u p l ∧ p + extent len pre ≤ u := by
  induction l generalizing p with
  | nil => exact ⟨[], rfl, by simpa using hle⟩
  | cons x rest ih =>
    obtain ⟨-, hpos, hrest⟩ := ht
    rw [endsAfter]
    split
    · refine ⟨[], ?_, by simpa using hle⟩
      rw [endsAfter_of_le hrest (by omega), List.nil_append]
    · obtain ⟨pre, hl, hextent⟩ := ih hrest (by omega)
      refine ⟨x :: pre, ?_, by rw [extent_cons]; omega⟩
      rw [List.cons_append, ← hl]

theorem bounds_between {p q : Nat} {l : List β} (h : q ∈ bounds len p l) :
    p ≤ q ∧ q ≤ p + extent len l := by
  obtain ⟨pre, post, rfl, rfl⟩ := (mem_bounds_iff len).mp h
  rw [extent_append]
  omega

theorem mem_bounds_self (p : Nat) (l : List β) : p ∈ bounds len p l := by
  cases l <;> exact List.mem_cons_self

theorem start_mem_bounds {p q : Nat} {l : List β} (h : q ∈ starts len p l) : q ∈ bounds len p l := by
  induction l generalizing p with
  | nil => cases h
  | cons x rest ih =>
    cases List.mem_cons.mp h with
    | inl heq => rw [heq]; exact List.mem_cons_self
    | inr hrest => exact List.mem_cons_of_mem _ (ih hrest)

/-- The number after a segment's last position. -/
def endNum (len : β → Nat) (num : β → BitVec w) (x : β) : BitVec w := num x + BitVec.ofNat w (len x)

/-- Nothing of a tiling that starts at or after `r` ends by `r`. -/
theorem lt_endNum {p r : Nat} {l : List β} (ht : Tiles len num base p l) (hle : r ≤ p)
    (hnear : ∀ q ∈ bounds len p l, Serial.Near w q r) :
    ∀ x ∈ l, Serial.lt (Serial.nth base r) (endNum len num x) = true := by
  induction l generalizing p with
  | nil => exact fun _ h => (nomatch h)
  | cons x rest ih =>
    obtain ⟨hx, hpos, hrest⟩ := ht
    rw [bounds, List.forall_mem_cons] at hnear
    have hend : Serial.Near w (p + len x) r := hnear.2 _ (mem_bounds_self _ rest)
    rw [List.forall_mem_cons]
    refine ⟨?_, ih hrest (by omega) hnear.2⟩
    rw [endNum, hx, Serial.nth_add, Serial.lt_nth base hend.symm]
    simp only [decide_eq_true_eq]
    omega

/-- Dropping what starts before `r` leaves what ends after `r`, unless a segment does both. -/
theorem filter_eq_endsAfter_iff {p r : Nat} {l : List β} (ht : Tiles len num base p l)
    (hnear : ∀ q ∈ bounds len p l, Serial.Near w q r) :
    (l.filter fun x => !Serial.lt (num x) (Serial.nth base r)) = endsAfter len r p l ↔
      ∀ x ∈ l, Serial.lt (num x) (Serial.nth base r) = true →
        Serial.lt (Serial.nth base r) (endNum len num x) = false := by
  induction l generalizing p with
  | nil => exact iff_of_true rfl fun _ h => (nomatch h)
  | cons x rest ih =>
    have hstarts : ∀ q ∈ starts len p (x :: rest), Serial.Near w q r := fun q hq =>
      hnear q (start_mem_bounds hq)
    by_cases hle : r ≤ p
    · -- Everything stays on both sides.
      have hkeep := filter_after ht hle hstarts
      refine iff_of_true (by rw [hkeep, endsAfter_of_le ht hle]) fun y hy hlt => ?_
      have := List.filter_eq_self.mp hkeep y hy
      rw [hlt] at this
      cases this
    · obtain ⟨hx, hpos, hrest⟩ := ht
      rw [bounds, List.forall_mem_cons] at hnear
      have hend : Serial.Near w (p + len x) r := hnear.2 _ (mem_bounds_self _ rest)
      have hdrop : Serial.lt (num x) (Serial.nth base r) = true := by
        rw [hx, Serial.lt_nth base hnear.1]
        simp only [decide_eq_true_eq]
        omega
      have hstraddle : Serial.lt (Serial.nth base r) (endNum len num x) = decide (r < p + len x) := by
        rw [endNum, hx, Serial.nth_add, Serial.lt_nth base hend.symm]
      rw [List.filter_cons_of_neg (by rw [hdrop]; decide), endsAfter, List.forall_mem_cons, hstraddle]
      by_cases hcut : r < p + len x
      · rw [if_pos hcut, endsAfter_of_le hrest (by omega)]
        refine iff_of_false (fun heq => ?_) fun hall => by simpa [hcut] using hall.1 hdrop
        have hlen := congrArg List.length heq
        have := List.length_filter_le (fun x => !Serial.lt (num x) (Serial.nth base r)) rest
        rw [List.length_cons] at hlen
        omega
      · rw [if_neg hcut, ih hrest hnear.2]
        exact (and_iff_right fun _ => by simpa using hcut).symm

/-- All of a tiling ends after `r`, or its first segment does not. -/
theorem endsAfter_eq_self_iff {p r : Nat} {l : List β} (ht : Tiles len num base p l)
    (hnear : ∀ q ∈ bounds len p l, Serial.Near w q r) :
    l = endsAfter len r p l ↔
      ∀ x ∈ l, Serial.lt (Serial.nth base r) (endNum len num x) = true := by
  cases l with
  | nil => exact iff_of_true rfl fun _ h => (nomatch h)
  | cons x rest =>
    obtain ⟨hx, hpos, hrest⟩ := ht
    rw [bounds, List.forall_mem_cons] at hnear
    have hend : Serial.Near w (p + len x) r := hnear.2 _ (mem_bounds_self _ rest)
    have hfirst : Serial.lt (Serial.nth base r) (endNum len num x) = decide (r < p + len x) := by
      rw [endNum, hx, Serial.nth_add, Serial.lt_nth base hend.symm]
    rw [endsAfter, List.forall_mem_cons, hfirst]
    by_cases hcut : r < p + len x
    · rw [if_pos hcut, endsAfter_of_le hrest (by omega)]
      exact iff_of_true rfl ⟨by simpa using hcut, lt_endNum hrest (by omega) hnear.2⟩
    · rw [if_neg hcut]
      refine iff_of_false (fun heq => ?_) fun hall => hcut (by simpa using hall.1)
      obtain ⟨pre, hsuffix, -⟩ := endsAfter_suffix hrest (show p + len x ≤ r by omega)
      have hlen := congrArg List.length hsuffix
      rw [← heq, List.length_append, List.length_cons] at hlen
      omega

end NetStack.Tiling
