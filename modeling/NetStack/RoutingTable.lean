import NetStack.Mospf.Route
import Mathlib.Data.List.MinMax

/-! Longest prefix match over the routing list (`longest_prefix_match` in `ip.c` of
`EXP18-TCP_Stack_4/code/18-tcp_stack` and in `ip_base.c` of `EXP07-Router/07-router`).

Both keep the first entry with the largest mask, as a number, of those that apply
(`longestPrefixMatch_eq_argmax`). For masks that are prefixes that is the longest prefix, and a
mask applies where an address starts as the destination does, whatever comes after it. -/
namespace NetStack
open Mospf (RtEntry longestPrefixMatch)

/-- `longest_prefix_match` of the router. -/
def Router.longestPrefixMatch (rtable : List RtEntry) (dst : U32) : Option RtEntry :=
  rtable.foldl (fun rtLongestMaskEntry rtEntry =>
    if rtEntry.dest &&& rtEntry.mask = dst &&& rtEntry.mask then
      match rtLongestMaskEntry with
      | none => some rtEntry
      | some longest => if longest.mask < rtEntry.mask then some rtEntry else rtLongestMaskEntry
    else rtLongestMaskEntry) none

/-! ### Prefixes -/

/-- The mask of a prefix length. -/
def prefixMask (k : Nat) : U32 := BitVec.allOnes 32 <<< (32 - k)

/-- A mask is a run of ones and then of zeros. -/
def Contiguous (mask : U32) : Prop := ∃ k ≤ 32, mask = prefixMask k

/-- How many ones a mask starts with. -/
def prefixLength (mask : U32) : Nat := ((List.range 32).takeWhile mask.getMsbD).length

/-- An address starts as the destination of an entry does. -/
def Applies (entry : RtEntry) (dst : U32) : Prop :=
  ∀ i < prefixLength entry.mask, dst.getMsbD i = entry.dest.getMsbD i

/-- The first of the longest entries that apply. -/
structure IsLongest (rtable : List RtEntry) (dst : U32) (best : RtEntry) : Prop where
  applies : Applies best dst
  first : ∃ before after, rtable = before ++ best :: after ∧
    (∀ entry ∈ before, Applies entry dst → prefixLength entry.mask < prefixLength best.mask) ∧
    ∀ entry ∈ after, Applies entry dst → prefixLength entry.mask ≤ prefixLength best.mask

variable {rtable : List RtEntry} {dst : U32} {entry best : RtEntry} {k : Nat}

theorem getMsbD_prefixMask {i : Nat} (hk : k ≤ 32) : (prefixMask k).getMsbD i = decide (i < k) := by
  rw [prefixMask, BitVec.getMsbD_shiftLeft, BitVec.getMsbD_allOnes]
  exact decide_eq_decide.mpr (by omega)

theorem prefixLength_prefixMask : ∀ k < 33, prefixLength (prefixMask k) = k := by decide

theorem toNat_prefixMask : ∀ k < 33, (prefixMask k).toNat = 2 ^ 32 - 2 ^ (32 - k) := by decide

/-- Masks compare as their lengths do. -/
theorem toNat_le_iff {mask mask' : U32} (h : Contiguous mask) (h' : Contiguous mask') :
    mask.toNat ≤ mask'.toNat ↔ prefixLength mask ≤ prefixLength mask' := by
  obtain ⟨k, hk, rfl⟩ := h
  obtain ⟨l, hl, rfl⟩ := h'
  have hpow : 2 ^ (32 - l) ≤ 2 ^ (32 - k) ↔ 32 - l ≤ 32 - k := Nat.pow_le_pow_iff_right (by decide)
  have hle : 2 ^ (32 - k) ≤ 2 ^ 32 := Nat.pow_le_pow_right (by decide) (Nat.sub_le ..)
  have hle' : 2 ^ (32 - l) ≤ 2 ^ 32 := Nat.pow_le_pow_right (by decide) (Nat.sub_le ..)
  rw [toNat_prefixMask k (by omega), toNat_prefixMask l (by omega), prefixLength_prefixMask k (by omega),
    prefixLength_prefixMask l (by omega)]
  omega

/-- The comparison of the code is of the bits under the mask. -/
theorem applies_iff (h : Contiguous entry.mask) :
    Applies entry dst ↔ dst &&& entry.mask = entry.dest &&& entry.mask := by
  obtain ⟨k, hk, hmask⟩ := h
  rw [Applies, hmask, prefixLength_prefixMask k (by omega)]
  constructor
  · intro hbits
    refine BitVec.eq_of_getMsbD_eq fun i hi => ?_
    rw [BitVec.getMsbD_and, BitVec.getMsbD_and, getMsbD_prefixMask hk]
    by_cases hik : i < k
    · rw [hbits i hik]
    · rw [decide_eq_false hik, Bool.and_false, Bool.and_false]
  · intro heq i hi
    have hbit := congrArg (fun x : U32 => x.getMsbD i) heq
    simp only [BitVec.getMsbD_and] at hbit
    rwa [getMsbD_prefixMask hk, decide_eq_true hi, Bool.and_true, Bool.and_true] at hbit

/-! ### What is selected -/

/-- What `argmax` returns is larger than all before it, and as large as all after it. -/
theorem argmax_split {α : Type} {f : α → Nat} {l : List α} {m : α} (h : l.argmax f = some m) :
    ∃ before after, l = before ++ m :: after ∧ (∀ a ∈ before, f a < f m) ∧ ∀ a ∈ after, f a ≤ f m := by
  induction l using List.reverseRecOn generalizing m with
  | nil => cases h
  | append_singleton l last ih =>
    have hmax : ∀ c, l.argmax f = some c → ∀ a ∈ l, f a ≤ f c := fun c hc a ha => List.le_of_mem_argmax ha hc
    rw [List.argmax_concat] at h
    cases hbest : l.argmax f with
    | none =>
      rw [hbest] at h
      cases h
      refine ⟨[], [], ?_, fun a ha => absurd ha List.not_mem_nil, fun a ha => absurd ha List.not_mem_nil⟩
      rw [List.argmax_eq_none.mp hbest]
    | some c =>
      rw [hbest] at h
      dsimp only at h
      split at h
      · next hlt =>
        cases h
        exact ⟨l, [], rfl, fun a ha => (hmax c hbest a ha).trans_lt hlt, fun a ha => absurd ha List.not_mem_nil⟩
      · next hge =>
        cases h
        obtain ⟨before, after, hsplit, hbefore, hafter⟩ := ih hbest
        refine ⟨before, after ++ [last], by rw [hsplit, List.append_assoc, List.cons_append], hbefore, fun a ha => ?_⟩
        rcases List.mem_append.mp ha with ha | ha
        · exact hafter a ha
        · rw [List.mem_singleton.mp ha]
          exact not_lt.mp hge

theorem Router.longestPrefixMatch_eq (rtable : List RtEntry) (dst : U32) :
    Router.longestPrefixMatch rtable dst = Mospf.longestPrefixMatch rtable dst := by
  refine congrArg (fun f => rtable.foldl f none) (funext fun selected => funext fun entry => ?_)
  exact if_congr eq_comm rfl rfl

/-- The first entry with the largest mask of those that apply. -/
theorem longestPrefixMatch_eq_argmax (rtable : List RtEntry) (dst : U32) :
    longestPrefixMatch rtable dst =
      (rtable.filter fun entry => dst &&& entry.mask = entry.dest &&& entry.mask).argmax
        fun entry => entry.mask.toNat := by
  rw [List.argmax, List.foldl_filter]
  refine congrArg (fun f => rtable.foldl f none) (funext fun selected => funext fun entry => ?_)
  cases selected with
  | none => simp [List.argAux]
  | some best => simp [List.argAux, BitVec.lt_def]

/-- **Longest prefix match.** For masks that are prefixes, nothing is selected exactly if no entry
applies, and otherwise the first of the longest entries that do; the router selects the same. -/
theorem longestPrefixMatch_longest (rtable : List RtEntry) (dst : U32)
    (hmasks : ∀ entry ∈ rtable, Contiguous entry.mask) :
    (longestPrefixMatch rtable dst = none ↔ ∀ entry ∈ rtable, ¬Applies entry dst) ∧
      (∀ best, longestPrefixMatch rtable dst = some best → IsLongest rtable dst best) ∧
      Router.longestPrefixMatch rtable dst = longestPrefixMatch rtable dst := by
  refine ⟨?_, fun best hbest => ?_, Router.longestPrefixMatch_eq rtable dst⟩
  · rw [longestPrefixMatch_eq_argmax, List.argmax_eq_none, List.filter_eq_nil_iff]
    refine forall₂_congr fun entry hentry => ?_
    rw [decide_eq_true_eq, applies_iff (hmasks entry hentry)]
  · rw [longestPrefixMatch_eq_argmax] at hbest
    obtain ⟨before', after', hfilter, hbefore, hafter⟩ := argmax_split hbest
    obtain ⟨front, back, rfl, hfront, hback⟩ := List.filter_eq_append_iff.mp hfilter
    obtain ⟨skipped, after, rfl, hskipped, happlies, hrest⟩ := List.filter_eq_cons_iff.mp hback
    have hmask : Contiguous best.mask := hmasks best (by simp)
    refine ⟨(applies_iff hmask).mpr (of_decide_eq_true happlies), front ++ skipped, after, by simp, ?_, ?_⟩
    · intro entry hentry happlies'
      have hmask' : Contiguous entry.mask :=
        hmasks entry (by rw [← List.append_assoc]; exact List.mem_append_left _ hentry)
      have hcovers := decide_eq_true ((applies_iff hmask').mp happlies')
      rcases List.mem_append.mp hentry with hentry | hentry
      · have hless := hbefore entry (by rw [← hfront]; exact List.mem_filter.mpr ⟨hentry, hcovers⟩)
        exact lt_of_not_ge fun hge => absurd ((toNat_le_iff hmask hmask').mpr hge) (not_le.mpr hless)
      · exact absurd hcovers (hskipped entry hentry)
    · intro entry hentry happlies'
      have hmask' : Contiguous entry.mask := hmasks entry (by simp [hentry])
      have hcovers := decide_eq_true ((applies_iff hmask').mp happlies')
      have hless := hafter entry (by rw [← hrest]; exact List.mem_filter.mpr ⟨hentry, hcovers⟩)
      exact (toNat_le_iff hmask' hmask).mp hless

/-- Of two entries for 10.0.1.0/24 the first, though its destination is a host. -/
theorem longestPrefixMatch_longest_two :
    IsLongest
      [⟨0, 0, 1, 0⟩, ⟨0x0a000105, 0xffffff00, 0, 1⟩, ⟨0x0a000000, 0xff000000, 2, 2⟩, ⟨0x0a000100, 0xffffff00, 3, 3⟩]
      0x0a000107 ⟨0x0a000105, 0xffffff00, 0, 1⟩ := by
  refine (longestPrefixMatch_longest _ _ ?_).2.1 _ (by decide)
  intro entry hentry
  simp only [List.mem_cons, List.not_mem_nil, or_false] at hentry
  rcases hentry with rfl | rfl | rfl | rfl
  · exact ⟨0, by decide, by decide⟩
  · exact ⟨24, by decide, by decide⟩
  · exact ⟨8, by decide, by decide⟩
  · exact ⟨24, by decide, by decide⟩

end NetStack
