import PriceOracle.Lib.OrderStatistic
import Mathlib.Algebra.BigOperators.Group.Finset.Basic
import Mathlib.Algebra.GroupWithZero.Nat
import Mathlib.Algebra.Order.BigOperators.Group.Finset

/-! # Weighted order statistics

Elements that carry a weight each. In increasing order the weights reach half of their total at
some element; no set of positions that weighs less than half can hold everything on one side of
it. -/

namespace PriceOracle.Lib.WeightedOrder

open Lib.OrderStatistic

variable {α : Type} {xs ys lo hi : List (α × Nat)} {x : α × Nat} {half : Nat}

def mass (xs : List (α × Nat)) : Nat := (xs.map Prod.snd).sum

/-- The weight of the entries whose element meets `c`. -/
def massWhere (c : α → Prop) [DecidablePred c] (xs : List (α × Nat)) : Nat :=
  mass (xs.filter fun x => c x.1)

@[simp]
theorem mass_nil : mass ([] : List (α × Nat)) = 0 := rfl

@[simp]
theorem mass_cons (x : α × Nat) (xs : List (α × Nat)) : mass (x :: xs) = x.2 + mass xs := by
  simp [mass]

@[simp]
theorem mass_append (xs ys : List (α × Nat)) : mass (xs ++ ys) = mass xs + mass ys := by
  simp [mass]

theorem mass_perm (h : xs.Perm ys) : mass xs = mass ys :=
  (h.map Prod.snd).sum_eq

theorem mass_le_of_sublist (h : xs.Sublist ys) : mass xs ≤ mass ys :=
  List.Sublist.sum_le_sum (h.map Prod.snd) fun _ _ => Nat.zero_le _

theorem exists_crossing (h : half < mass xs) :
    ∃ lo x hi, xs = lo ++ x :: hi ∧ mass lo ≤ half ∧ half < mass lo + x.2 := by
  induction xs generalizing half with
  | nil =>
    rw [mass_nil] at h
    omega
  | cons y xs ih =>
    rw [mass_cons] at h
    by_cases hfirst : half < y.2
    · exact ⟨[],y,xs,rfl,by simp,by simpa using hfirst⟩
    · obtain ⟨lo,x,hi,heq,hbelow,hpass⟩ := ih (show half - y.2 < mass xs by omega)
      refine ⟨y :: lo,x,hi,?_,?_,?_⟩
      · rw [heq,List.cons_append]
      · rw [mass_cons]
        omega
      · rw [mass_cons]
        omega

theorem exists_halfway (h : 0 < mass xs) :
    ∃ lo x hi, xs = lo ++ x :: hi ∧ 2 * mass lo < mass xs ∧ mass xs ≤ 2 * (mass lo + x.2) := by
  obtain ⟨lo,x,hi,heq,hbelow,hpass⟩ :=
    exists_crossing (show (mass xs - 1) / 2 < mass xs by omega)
  exact ⟨lo,x,hi,heq,by omega,by omega⟩

section Where

variable {c d : α → Prop} [DecidablePred c] [DecidablePred d]

theorem massWhere_perm (h : xs.Perm ys) : massWhere c xs = massWhere c ys :=
  mass_perm (h.filter _)

@[simp]
theorem massWhere_append (xs ys : List (α × Nat)) :
    massWhere c (xs ++ ys) = massWhere c xs + massWhere c ys := by
  simp [massWhere]

theorem massWhere_le (xs : List (α × Nat)) : massWhere c xs ≤ mass xs :=
  mass_le_of_sublist List.filter_sublist

theorem massWhere_mono (h : ∀ a, c a → d a) (xs : List (α × Nat)) :
    massWhere c xs ≤ massWhere d xs := by
  apply mass_le_of_sublist
  apply List.monotone_filter_right
  intro x hx
  simpa using h x.1 (by simpa using hx)

theorem massWhere_of_all (xs : List (α × Nat)) (h : ∀ x ∈ xs, c x.1) : massWhere c xs = mass xs := by
  unfold massWhere
  rw [List.filter_eq_self.2]
  simpa using h

theorem massWhere_of_none (xs : List (α × Nat)) (h : ∀ x ∈ xs, ¬c x.1) : massWhere c xs = 0 := by
  unfold massWhere
  rw [List.filter_eq_nil_iff.2]
  · rfl
  · simpa using h

end Where

section Positions

variable {c : α → Prop} [DecidablePred c] {S : Finset Nat}

def massAt (weights : List Nat) (S : Finset Nat) : Nat := ∑ i ∈ S, weights.getD i 0

theorem mass_eq_sum_range (xs : List (α × Nat)) :
    mass xs = ∑ i ∈ Finset.range xs.length, (xs.map Prod.snd).getD i 0 := by
  induction xs with
  | nil => rfl
  | cons x xs ih =>
    rw [List.length_cons,Finset.sum_range_succ',mass_cons,ih,Nat.add_comm]
    rfl

/-- Entries found only at positions in a set do not weigh more than the set. -/
theorem massWhere_le_massAt (h : ∀ i x, xs[i]? = some x → c x.1 → i ∈ S) :
    massWhere c xs ≤ massAt (xs.map Prod.snd) S := by
  -- an entry that does not meet `c` counts as one without weight
  have hzero : ∀ ys : List (α × Nat), massWhere c ys =
      mass (ys.map fun x => (x.1,if c x.1 then x.2 else 0)) := by
    intro ys
    induction ys with
    | nil => rfl
    | cons y ys ih =>
      rw [List.map_cons,mass_cons,← ih]
      unfold massWhere
      by_cases hy : c y.1 <;> simp [hy]
  rw [hzero,mass_eq_sum_range,List.length_map]
  have hterm : ∀ i ∈ Finset.range xs.length, i ∉ S →
      ((xs.map fun x => (x.1,if c x.1 then x.2 else 0)).map Prod.snd).getD i 0 = 0 := by
    intro i hi hS
    have hlt : i < xs.length := Finset.mem_range.1 hi
    have hnot : ¬c xs[i].1 := fun hc => hS (h i xs[i] (List.getElem?_eq_getElem hlt) hc)
    simp [hlt,hnot]
  calc _ ≤ ∑ i ∈ Finset.range xs.length with i ∈ S,
        ((xs.map fun x => (x.1,if c x.1 then x.2 else 0)).map Prod.snd).getD i 0 := by
        apply le_of_eq
        rw [Finset.sum_filter]
        apply Finset.sum_congr rfl
        intro i hi
        by_cases hS : i ∈ S
        · rw [if_pos hS]
        · rw [if_neg hS,hterm i hi hS]
    _ ≤ ∑ i ∈ Finset.range xs.length with i ∈ S, (xs.map Prod.snd).getD i 0 := by
        apply Finset.sum_le_sum
        intro i hi
        have hlt : i < xs.length := Finset.mem_range.1 (Finset.mem_filter.1 hi).1
        by_cases hc : c xs[i].1 <;> simp [hlt,hc]
    _ ≤ ∑ i ∈ S, (xs.map Prod.snd).getD i 0 := by
        apply Finset.sum_le_sum_of_subset
        intro i hi
        exact (Finset.mem_filter.1 hi).2

end Positions

section Halves

variable [LinearOrder α] {S : Finset Nat} {p q r : α}

/-- At least half of the weight is not above `p`, and at least half is not below `q`. -/
structure Halves (xs : List (α × Nat)) (p q : α) : Prop where
  lower : mass xs ≤ 2 * massWhere (· ≤ p) xs
  upper : mass xs ≤ 2 * massWhere (q ≤ ·) xs

/-- Whatever lies between the halves lies between two elements outside every set of positions that
weighs less than half. -/
theorem Halves.withinRest (h : Halves xs p q) (hpr : p ≤ r) (hrq : r ≤ q)
    (hlight : 2 * massAt (xs.map Prod.snd) S < mass xs) : WithinRest (xs.map Prod.fst) S r := by
  constructor
  · by_contra hnone
    have hle : massWhere (· ≤ p) xs ≤ massAt (xs.map Prod.snd) S := by
      apply massWhere_le_massAt
      intro i x hx hxp
      by_contra hi
      exact hnone ⟨i,x.1,hi,by rw [List.getElem?_map,hx,Option.map_some],hxp.trans hpr⟩
    have hlower := h.lower
    omega
  · by_contra hnone
    have hle : massWhere (q ≤ ·) xs ≤ massAt (xs.map Prod.snd) S := by
      apply massWhere_le_massAt
      intro i x hx hqx
      by_contra hi
      exact hnone ⟨i,x.1,hi,by rw [List.getElem?_map,hx,Option.map_some],hrq.trans hqx⟩
    have hupper := h.upper
    omega

theorem Halves.perm (hperm : xs.Perm ys) (h : Halves xs p q) : Halves ys p q where
  lower := by
    rw [← mass_perm hperm,← massWhere_perm hperm]
    exact h.lower
  upper := by
    rw [← mass_perm hperm,← massWhere_perm hperm]
    exact h.upper

variable (hsorted : (lo ++ x :: hi).Pairwise fun a b => a.1 ≤ b.1)

include hsorted

theorem le_massWhere_le : mass lo + x.2 ≤ massWhere (· ≤ x.1) (lo ++ x :: hi) := by
  obtain ⟨-,-,hcross⟩ := List.pairwise_append.1 hsorted
  rw [show lo ++ x :: hi = (lo ++ [x]) ++ hi by simp,massWhere_append,massWhere_of_all (lo ++ [x])]
  · simp
  · intro y hy
    rcases List.mem_append.1 hy with hlo | hx
    · exact hcross y hlo x List.mem_cons_self
    · rw [List.mem_singleton.1 hx]

theorem le_massWhere_ge : x.2 + mass hi ≤ massWhere (x.1 ≤ ·) (lo ++ x :: hi) := by
  obtain ⟨-,hrest,-⟩ := List.pairwise_append.1 hsorted
  rw [massWhere_append,massWhere_of_all (x :: hi)]
  · simp
  · intro y hy
    rcases List.mem_cons.1 hy with rfl | hy
    · exact le_refl _
    · exact (List.pairwise_cons.1 hrest).1 y hy

/-- What is not above something smaller than an entry stands before it. -/
theorem massWhere_le_of_lt (hp : p < x.1) : massWhere (· ≤ p) (lo ++ x :: hi) ≤ mass lo := by
  obtain ⟨-,hrest,-⟩ := List.pairwise_append.1 hsorted
  rw [massWhere_append,massWhere_of_none (x :: hi),Nat.add_zero]
  · exact massWhere_le lo
  · intro y hy
    rw [not_le]
    rcases List.mem_cons.1 hy with rfl | hy
    · exact hp
    · exact hp.trans_le ((List.pairwise_cons.1 hrest).1 y hy)

end Halves

end PriceOracle.Lib.WeightedOrder
