import PriceOracle.Lib.Run
import PriceOracle.Pricing.Sorting
import Mathlib.Data.Int.ConditionallyCompleteOrder
import Mathlib.Data.Multiset.Sort

/-! # The incremental aggregate refines a multiset

Whatever is inserted, removed and replaced, the stored vector is the multiset of the prices in
increasing order. A removal succeeds where the price is present, and the median is the one that
`compute_median` selects from the same prices. -/

namespace PriceOracle.Pricing

open Lib.BinarySearch Lib.OrderStatistic Lib.Run Model.Pricing

/-- A mutation of the contributing prices. -/
inductive Mutation
  | insert (price : Int)
  | remove (price : Int)
  | replace (old new : Int)
deriving DecidableEq, Repr

namespace Mutation

/-- The structure after a mutation, and whether it succeeded. -/
def apply (inc : IncrementalAggregate) : Mutation → IncrementalAggregate × Bool
  | .insert price => (inc.insert price, true)
  | .remove price => inc.remove price
  | .replace old new => inc.replace old new

/-- Whether the price that a mutation takes away is there. -/
def Present (prices : Multiset Int) : Mutation → Prop
  | .insert _ => True
  | .remove price => price ∈ prices
  | .replace old _ => old ∈ prices

instance (prices : Multiset Int) (t : Mutation) : Decidable (Present prices t) :=
  match t with
  | .insert _ => inferInstanceAs (Decidable True)
  | .remove price => inferInstanceAs (Decidable (price ∈ prices))
  | .replace old _ => inferInstanceAs (Decidable (old ∈ prices))

/-- The same mutation of an ordinary multiset. -/
def mirror (prices : Multiset Int) : Mutation → Multiset Int
  | .insert price => price ::ₘ prices
  | .remove price => prices.erase price
  | .replace old new => if old ∈ prices then new ::ₘ prices.erase old else prices

def exec (s : IncrementalAggregate × Multiset Int) (t : Mutation) :
    IncrementalAggregate × Multiset Int :=
  ((apply s.1 t).1, mirror s.2 t)

end Mutation

/-- The vector is the multiset in increasing order. -/
structure Mirrors (inc : IncrementalAggregate) (prices : Multiset Int) : Prop where
  sorted : inc.sorted.Pairwise (· ≤ ·)
  elements : (inc.sorted : Multiset Int) = prices

section Refinement

variable {inc : IncrementalAggregate} {prices : Multiset Int}

theorem mirrors_rebuild (xs : List Int) (epoch : Nat) :
    Mirrors (IncrementalAggregate.rebuild xs epoch) xs :=
  ⟨sortPrices_pairwise xs,Multiset.coe_eq_coe.2 (sortPrices_perm xs)⟩

theorem mirrors_empty (epoch : Nat) : Mirrors (IncrementalAggregate.empty epoch) 0 :=
  ⟨List.Pairwise.nil,rfl⟩

theorem lowerBound_place (h : inc.sorted.Pairwise (· ≤ ·)) (price : Int) :
    inc.lowerBound price = place price inc.sorted := by
  apply lowerBound_eq_place h
  intro i hi
  simp [Model.Pricing.get,hi]

theorem Mirrors.insert (h : Mirrors inc prices) (price : Int) :
    Mirrors (inc.insert price) (price ::ₘ prices) := by
  have hplace := lowerBound_place h.sorted price
  constructor
  · simp only [IncrementalAggregate.insert,hplace]
    exact insertIdx_sorted h.sorted
  · simp only [IncrementalAggregate.insert,hplace]
    rw [← h.elements,Multiset.cons_coe,Multiset.coe_eq_coe]
    exact insertIdx_perm

/-- The search of a removal finds the price exactly if it is there. -/
theorem found_iff (h : Mirrors inc prices) (price : Int) :
    inc.lowerBound price < inc.sorted.length ∧ get inc.sorted (inc.lowerBound price) = price ↔
      price ∈ prices := by
  rw [lowerBound_place h.sorted,← h.elements,Multiset.mem_coe,← getElem_place_iff h.sorted,
    List.getElem?_eq_some_iff]
  constructor
  · rintro ⟨hlt,heq⟩
    exact ⟨hlt,by simpa [Model.Pricing.get,hlt] using heq⟩
  · rintro ⟨hlt,heq⟩
    exact ⟨hlt,by simpa [Model.Pricing.get,hlt] using heq⟩

theorem remove_of_mem (h : Mirrors inc prices) {price : Int} (hmem : price ∈ prices) :
    inc.remove price = (⟨inc.sorted.eraseIdx (inc.lowerBound price),inc.epoch⟩,true) := by
  simp only [IncrementalAggregate.remove,(found_iff h price).2 hmem,and_self,ite_true]

theorem remove_of_not_mem (h : Mirrors inc prices) {price : Int} (hmem : price ∉ prices) :
    inc.remove price = (inc,false) := by
  have hmiss := mt (found_iff h price).1 hmem
  simp only [IncrementalAggregate.remove,hmiss,ite_false]

theorem Mirrors.remove (h : Mirrors inc prices) (price : Int) :
    Mirrors (inc.remove price).1 (prices.erase price) := by
  by_cases hmem : price ∈ prices
  · obtain ⟨hlt,hget⟩ := (found_iff h price).2 hmem
    rw [remove_of_mem h hmem]
    refine ⟨h.sorted.sublist (List.eraseIdx_sublist _ _),?_⟩
    have hcons := List.getElem_cons_eraseIdx_perm hlt
    have helem : inc.sorted[inc.lowerBound price] = price := by
      simpa [Model.Pricing.get,hlt] using hget
    rw [helem] at hcons
    rw [← h.elements,Multiset.coe_erase,Multiset.coe_eq_coe]
    simpa using hcons.erase price
  · rw [remove_of_not_mem h hmem,Multiset.erase_of_notMem hmem]
    exact h

/-- A step keeps the vector in order and succeeds exactly where its price is present. -/
theorem Mirrors.step (h : Mirrors inc prices) (t : Mutation) :
    Mirrors (t.apply inc).1 (t.mirror prices) ∧ ((t.apply inc).2 = true ↔ t.Present prices) := by
  cases t with
  | insert price => exact ⟨h.insert price,by simp [Mutation.apply,Mutation.Present]⟩
  | remove price =>
    refine ⟨h.remove price,?_⟩
    by_cases hmem : price ∈ prices
    · simp [Mutation.apply,Mutation.Present,remove_of_mem h hmem,hmem]
    · simp [Mutation.apply,Mutation.Present,remove_of_not_mem h hmem,hmem]
  | replace old new =>
    by_cases hmem : old ∈ prices
    · have hremoved := h.remove old
      constructor
      · simpa [Mutation.apply,Mutation.mirror,IncrementalAggregate.replace,remove_of_mem h hmem,
          hmem] using hremoved.insert new
      · simp [Mutation.apply,Mutation.Present,IncrementalAggregate.replace,remove_of_mem h hmem,
          hmem]
    · constructor
      · simpa [Mutation.apply,Mutation.mirror,IncrementalAggregate.replace,
          remove_of_not_mem h hmem,hmem] using h
      · simp [Mutation.apply,Mutation.Present,IncrementalAggregate.replace,
          remove_of_not_mem h hmem,hmem]

theorem apply_epoch (inc : IncrementalAggregate) (t : Mutation) :
    (t.apply inc).1.epoch = inc.epoch := by
  cases t with
  | insert price => rfl
  | remove price =>
    simp only [Mutation.apply,IncrementalAggregate.remove]
    split_ifs <;> rfl
  | replace old new =>
    simp only [Mutation.apply,IncrementalAggregate.replace,IncrementalAggregate.remove]
    split_ifs <;> simp_all [IncrementalAggregate.insert]

theorem Mirrors.median (h : Mirrors inc prices) {xs : List Int} (hxs : (xs : Multiset Int) = prices) :
    inc.medianUnchecked = computeMedian xs := by
  have hperm : inc.sorted.Perm xs := Multiset.coe_eq_coe.1 (h.elements.trans hxs.symm)
  rw [← computeMedian_perm hperm]
  by_cases hempty : inc.sorted = []
  · simp [IncrementalAggregate.medianUnchecked,hempty,computeMedian]
  · rw [computeMedian_kth hempty,kth_of_sorted h.sorted,kth_of_sorted h.sorted]
    simp [IncrementalAggregate.medianUnchecked,hempty,Model.Pricing.get]

theorem Mirrors.sorted_eq (h : Mirrors inc prices) : inc.sorted = prices.sort := by
  refine List.Perm.eq_of_pairwise' h.sorted (Multiset.pairwise_sort prices (· ≤ ·)) ?_
  rw [← Multiset.coe_eq_coe,h.elements,Multiset.sort_eq]

end Refinement

section Runs

variable {s : IncrementalAggregate × Multiset Int} {epoch : Nat}

/-- The invariant of a run: the vector mirrors the multiset, and the epoch stays. -/
def Tracks (epoch : Nat) (s : IncrementalAggregate × Multiset Int) : Prop :=
  Mirrors s.1 s.2 ∧ s.1.epoch = epoch

theorem Tracks.run (h : Tracks epoch s) (ts : List Mutation) :
    (∀ x ∈ steps Mutation.exec s ts, ((x.2.apply x.1.1).2 = true ↔ x.2.Present x.1.2)) ∧
      Tracks epoch (run Mutation.exec s ts) := by
  have hstep (u : IncrementalAggregate × Multiset Int) (t : Mutation) (hu : Tracks epoch u)
      (_ : True) : ((t.apply u.1).2 = true ↔ t.Present u.2) ∧ Tracks epoch (Mutation.exec u t) :=
    ⟨(hu.1.step t).2,(hu.1.step t).1,(apply_epoch u.1 t).trans hu.2⟩
  exact steps_satisfy hstep h (by simp)

theorem Tracks.ext {inc inc' : IncrementalAggregate} {prices : Multiset Int}
    (h : Tracks epoch (inc,prices)) (h' : Tracks epoch (inc',prices)) : inc = inc' := by
  have hsorted : inc.sorted = inc'.sorted := h.1.sorted_eq.trans h'.1.sorted_eq.symm
  have hepoch : inc.epoch = inc'.epoch := h.2.trans h'.2.symm
  cases inc
  simp_all

theorem run_insert_snd (arrivals : List Int) :
    (run Mutation.exec s (arrivals.map Mutation.insert)).2 = arrivals + s.2 := by
  induction arrivals generalizing s with
  | nil => simp
  | cons price arrivals ih =>
    rw [List.map_cons,run_cons,ih]
    simp [Mutation.exec,Mutation.mirror,← Multiset.cons_coe]

end Runs

/-- After any mutations of a rebuilt structure, the stored vector is the sorted multiset of the
prices; each removal and replacement succeeded exactly if its price was present; and the median, for
the epoch of the structure and no other, is that of `compute_median`. The same prices inserted in
any order lead to the same structure. -/
theorem incremental_refines (initial : List Int) (epoch : Nat) (ts : List Mutation) :
    let start := (IncrementalAggregate.rebuild initial epoch, (initial : Multiset Int))
    let final := run Mutation.exec start ts
    (∀ x ∈ steps Mutation.exec start ts,
        ((x.2.apply x.1.1).2 = true ↔ x.2.Present x.1.2)) ∧
      final.1.sorted = final.2.sort ∧
      (∀ xs : List Int, (xs : Multiset Int) = final.2 →
        final.1.medianAt epoch = some (computeMedian xs)) ∧
      (∀ other, other ≠ epoch → final.1.medianAt other = none) ∧
      ∀ arrivals : List Int, (arrivals : Multiset Int) = final.2 →
        (run Mutation.exec (IncrementalAggregate.empty epoch, 0)
          (arrivals.map Mutation.insert)).1 = final.1 := by
  intro start final
  have hstart : Tracks epoch start := ⟨mirrors_rebuild initial epoch,rfl⟩
  obtain ⟨hsteps,hfinal⟩ := hstart.run ts
  have hepoch : final.1.epoch = epoch := hfinal.2
  refine ⟨hsteps,hfinal.1.sorted_eq,?_,?_,?_⟩
  · intro xs hxs
    have hmedian : final.1.medianUnchecked = computeMedian xs := hfinal.1.median hxs
    simp [IncrementalAggregate.medianAt,hepoch,hmedian]
  · intro other hother
    simp [IncrementalAggregate.medianAt,hepoch,hother.symm]
  · intro arrivals harrivals
    have hempty : Tracks epoch (IncrementalAggregate.empty epoch,0) :=
      ⟨mirrors_empty epoch,rfl⟩
    obtain ⟨-,hinserted⟩ := hempty.run (arrivals.map Mutation.insert)
    have hsame : (run Mutation.exec (IncrementalAggregate.empty epoch,0)
        (arrivals.map Mutation.insert)).2 = final.2 := by
      simp [run_insert_snd,harrivals]
    have hmirrored : Tracks epoch ((run Mutation.exec (IncrementalAggregate.empty epoch,0)
        (arrivals.map Mutation.insert)).1,final.2) := by
      rw [← hsame]
      exact hinserted
    exact hmirrored.ext hfinal

end PriceOracle.Pricing
