import Mathlib.Data.List.Perm.Subperm

/-! # Masks

A mask keeps some positions of a list. It is leading if no position is kept after one that is
dropped; among distinct elements these are the masks under which the kept elements are the first
elements of the list. -/

namespace PriceOracle.Lib.Mask

variable {α β : Type} {keep : List Bool} {xs : List α}

def retain (keep : List Bool) (xs : List α) : List α :=
  ((xs.zip keep).filter Prod.snd).map Prod.fst

def Leading (keep : List Bool) : Prop := keep.Pairwise fun a b => b = true → a = true

deriving instance Decidable for Leading

@[simp] theorem retain_nil_left (xs : List α) : retain [] xs = [] := by
  simp [retain]

@[simp] theorem retain_nil_right (keep : List Bool) : retain keep ([] : List α) = [] := by
  simp [retain]

@[simp] theorem retain_cons (b : Bool) (keep : List Bool) (x : α) (xs : List α) :
    retain (b :: keep) (x :: xs) = if b then x :: retain keep xs else retain keep xs := by
  cases b <;> simp [retain]

theorem retain_map (f : α → β) (keep : List Bool) (xs : List α) :
    retain keep (xs.map f) = (retain keep xs).map f := by
  induction xs generalizing keep with
  | nil => simp
  | cons x xs ih =>
    cases keep with
    | nil => simp
    | cons b keep => cases b <;> simp [ih]

theorem retain_sublist (keep : List Bool) (xs : List α) : (retain keep xs).Sublist xs := by
  induction xs generalizing keep with
  | nil => simp
  | cons x xs ih =>
    cases keep with
    | nil => simp
    | cons b keep =>
      cases b with
      | true => simpa using ih keep
      | false => simpa using (ih keep).cons x

/-- A mask keeps as many elements of one list as of another of the same length. -/
theorem length_retain_congr {ys : List β}
    (h : xs.length = ys.length) : (retain keep xs).length = (retain keep ys).length := by
  induction xs generalizing keep ys with
  | nil => rw [List.length_eq_zero_iff.1 h.symm]; simp
  | cons x xs ih =>
    cases ys with
    | nil => cases h
    | cons y ys =>
      cases keep with
      | nil => simp
      | cons b keep =>
        have hrest : (retain keep xs).length = (retain keep ys).length := ih (Nat.succ_inj.1 h)
        cases b <;> simp [hrest]

theorem retain_eq_self (h : (retain keep xs).length = xs.length) : retain keep xs = xs :=
  (retain_sublist keep xs).eq_of_length h

theorem retain_all (xs : List α) (ys : List β) (h : ys.length = xs.length) :
    retain (xs.map fun _ => true) ys = ys := by
  induction xs generalizing ys with
  | nil =>
    rw [List.length_eq_zero_iff.1 h]
    simp
  | cons x xs ih =>
    cases ys with
    | nil => simp at h
    | cons y ys => simpa using ih ys (by simpa using h)

theorem leading_cons (b : Bool) (keep : List Bool) :
    Leading (b :: keep) ↔ (b = false → ∀ c ∈ keep, c = false) ∧ Leading keep := by
  unfold Leading
  cases b <;> simp

theorem retain_of_all_false (h : ∀ c ∈ keep, c = false) (xs : List α) : retain keep xs = [] := by
  induction xs generalizing keep with
  | nil => simp
  | cons x xs ih =>
    cases keep with
    | nil => simp
    | cons b keep =>
      rw [List.forall_mem_cons] at h
      rw [retain_cons,h.1]
      simpa using ih h.2

theorem all_false_of_retain_nil (hlen : keep.length = xs.length)
    (h : retain keep xs = []) : ∀ c ∈ keep, c = false := by
  induction xs generalizing keep with
  | nil =>
    rw [List.length_eq_zero_iff.1 hlen]
    simp
  | cons x xs ih =>
    cases keep with
    | nil => simp
    | cons b keep =>
      cases b with
      | true => simp at h
      | false =>
        rw [List.forall_mem_cons]
        exact ⟨rfl,ih (by simpa using hlen) (by simpa using h)⟩

/-- Under a leading mask every kept element meets itself in the list. -/
theorem zipWith_retain (h : Leading keep) (f : α → α → β) (xs : List α) :
    List.zipWith f xs (retain keep xs) = (retain keep xs).map fun x => f x x := by
  induction xs generalizing keep with
  | nil => simp
  | cons x xs ih =>
    cases keep with
    | nil => simp
    | cons b keep =>
      rw [leading_cons] at h
      cases b with
      | true => simpa using ih h.2
      | false => simp [retain_of_all_false (h.1 rfl)]

/-- Among distinct elements only a leading mask keeps the first ones. -/
theorem leading_of_subset_take (hnodup : xs.Nodup)
    (hlen : keep.length = xs.length) (h : retain keep xs ⊆ xs.take (retain keep xs).length) :
    Leading keep := by
  induction xs generalizing keep with
  | nil =>
    rw [List.length_eq_zero_iff.1 hlen]
    exact List.Pairwise.nil
  | cons x xs ih =>
    cases keep with
    | nil => simp at hlen
    | cons b keep =>
      have hlen' : keep.length = xs.length := by simpa using hlen
      have hkept : retain keep xs ⊆ xs := (retain_sublist keep xs).subset
      rw [List.nodup_cons] at hnodup
      rw [leading_cons]
      cases b with
      | true =>
        refine ⟨by simp,ih hnodup.2 hlen' fun y hy => ?_⟩
        have hmem : y ∈ x :: xs.take (retain keep xs).length := by
          simpa using h (by simpa using Or.inr hy)
        rcases List.mem_cons.1 hmem with rfl | hy'
        · exact absurd (hkept hy) hnodup.1
        · exact hy'
      | false =>
        -- the head is dropped, so the kept elements fit into one position less than they take
        have hnil : retain keep xs = [] := by
          cases hm : retain keep xs with
          | nil => rfl
          | cons y ys =>
            have hfit : retain keep xs ⊆ xs.take ys.length := by
              intro z hz
              have hz' : z ∈ (x :: xs).take (retain keep xs).length := by
                simpa using h (by simpa using hz)
              rw [hm,List.length_cons,List.take_succ_cons] at hz'
              rcases List.mem_cons.1 hz' with rfl | hz'
              · exact absurd (hkept hz) hnodup.1
              · exact hz'
            have hcard := ((hnodup.2.sublist (retain_sublist keep xs)).subperm hfit).length_le
            rw [hm,List.length_cons,List.length_take] at hcard
            omega
        have hall := all_false_of_retain_nil hlen' hnil
        refine ⟨fun _ => hall,?_⟩
        refine ih hnodup.2 hlen' ?_
        rw [hnil]
        exact List.nil_subset _

end PriceOracle.Lib.Mask
