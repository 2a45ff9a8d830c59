import PriceOracle.Lib.Footprint
import PriceOracle.Lib.Run
import Mathlib.Algebra.BigOperators.Pi
import Mathlib.Algebra.Order.BigOperators.Group.Finset
import Mathlib.Algebra.Order.Group.Defs
import Mathlib.Data.Set.Card

/-! # Counting, backing and pledges

Counters that stand for the size of a set, accounts that a single balance covers, and values that are
pledged under a key. -/

/-! ## Counting the entries of a table

How many entries of a table have a property, and what one write does to that number. -/

namespace PriceOracle.Lib.Tally

variable {κ β : Type}

def entries (table : κ → Option β) (P : β → Prop) : Set κ := {k | ∃ b, table k = some b ∧ P b}

noncomputable def tally (table : κ → Option β) (P : β → Prop) : ℕ∞ := (entries table P).encard

theorem tally_eq_zero {table : κ → Option β} {P : β → Prop} (h : ∀ k, table k = none) :
    tally table P = 0 := by
  rw [tally,Set.encard_eq_zero,Set.eq_empty_iff_forall_notMem]
  rintro k ⟨b,hb,-⟩
  rw [h k] at hb
  cases hb

section Update

variable [DecidableEq κ] {table : κ → Option β} {P : β → Prop} {key : κ} {entry : β}

theorem entries_update_of (h : P entry) :
    entries (Function.update table key (some entry)) P = insert key (entries table P) := by
  ext k
  by_cases hk : k = key
  · subst hk
    simp [entries,h]
  · simp [entries,hk]

theorem entries_update_of_not (h : ¬P entry) :
    entries (Function.update table key (some entry)) P = entries table P \ {key} := by
  ext k
  by_cases hk : k = key
  · subst hk
    simp [entries,h]
  · simp [entries,hk]

open Classical in
/-- A write adds what the new entry counts for and takes away what the old one did. -/
theorem tally_update (table : κ → Option β) (P : β → Prop) (key : κ) (entry : β) :
    tally (Function.update table key (some entry)) P + (if key ∈ entries table P then 1 else 0) =
      tally table P + if P entry then 1 else 0 := by
  unfold tally
  by_cases hnew : P entry
  · rw [entries_update_of hnew,if_pos hnew]
    by_cases hold : key ∈ entries table P
    · rw [if_pos hold,Set.insert_eq_of_mem hold]
    · rw [if_neg hold,add_zero,Set.encard_insert_of_notMem hold]
  · rw [entries_update_of_not hnew,if_neg hnew,add_zero]
    by_cases hold : key ∈ entries table P
    · rw [if_pos hold,Set.encard_sdiff_singleton_add_one hold]
    · rw [if_neg hold,add_zero,Set.sdiff_singleton_eq_self hold]

end Update

end PriceOracle.Lib.Tally

/-! ## Funds that back what is owed

A ledger says what is owed on each account, over a type of accounts that need not be finite. -/

namespace PriceOracle.Lib.Backing

open scoped BigOperators

variable {α G : Type} [AddCommGroup G] {owed owed' : α → G} {funds funds' d : G} {x y : α}

theorem sum_update_add [DecidableEq α] (owed : α → G) (x : α) (d : G) (S : Finset α) :
    ∑ z ∈ S, Function.update owed x (owed x + d) z =
      ∑ z ∈ S, owed z + if x ∈ S then d else 0 := by
  have hsplit (z : α) :
      Function.update owed x (owed x + d) z = owed z + (Pi.single x d : α → G) z := by
    by_cases hz : z = x
    · subst hz
      simp
    · simp [hz]
  simp only [hsplit,Finset.sum_add_distrib,Finset.sum_pi_single']

variable [PartialOrder G]

structure Backed (owed : α → G) (funds : G) : Prop where
  nonneg : ∀ x, 0 ≤ owed x
  covered : ∀ S : Finset α, ∑ x ∈ S, owed x ≤ funds

theorem Backed.le (h : Backed owed funds) (x : α) : owed x ≤ funds := by
  simpa using h.covered {x}

theorem Backed.pair_le [DecidableEq α] (h : Backed owed funds) (hxy : x ≠ y) :
    owed x + owed y ≤ funds := by
  simpa [Finset.sum_pair hxy] using h.covered {x, y}

variable [IsOrderedAddMonoid G]

theorem Backed.relax (h : Backed owed funds) (hnonneg : ∀ x, 0 ≤ owed' x)
    (hle : ∀ x, owed' x ≤ owed x) (hfunds : funds ≤ funds') : Backed owed' funds' where
  nonneg := hnonneg
  covered S := calc
    ∑ x ∈ S, owed' x ≤ ∑ x ∈ S, owed x := Finset.sum_le_sum fun x _ => hle x
    _ ≤ funds := h.covered S
    _ ≤ funds' := hfunds

/-- An account changes, and the funds change with it. -/
theorem Backed.post [DecidableEq α] {v : G} (h : Backed owed funds) (hv : 0 ≤ v) :
    Backed (Function.update owed x v) (funds + (v - owed x)) := by
  have hnonneg (z : α) : 0 ≤ Function.update owed x v z := by
    by_cases hz : z = x
    · subst hz
      simpa using hv
    · simpa [hz] using h.nonneg z
  have hsum (S : Finset α) : ∑ z ∈ S, Function.update owed x v z =
      ∑ z ∈ S, owed z + if x ∈ S then v - owed x else 0 := by
    rw [← sum_update_add,add_sub_cancel]
  refine ⟨hnonneg,fun S => ?_⟩
  -- The account itself can be added to the set, for it is not negative afterwards.
  calc
    ∑ z ∈ S, Function.update owed x v z ≤ ∑ z ∈ insert x S, Function.update owed x v z :=
        Finset.sum_le_sum_of_subset_of_nonneg (Finset.subset_insert x S) fun z _ _ => hnonneg z
    _ = ∑ z ∈ insert x S, owed z + (v - owed x) := by
        rw [hsum,if_pos (Finset.mem_insert_self x S)]
    _ ≤ funds + (v - owed x) := add_le_add (h.covered _) le_rfl

end PriceOracle.Lib.Backing

/-! ## Pledges

A book of pledges maps a key to the value pledged under it. -/

namespace PriceOracle.Lib.Pledge

open Run

variable {κ ν : Type} [DecidableEq κ]

abbrev Book (κ ν : Type) := κ → Option ν

inductive Event (κ ν : Type)
  | place (k : κ) (v : ν)
  | take (k : κ) (v : ν)
  | drop (k : κ)

/-- The book after an event. -/
def next (b : Book κ ν) : Event κ ν → Book κ ν
  | .place k v => Function.update b k (some v)
  | .take k _ => Function.update b k none
  | .drop k => Function.update b k none

omit [DecidableEq κ] in
/-- A pledge is placed where none is open, and taken with the value it was placed with. -/
def Allowed (b : Book κ ν) : Event κ ν → Prop
  | .place k _ => b k = none
  | .take k v => b k = some v
  | .drop _ => True

/-- Every event of the history is allowed in the book it meets. -/
def Lawful (b : Book κ ν) (es : List (Event κ ν)) : Prop :=
  ∀ x ∈ steps next b es, Allowed x.1 x.2

variable {b : Book κ ν} {es fs : List (Event κ ν)} {k : κ} {v v' : ν}

@[simp] theorem lawful_nil : Lawful b ([] : List (Event κ ν)) := by
  simp [Lawful]

@[simp] theorem lawful_cons (e : Event κ ν) :
    Lawful b (e :: es) ↔ Allowed b e ∧ Lawful (next b e) es := by
  simp [Lawful]

theorem lawful_append :
    Lawful b (es ++ fs) ↔ Lawful b es ∧ Lawful (run next b es) fs := by
  unfold Lawful
  rw [steps_append,List.forall_mem_append]

theorem open_of_next {e : Event κ ν} (h : next b e k = some v) : b k = some v ∨ e = .place k v := by
  cases e with
  | place j u =>
    rcases Footprint.stored_of_update h with ⟨rfl,rfl⟩ | hold
    · exact .inr rfl
    · exact .inl hold
  | take j u => exact .inl (Footprint.stored_of_erase h).2
  | drop j =>
    by_cases hk : k = j
    · simp [next,hk] at h
    · exact .inl (by simpa [next,hk] using h)

/-- An open pledge was open from the start or has been placed. -/
theorem placed_of_open (h : run next b es k = some v) : b k = some v ∨ .place k v ∈ es := by
  induction es generalizing b with
  | nil => exact .inl h
  | cons e es ih =>
    rw [List.mem_cons]
    rcases ih h with hopen | hplaced
    · rcases open_of_next hopen with hopen | rfl
      · exact .inl hopen
      · exact .inr (.inl rfl)
    · exact .inr (.inr hplaced)

theorem placed_of_taken (h : Lawful b (es ++ .take k v :: fs)) :
    b k = some v ∨ .place k v ∈ es := by
  rw [lawful_append,lawful_cons] at h
  exact placed_of_open h.2.1

/-- What is taken and not placed again is closed. -/
theorem closed_of_taken (htaken : .take k v ∈ es) (hplaced : ∀ v, .place k v ∉ es) :
    run next b es k = none := by
  obtain ⟨as,bs,rfl⟩ := List.append_of_mem htaken
  rw [Option.eq_none_iff_forall_ne_some]
  intro u hu
  rw [run_append,run_cons] at hu
  rcases placed_of_open hu with hopen | hmem
  · simp [next] at hopen
  · exact hplaced u (List.mem_append_right _ (List.mem_cons_of_mem _ hmem))

/-- Takings in a row are of different keys. -/
theorem nodup_of_takes {α : Type} {key : α → κ} {value : α → ν} {xs : List α}
    (h : Lawful b (xs.map fun x => .take (key x) (value x))) : (xs.map key).Nodup := by
  induction xs generalizing b with
  | nil => exact .nil
  | cons x xs ih =>
    rw [List.map_cons,lawful_cons] at h
    rw [List.map_cons,List.nodup_cons]
    refine ⟨fun hx => ?_,ih h.2⟩
    obtain ⟨y,hy,hkey⟩ := List.mem_map.1 hx
    obtain ⟨as,bs,rfl⟩ := List.append_of_mem hy
    rw [List.map_append,List.map_cons,hkey] at h
    rcases placed_of_taken h.2 with hopen | hplaced
    · simp [next] at hopen
    · simp at hplaced

end PriceOracle.Lib.Pledge
