import Mathlib.Data.Finset.Card
import Mathlib.Logic.Function.Basic
import Mathlib.Logic.Relation

/-! # Finite graphs

Two facts about the arrows between stored records: a graph one level deep has no cycles, and a search
that marks what it visits ends. -/

/-! ## Tables one level deep

A table gives some keys a list of members. -/

namespace PriceOracle.Lib.OneLevel

variable {α : Type} {table : α → Option (List α)} {key : α} {members : List α}

def Edge (table : α → Option (List α)) (a b : α) : Prop := ∃ l, table a = some l ∧ b ∈ l

def Listed (table : α → Option (List α)) (b : α) : Prop := ∃ a, Edge table a b

def Flat (table : α → Option (List α)) : Prop := ∀ b, Listed table b → table b = none

theorem Flat.not_listed (h : Flat table) (hkey : table key = some members) : ¬Listed table key := by
  intro hlisted
  rw [h key hlisted] at hkey
  cases hkey

variable [DecidableEq α]

/-- An entry whose members are no keys keeps a table flat exactly if nothing lists its key. -/
theorem flat_update_iff (h : Flat table) (hkey : key ∉ members)
    (hmembers : ∀ b ∈ members, table b = none) :
    Flat (Function.update table key (some members)) ↔ ¬Listed table key := by
  constructor
  · rintro hflat ⟨a,l,ha,hmem⟩
    have hne : a ≠ key := by
      rintro rfl
      exact h.not_listed ha ⟨a,l,ha,hmem⟩
    have hedge : Edge (Function.update table key (some members)) a key :=
      ⟨l,by rw [Function.update_of_ne hne,ha],hmem⟩
    have hnone := hflat key ⟨a,hedge⟩
    rw [Function.update_self] at hnone
    cases hnone
  · rintro hunlisted b ⟨a,l,ha,hmem⟩
    by_cases hak : a = key
    · subst hak
      rw [Function.update_self,Option.some.injEq] at ha
      subst ha
      have hne : b ≠ a := fun hb => hkey (hb ▸ hmem)
      rw [Function.update_of_ne hne]
      exact hmembers b hmem
    · rw [Function.update_of_ne hak] at ha
      have hne : b ≠ key := by
        rintro rfl
        exact hunlisted ⟨a,l,ha,hmem⟩
      rw [Function.update_of_ne hne]
      exact h b ⟨a,l,ha,hmem⟩

end PriceOracle.Lib.OneLevel

/-! ## Marking what follows

A depth-first pass marks a node and then passes on to its successors, unless the node is marked
already. -/

namespace PriceOracle.Lib.Marking

variable {κ : Type} [DecidableEq κ] {succ : κ → List κ} {n : ℕ} {m m' u : Finset κ} {r x y : κ}

def mark (succ : κ → List κ) : ℕ → Finset κ → κ → Finset κ
  | 0, m, _ => m
  | n + 1, m, r => if r ∈ m then m else (succ r).foldl (mark succ n) (insert r m)

theorem mark_of_mem (h : r ∈ m) : mark succ n m r = m := by
  cases n with
  | zero => rfl
  | succ n => rw [mark,if_pos h]

theorem mark_succ (h : r ∉ m) :
    mark succ (n+1) m r = (succ r).foldl (mark succ n) (insert r m) := by
  rw [mark,if_neg h]

omit [DecidableEq κ] in
theorem foldl_induct {P : Finset κ → Prop} {f : Finset κ → κ → Finset κ} {xs : List κ}
    (hf : ∀ m, ∀ x ∈ xs, P m → P (f m x)) (hm : P m) : P (xs.foldl f m) := by
  induction xs generalizing m with
  | nil => exact hm
  | cons x xs ih =>
    exact ih (fun m y hy => hf m y (List.mem_cons_of_mem x hy)) (hf m x List.mem_cons_self hm)

theorem subset_mark : m ⊆ mark succ n m r := by
  induction n generalizing m r with
  | zero => exact Finset.Subset.refl m
  | succ n ih =>
    by_cases hr : r ∈ m
    · rw [mark_of_mem hr]
    · rw [mark_succ hr]
      refine foldl_induct (P := fun m' => m ⊆ m') (fun m' x _ hm' => hm'.trans ih) ?_
      exact Finset.subset_insert r m

theorem subset_foldl {xs : List κ} : m ⊆ xs.foldl (mark succ n) m :=
  foldl_induct (P := fun m' => m ⊆ m') (fun _ _ _ hm' => hm'.trans subset_mark)
    (Finset.Subset.refl m)

theorem mem_mark_self : r ∈ mark succ (n+1) m r := by
  by_cases hr : r ∈ m
  · rwa [mark_of_mem hr]
  · rw [mark_succ hr]
    exact subset_foldl (Finset.mem_insert_self r m)

/-- Whatever holds of a node passes from it to its successors, holds of all that is marked. -/
theorem mark_induct {P : κ → Prop} (hsucc : ∀ x, P x → ∀ y ∈ succ x, P y) (hr : P r)
    (hm : ∀ x ∈ m, P x) : ∀ x ∈ mark succ n m r, P x := by
  induction n generalizing m r with
  | zero => exact hm
  | succ n ih =>
    by_cases hmem : r ∈ m
    · rwa [mark_of_mem hmem]
    · rw [mark_succ hmem]
      refine foldl_induct (P := fun m' => ∀ x ∈ m', P x)
        (fun m' x hx hm' => ih (hsucc r hr x hx) hm') ?_
      rw [Finset.forall_mem_insert]
      exact ⟨hr,hm⟩

/-- All that a pass adds to `m` has its successors in `m'`. -/
def Closed (succ : κ → List κ) (m m' : Finset κ) : Prop :=
  ∀ x ∈ m', x ∉ m → ∀ y ∈ succ x, y ∈ m'

theorem card_insert_lt (hr : r ∈ u) (hmem : r ∉ m) : (u \ insert r m).card < (u \ m).card := by
  apply Finset.card_lt_card
  rw [Finset.ssubset_iff_of_subset (Finset.sdiff_subset_sdiff le_rfl (Finset.subset_insert r m))]
  exact ⟨r,by simp [hr,hmem],by simp⟩

theorem card_le_of_subset (h : m ⊆ m') : (u \ m').card ≤ (u \ m).card :=
  Finset.card_le_card (Finset.sdiff_subset_sdiff le_rfl h)

theorem foldl_closed {f : Finset κ → κ → Finset κ} {xs : List κ} (hsub : ∀ m x, m ⊆ f m x)
    (hf : ∀ m', m ⊆ m' → ∀ x ∈ xs, x ∈ f m' x ∧ Closed succ m' (f m' x)) :
    (∀ x ∈ xs, x ∈ xs.foldl f m) ∧ Closed succ m (xs.foldl f m) := by
  induction xs generalizing m with
  | nil => exact ⟨by simp,fun x hx hno => absurd hx hno⟩
  | cons x xs ih =>
    have hgrow (ys : List κ) (m : Finset κ) : m ⊆ ys.foldl f m :=
      foldl_induct (P := fun m' => m ⊆ m') (fun m' y _ hm' => hm'.trans (hsub m' y))
        (Finset.Subset.refl m)
    obtain ⟨hself,hclosed⟩ := hf m (Finset.Subset.refl m) x List.mem_cons_self
    obtain ⟨hall,hrest⟩ := ih (m := f m x) fun m' hm' y hy =>
      hf m' ((hsub m x).trans hm') y (List.mem_cons_of_mem x hy)
    refine ⟨?_,fun y hy hno z hz => ?_⟩
    · rw [List.forall_mem_cons]
      exact ⟨hgrow xs _ hself,hall⟩
    · by_cases hmid : y ∈ f m x
      · exact hgrow xs _ (hclosed y hmid hno z hz)
      · exact hrest y hy hmid z hz

/-- With enough fuel a pass leaves nothing behind it: every node that it marks has all its
successors marked. -/
theorem mark_closed (hu : ∀ x ∈ u, ∀ y ∈ succ x, y ∈ u) (hr : r ∈ u) (hn : (u \ m).card < n) :
    Closed succ m (mark succ n m r) := by
  induction n generalizing m r with
  | zero => exact absurd hn (Nat.not_lt_zero _)
  | succ n ih =>
    by_cases hmem : r ∈ m
    · rw [mark_of_mem hmem]
      exact fun x hx hno => absurd hx hno
    · rw [mark_succ hmem]
      have hless := card_insert_lt hr hmem
      have hloop (m' : Finset κ) (hm' : insert r m ⊆ m') (x : κ) (hx : x ∈ succ r) :
          x ∈ mark succ n m' x ∧ Closed succ m' (mark succ n m' x) := by
        have hcard := card_le_of_subset (u := u) hm'
        refine ⟨?_,ih (hu r hr x hx) (by omega)⟩
        obtain ⟨k,rfl⟩ : ∃ k, n = k+1 := ⟨n - 1,by omega⟩
        exact mem_mark_self
      obtain ⟨hall,hclosed⟩ := foldl_closed (fun _ _ => subset_mark) hloop
      intro x hx hno y hy
      by_cases hxr : x = r
      · subst hxr
        exact hall y hy
      · exact hclosed x hx (by simp [hxr,hno]) y hy

end PriceOracle.Lib.Marking
