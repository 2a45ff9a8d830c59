import Mathlib.Data.List.Basic
import Mathlib.Data.List.Pairwise
import Mathlib.Data.List.Nodup
import Mathlib.Logic.Function.Basic

/-! # Tables in key order

A table is the list of its rows in the order of a key of two numbers. Two tables in order with the
same rows are one list, so inserting and deleting may be reasoned about by membership. -/

namespace PriceOracle.Lib.KeyedRows

section Order

def Before (a b : Int × Int) : Prop := a.1 < b.1 ∨ (a.1 = b.1 ∧ a.2 < b.2)

deriving instance Decidable for Before

variable {a b c : Int × Int}

theorem Before.trans (hab : Before a b) (hbc : Before b c) : Before a c := by
  unfold Before at *
  omega

theorem Before.irrefl (a : Int × Int) : ¬ Before a a := by
  unfold Before
  omega

theorem Before.asymm (h : Before a b) : ¬ Before b a := fun h' => Before.irrefl a (h.trans h')

theorem Before.fst_le (h : Before a b) : a.1 ≤ b.1 := by
  unfold Before at h
  omega

theorem before_or (h : a ≠ b) : Before a b ∨ Before b a := by
  rw [ne_eq,Prod.mk.injEq] at h
  unfold Before
  omega

end Order

section Rows

variable {α : Type} {key : α → Int × Int}

/-- The rows follow their keys, which are distinct. -/
def InOrder (key : α → Int × Int) (rows : List α) : Prop :=
  rows.Pairwise fun a b => Before (key a) (key b)

/-- The place of a new row is in front of the first one with a larger key. -/
def insertRow (key : α → Int × Int) (row : α) : List α → List α
  | [] => [row]
  | other :: rest =>
    if Before (key row) (key other) then row :: other :: rest
    else other :: insertRow key row rest

variable {row : α} {rows rows' : List α}

@[simp] theorem mem_insertRow {x : α} : x ∈ insertRow key row rows ↔ x = row ∨ x ∈ rows := by
  induction rows with
  | nil => simp [insertRow]
  | cons other rest ih =>
    unfold insertRow
    split_ifs
    · simp
    · simp [ih,or_left_comm]

theorem InOrder.insertRow (h : InOrder key rows) (hnew : ∀ x ∈ rows, key x ≠ key row) :
    InOrder key (insertRow key row rows) := by
  induction rows with
  | nil => exact List.pairwise_singleton _ _
  | cons other rest ih =>
    obtain ⟨hfirst,hrest⟩ := List.pairwise_cons.mp h
    rw [List.forall_mem_cons] at hnew
    unfold KeyedRows.insertRow
    split_ifs with hbefore
    · refine List.pairwise_cons.mpr ⟨fun x hx => ?_,h⟩
      rcases List.mem_cons.mp hx with rfl | hx
      · exact hbefore
      · exact hbefore.trans (hfirst x hx)
    · refine List.pairwise_cons.mpr ⟨fun x hx => ?_,ih hrest hnew.2⟩
      rcases mem_insertRow.mp hx with rfl | hx
      · exact (before_or hnew.1).resolve_right hbefore
      · exact hfirst x hx

theorem InOrder.filter (h : InOrder key rows) (p : α → Bool) : InOrder key (rows.filter p) :=
  List.Pairwise.filter p h

/-- Rows in order have one row a key. -/
theorem InOrder.eq_of_key (h : InOrder key rows) {x y : α} (hx : x ∈ rows) (hy : y ∈ rows)
    (hkey : key x = key y) : x = y := by
  induction rows with
  | nil => exact absurd hx List.not_mem_nil
  | cons other rest ih =>
    obtain ⟨hfirst,hrest⟩ := List.pairwise_cons.mp h
    rcases List.mem_cons.mp hx with hx | hx
    · rcases List.mem_cons.mp hy with hy | hy
      · exact hx.trans hy.symm
      · exact absurd (hkey ▸ hx ▸ hfirst y hy) (Before.irrefl _)
    · rcases List.mem_cons.mp hy with hy | hy
      · exact absurd (hkey ▸ hy ▸ hfirst x hx) (Before.irrefl _)
      · exact ih hrest hx hy

theorem InOrder.nodup (h : InOrder key rows) : rows.Nodup := by
  refine List.Pairwise.imp ?_ h
  rintro a b hab rfl
  exact Before.irrefl _ hab

/-- Rows with different keys may be inserted in either order. -/
theorem insertRow_comm {row' : α} (h : key row ≠ key row') :
    insertRow key row (insertRow key row' rows) = insertRow key row' (insertRow key row rows) := by
  induction rows with
  | nil => rcases before_or h with hbefore | hbefore <;> simp [insertRow,hbefore,hbefore.asymm]
  | cons other rest ih =>
    by_cases hrow : Before (key row) (key other)
    · by_cases hrow' : Before (key row') (key other)
      · rcases before_or h with hbefore | hbefore
        · simp [insertRow,hrow,hrow',hbefore,hbefore.asymm]
        · simp [insertRow,hrow,hrow',hbefore,hbefore.asymm]
      · have hnot : ¬ Before (key row') (key row) := fun hb => hrow' (hb.trans hrow)
        simp [insertRow,hrow,hrow',hnot]
    · by_cases hrow' : Before (key row') (key other)
      · have hnot : ¬ Before (key row) (key row') := fun hb => hrow (hb.trans hrow')
        simp [insertRow,hrow,hrow',hnot]
      · simp [insertRow,hrow,hrow',ih]

theorem filter_insertRow_of_neg {p : α → Bool} (h : ¬ p row = true) :
    (insertRow key row rows).filter p = rows.filter p := by
  induction rows with
  | nil => rw [insertRow,List.filter_cons_of_neg h]
  | cons other rest ih =>
    unfold insertRow
    split_ifs
    · rw [List.filter_cons_of_neg h]
    · rw [List.filter_cons,List.filter_cons,ih]

theorem InOrder.filter_of_before_first {other : α} {place : Int × Int}
    (h : InOrder key (other :: rows)) (hbefore : Before place (key other)) :
    ((other :: rows).filter fun x => Before (key x) place) = [] ∧
      ((other :: rows).filter fun x => Before place (key x)) = other :: rows := by
  obtain ⟨hfirst,-⟩ := List.pairwise_cons.mp h
  have hall : ∀ x ∈ other :: rows, Before place (key x) := by
    rw [List.forall_mem_cons]
    exact ⟨hbefore,fun x hx => hbefore.trans (hfirst x hx)⟩
  refine ⟨List.filter_eq_nil_iff.mpr fun x hx => ?_,List.filter_eq_self.mpr fun x hx => ?_⟩
  · simpa using (hall x hx).asymm
  · simpa using hall x hx

/-- The rows with the lower keys come first. -/
theorem InOrder.split_of (h : InOrder key rows) {p : Int × Int → Bool}
    (hdown : ∀ a b, Before a b → p b = true → p a = true) :
    rows = rows.filter (fun x => p (key x)) ++ rows.filter fun x => !p (key x) := by
  induction rows with
  | nil => rfl
  | cons other rest ih =>
    obtain ⟨hfirst,hrest⟩ := List.pairwise_cons.mp h
    by_cases hp : p (key other) = true
    · rw [List.filter_cons_of_pos (p := fun x => p (key x)) hp,
        List.filter_cons_of_neg (p := fun x => !p (key x)) (by simp [hp]),List.cons_append,
        ← ih hrest]
    · have hnone : ∀ x ∈ rest, ¬ p (key x) = true :=
        fun x hx hpx => hp (hdown _ _ (hfirst x hx) hpx)
      rw [List.filter_cons_of_neg (p := fun x => p (key x)) hp,
        List.filter_cons_of_pos (p := fun x => !p (key x)) (by simp [hp]),
        List.filter_eq_nil_iff.mpr hnone,
        List.filter_eq_self.mpr fun x hx => by simpa using hnone x hx,List.nil_append]

theorem InOrder.split (h : InOrder key rows) {place : Int × Int}
    (hnew : ∀ x ∈ rows, key x ≠ place) :
    rows = rows.filter (fun x => Before (key x) place) ++
      rows.filter fun x => Before place (key x) := by
  have hparts := h.split_of (p := fun a => decide (Before a place)) fun a b hab hb => by
    simpa using hab.trans (by simpa using hb)
  refine hparts.trans (congrArg _ (List.filter_congr fun x hx => ?_))
  rcases before_or (hnew x hx) with hbefore | hbefore <;> simp [hbefore,hbefore.asymm]

/-- A new row stands between those before it and those after it. -/
theorem InOrder.insertRow_eq (h : InOrder key rows) (hnew : ∀ x ∈ rows, key x ≠ key row) :
    KeyedRows.insertRow key row rows = rows.filter (fun x => Before (key x) (key row)) ++
      row :: rows.filter fun x => Before (key row) (key x) := by
  induction rows with
  | nil => rfl
  | cons other rest ih =>
    rw [List.forall_mem_cons] at hnew
    unfold KeyedRows.insertRow
    rcases before_or hnew.1 with hbefore | hbefore
    · rw [if_neg hbefore.asymm,List.filter_cons_of_pos (by simpa using hbefore),
        List.filter_cons_of_neg (by simpa using hbefore.asymm),List.cons_append,
        ih (List.pairwise_cons.mp h).2 hnew.2]
    · obtain ⟨hbefore',hafter⟩ := h.filter_of_before_first hbefore
      rw [if_pos hbefore,hbefore',hafter,List.nil_append]

theorem InOrder.ext (h : InOrder key rows) (h' : InOrder key rows')
    (hmem : ∀ x, x ∈ rows ↔ x ∈ rows') : rows = rows' := by
  have hperm : rows.Perm rows' := (List.perm_ext_iff_of_nodup h.nodup h'.nodup).mpr hmem
  exact hperm.eq_of_pairwise (fun a b _ _ hab hba => absurd hba hab.asymm) h h'

end Rows

end PriceOracle.Lib.KeyedRows

/-! ## Directories

A table beside a list of the keys it holds. -/

namespace PriceOracle.Lib.Directory

variable {κ ν : Type} {table : κ → Option ν} {index : List κ} {k : κ} {v : ν}

/-- `index` names the stored keys of `table`, each once. -/
structure Names (table : κ → Option ν) (index : List κ) : Prop where
  nodup : index.Nodup
  listed : ∀ k, k ∈ index ↔ (table k).isSome = true

theorem names_empty (h : ∀ k, table k = none) : Names table [] :=
  ⟨List.nodup_nil,fun k => by simp [h k]⟩

theorem Names.sweep (h : Names table index) (p : κ → Bool) :
    Names (fun k => if p k then none else table k) (index.filter fun k => !p k) := by
  refine ⟨h.nodup.filter _,fun j => ?_⟩
  by_cases hj : p j = true
  · simp [hj]
  · simp [hj,h.listed j]

variable [DecidableEq κ]

theorem Names.put (h : Names table index) (k : κ) (v : ν) :
    Names (Function.update table k (some v)) (if k ∈ index then index else index ++ [k]) := by
  by_cases hk : k ∈ index
  · rw [if_pos hk]
    refine ⟨h.nodup,fun j => ?_⟩
    by_cases hj : j = k
    · simp [hj,hk]
    · simp [hj,h.listed j]
  · rw [if_neg hk]
    refine ⟨h.nodup.append (List.nodup_singleton k) (by simpa using hk),fun j => ?_⟩
    by_cases hj : j = k
    · simp [hj]
    · simp [hj,h.listed j]

theorem Names.overwrite (h : Names table index) (hk : (table k).isSome = true) (v : ν) :
    Names (Function.update table k (some v)) index := by
  simpa [(h.listed k).2 hk] using h.put k v

theorem Names.erase (h : Names table index) (k : κ) :
    Names (Function.update table k none) (index.filter (· ≠ k)) := by
  refine ⟨h.nodup.filter _,fun j => ?_⟩
  by_cases hj : j = k
  · simp [hj]
  · simp [hj,h.listed j]

theorem Names.not_of_erase (h : Names table index) (hk : (table k).isSome = true) :
    ¬ Names (Function.update table k none) index := by
  intro h'
  have hlisted := (h'.listed k).1 ((h.listed k).2 hk)
  simp at hlisted

end PriceOracle.Lib.Directory
