import PriceOracle.Lib.Transaction
import Mathlib.Logic.Function.Basic
import Mathlib.Order.Defs.PartialOrder

/-! # Footprints

A layout divides a state into named regions. `Touches L T m` says that a successful run of `m`
leaves every region outside the list `T` as it was; it is `Preserves` at the preorder
`L.agreeOff T`, so the rules for transactions apply to it as they stand. Inside a region that is a
partial map, the footprint of a write is its key. -/

namespace PriceOracle.Lib.Footprint

open Transaction

structure Layout (ρ σ : Type) where
  View : ρ → Type
  view : (r : ρ) → σ → View r

variable {ε ρ σ α : Type} {L : Layout ρ σ} {T T' : List ρ}

/-- The two states differ at most in the regions of `T`. -/
def Layout.agreeOff (L : Layout ρ σ) (T : List ρ) (s s' : σ) : Prop :=
  ∀ r, r ∉ T → L.view r s' = L.view r s

instance agreeOff_refl : Std.Refl (L.agreeOff T) :=
  ⟨fun _ _ _ => rfl⟩

instance agreeOff_trans : IsTrans σ (L.agreeOff T) :=
  ⟨fun _ _ _ hst htu r hr => (htu r hr).trans (hst r hr)⟩

abbrev Touches (L : Layout ρ σ) (T : List ρ) (m : Tx ε σ α) : Prop :=
  Preserves (L.agreeOff T) m

theorem Touches.mono {m : Tx ε σ α} (h : Touches L T m) (hT : T ⊆ T') : Touches L T' m :=
  h.weaken fun _ _ hs r hr => hs r fun hrT => hr (hT hrT)

section Keys

variable {κ ν : Type} [DecidableEq κ] {m : κ → Option ν} {i j : κ} {v x : ν}

theorem stored_of_update (h : Function.update m i (some v) j = some x) :
    j = i ∧ x = v ∨ m j = some x := by
  by_cases hj : j = i
  · rw [hj,Function.update_self,Option.some.injEq] at h
    exact .inl ⟨hj,h.symm⟩
  · rw [Function.update_of_ne hj] at h
    exact .inr h

theorem stored_of_erase (h : Function.update m i none j = some x) : j ≠ i ∧ m j = some x := by
  by_cases hj : j = i
  · rw [hj,Function.update_self] at h
    cases h
  · rw [Function.update_of_ne hj] at h
    exact ⟨hj,h⟩

end Keys

end PriceOracle.Lib.Footprint

/-! ## Journals of a map

A journal lists the writes of a map together with the map each of them found. -/

namespace PriceOracle.Lib.Journal

variable {κ ν ρ : Type} [DecidableEq κ]

/-- One write with the map it was made in. -/
structure Write (κ ν : Type) where
  before : κ → Option ν
  key : κ
  value : ν

/-- The writes lead from the first map to the second, each made in the map the one before left. -/
inductive Chained : (κ → Option ν) → List (Write κ ν) → (κ → Option ν) → Prop
  | nil (m : κ → Option ν) : Chained m [] m
  | cons {m m' : κ → Option ν} {w : Write κ ν} {ws : List (Write κ ν)} (hbefore : w.before = m)
      (hrest : Chained (Function.update m w.key (some w.value)) ws m') : Chained m (w :: ws) m'

variable {m m' m'' : κ → Option ν} {ws us : List (Write κ ν)}

theorem Chained.append (h : Chained m ws m') (h' : Chained m' us m'') :
    Chained m (ws ++ us) m'' := by
  induction h with
  | nil => exact h'
  | cons hbefore hrest ih => exact .cons hbefore (ih h')

theorem Chained.eq_of_nil (h : Chained m [] m') : m' = m := by
  cases h
  rfl

theorem chained_singleton (m : κ → Option ν) (k : κ) (v : ν) :
    Chained m [⟨m,k,v⟩] (Function.update m k (some v)) :=
  .cons rfl (.nil _)

variable (rank : ν → ρ)

theorem map_update (m : κ → Option ν) (k : κ) (v : ν) :
    (fun j => (Function.update m k (some v) j).map rank) =
      Function.update (fun j => (m j).map rank) k (some (rank v)) := by
  funext j
  by_cases hj : j = k
  · subst hj
    simp
  · simp [hj]

variable [Preorder ρ]

/-- Measures arriving for their keys, none of them below the one it follows. -/
def InTurn : (κ → Option ρ) → List (κ × ρ) → Prop
  | _, [] => True
  | latest, x :: xs =>
    (∀ r ∈ latest x.1, r ≤ x.2) ∧ InTurn (Function.update latest x.1 (some x.2)) xs

theorem Chained.inTurn_iff (h : Chained m ws m') :
    (∀ w ∈ ws, ∀ old ∈ w.before w.key, rank old ≤ rank w.value) ↔
      InTurn (fun k => (m k).map rank) (ws.map fun w => (w.key,rank w.value)) := by
  induction h with
  | nil => simp [InTurn]
  | cons hbefore hrest ih =>
    rw [List.forall_mem_cons,List.map_cons,InTurn,ih,map_update,hbefore]
    simp

/-- If no write lowers the measure at its key, no key loses measure between the two maps. -/
theorem Chained.kept (h : Chained m ws m')
    (hws : ∀ w ∈ ws, ∀ old ∈ w.before w.key, rank old ≤ rank w.value) :
    ∀ k, ∀ old ∈ m k, ∃ new ∈ m' k, rank old ≤ rank new := by
  induction h with
  | nil => exact fun k old hold => ⟨old,hold,le_refl _⟩
  | @cons m m' w ws hbefore hrest ih =>
    rw [List.forall_mem_cons,hbefore] at hws
    intro k old hold
    by_cases hk : k = w.key
    · subst hk
      obtain ⟨new,hnew,hle⟩ := ih hws.2 w.key w.value (by simp)
      exact ⟨new,hnew,le_trans (hws.1 old hold) hle⟩
    · exact ih hws.2 k old (by simpa [hk] using hold)

end PriceOracle.Lib.Journal
