import PriceOracle.Aggregation.HardBand

/-! # Versions of an aggregate

Consumers compare versions to learn that a price has changed. Rounds and snapshots count changes of
the price and corrections always count; the trigger starts over at zero. A run that triggers only
assets without an aggregate never moves a version back. -/

namespace PriceOracle.Aggregation

open Lib.Transaction Lib.Run Lib.MachineInt Model

/-- The later aggregate has at least the version of the earlier one, and a greater one if the price
differs, unless the counter is saturated. -/
structure Supersedes (a b : AggregatePrice) : Prop where
  le : a.version ≤ b.version
  lt_of_ne : b.price ≠ a.price → a.version < b.version ∨ a.version.toNat = u32Max

namespace Supersedes

variable {a b c : AggregatePrice}

theorem refl (a : AggregatePrice) : Supersedes a a :=
  ⟨UInt32.le_refl _,fun h => absurd rfl h⟩

theorem trans (hab : Supersedes a b) (hbc : Supersedes b c) : Supersedes a c := by
  refine ⟨UInt32.le_trans hab.le hbc.le,fun hne => ?_⟩
  by_cases hprice : b.price = a.price
  · -- the price changed in the second step, from a version no smaller than the first
    rw [← hprice] at hne
    have hle := UInt32.le_iff_toNat_le.1 hab.le
    rcases hbc.lt_of_ne hne with hlt | hmax
    · exact Or.inl (UInt32.lt_of_le_of_lt hab.le hlt)
    · by_cases heq : a.version.toNat = u32Max
      · exact Or.inr heq
      · rw [UInt32.lt_iff_toNat_lt]
        have hcb := UInt32.le_iff_toNat_le.1 hbc.le
        omega
  · rcases hab.lt_of_ne hprice with hlt | hmax
    · exact Or.inl (UInt32.lt_of_lt_of_le hlt hbc.le)
    · exact Or.inr hmax

theorem of_satSucc (h : b.version = satSucc a.version) : Supersedes a b := by
  refine ⟨h ▸ le_satSucc _,fun _ => ?_⟩
  by_cases hmax : a.version.toNat = u32Max
  · exact Or.inr hmax
  · exact Or.inl (h ▸ lt_satSucc hmax)

theorem of_nextVersion (h : b.version = nextVersion a b.price) : Supersedes a b := by
  unfold nextVersion at h
  split_ifs at h with hne
  · exact of_satSucc h
  · rw [not_not] at hne
    exact ⟨h ▸ UInt32.le_refl _,fun hne' => absurd hne hne'⟩

end Supersedes

/-- A stored aggregate of `asset` stays stored and is superseded only. -/
def VersionAdvances (asset : Address) (st st' : Store) : Prop :=
  ∀ a ∈ st.aggregate asset, ∃ b, st'.aggregate asset = some b ∧ Supersedes a b

section Steps

variable {asset : Address}

theorem VersionAdvances.of_eq {st st' : Store} (h : st'.aggregate asset = st.aggregate asset) :
    VersionAdvances asset st st' :=
  fun a ha => ⟨a,h.trans ha,Supersedes.refl a⟩

theorem VersionAdvances.trans {st st' st'' : Store} (h : VersionAdvances asset st st')
    (h' : VersionAdvances asset st' st'') : VersionAdvances asset st st'' := by
  intro a ha
  obtain ⟨b,hb,hab⟩ := h a ha
  obtain ⟨c,hc,hbc⟩ := h' b hb
  exact ⟨c,hc,hab.trans hbc⟩

/-- The relation on worlds that a call has to keep. -/
def AdvancesWorld (asset : Address) (w w' : World) : Prop :=
  VersionAdvances asset w.store w'.store

instance : Std.Refl (AdvancesWorld asset) :=
  ⟨fun _ => VersionAdvances.of_eq rfl⟩

instance : IsTrans World (AdvancesWorld asset) :=
  ⟨fun _ _ _ h h' => VersionAdvances.trans h h'⟩

/-- The value supersedes what is stored for the asset. -/
def SupersedesStored (asset : Address) (w : World) (a : Address) (value : AggregatePrice) : Prop :=
  a = asset → ∀ prev ∈ w.store.aggregate asset, Supersedes prev value

theorem advances_write {a : Address} {value : AggregatePrice} {w w' : World}
    (hvalue : SupersedesStored asset w a value) (h : Writes a value w w') :
    AdvancesWorld asset w w' := by
  by_cases ha : a = asset
  · subst ha
    intro prev hprev
    refine ⟨value,?_,hvalue rfl prev hprev⟩
    rw [h.aggregate,Function.update_self]
  · apply VersionAdvances.of_eq
    rw [h.aggregate,Function.update_of_ne (Ne.symm ha)]

theorem advances_of_frame {T : List Region} {α : Type} {m : Contract α} (hm : Frame T m)
    (hT : Region.aggregates ∉ T) : Preserves (AdvancesWorld asset) m := by
  refine hm.weaken fun w w' h => VersionAdvances.of_eq ?_
  have haggregates : (w'.store.aggregate,w'.log.aggregates) =
      (w.store.aggregate,w.log.aggregates) := h .aggregates hT
  rw [(Prod.mk.inj haggregates).1]

theorem advances_tolerates : Tolerates (AdvancesWorld asset) (SupersedesStored asset) where
  ignored w w' h := by
    have haggregates : (w'.store.aggregate,w'.log.aggregates) =
        (w.store.aggregate,w.log.aggregates) := h .aggregates (by decide)
    apply VersionAdvances.of_eq
    rw [(Prod.mk.inj haggregates).1]
  write _ _ _ _ := advances_write
  setBounds a arg := advances_of_frame (setBounds_frame a arg) (by decide)
  clearBounds a := advances_of_frame (clearBounds_frame a) (by decide)

theorem supersedes_justifies : Justifies (SupersedesStored asset) (fun _ _ _ => True)
    (fun _ aggregate a => a = asset → aggregate asset = none) where
  round w a decimals recompute d _ := by
    rintro rfl prev hprev
    apply Supersedes.of_nextVersion
    unfold Store.previousAggregate
    rw [hprev]
    rfl
  trigger w a value hnone ha prev hprev := by
    rw [hnone ha] at hprev
    cases hprev
  snapshot w a value _ hversion := by
    rintro rfl prev hprev
    apply Supersedes.of_nextVersion
    rw [hversion,Store.snapshotVersion,hprev]
    rfl
  correction w a previous newPrice timestamp hprevious _ := by
    rintro rfl prev hprev
    rw [hprevious] at hprev
    cases hprev
    exact Supersedes.of_satSucc rfl
  migration w a hnone _ := by
    rintro rfl prev hprev
    rw [hnone] at hprev
    cases hprev

end Steps

/-- A trigger of `asset` finds no aggregate to replace. -/
def TriggersUnpublished (asset : Address) (st : Store) (t : PriceTx) : Prop :=
  ∀ a, t.call = .triggerAggregation a → a = asset → st.aggregate asset = none

theorem execPrice_advances {asset : Address} {st : Store} {t : PriceTx}
    (h : TriggersUnpublished asset st t) : VersionAdvances asset st (execPrice st t) := by
  have hsettles : Settles (fun _ _ _ => True)
      (fun _ aggregate a => a = asset → aggregate asset = none) t.env st t.call := by
    cases hcall : t.call with
    | triggerAggregation a => exact h a hcall
    | _ => simp [Settles]
  exact commit_of_sat (P := fun w => AdvancesWorld asset (World.enter t.env st) w)
    (Std.Refl.refl _) (PriceCall.body_sat advances_tolerates supersedes_justifies t.call hsettles)

/-- In every run in which the trigger finds no aggregate of `asset` to replace, its version never
decreases, between any two states of the run, and increases with every change of the price. -/
theorem versions_advance_in_runs (asset : Address) (st : Store) (ts us : List PriceTx)
    (hts : ∀ x ∈ steps execPrice st (ts ++ us), TriggersUnpublished asset x.1 x.2) :
    VersionAdvances asset (run execPrice st ts) (run execPrice st (ts ++ us)) := by
  rw [steps_append] at hts
  rw [run_append]
  apply run_related (R := VersionAdvances asset) (C := TriggersUnpublished asset)
  · exact fun _ => VersionAdvances.of_eq rfl
  · exact fun _ _ _ h h' => h.trans h'
  · exact fun _ _ h => execPrice_advances h
  · exact fun x hx => hts x (List.mem_append_right _ hx)

def publish : PriceTx := ⟨.concrete 2 6 [], .aggregate (.recomputeAssetPrice 10)⟩

def correct : PriceTx := ⟨.concrete 3 7 [9], .correctPrice 10 100 "fat finger"⟩

def trigger : PriceTx := ⟨.concrete 4 8 [], .triggerAggregation 10⟩

theorem corrected_version_advances :
    VersionAdvances 10 (run execPrice (pricedStore 140) [publish])
      (run execPrice (pricedStore 140) ([publish] ++ [correct])) ∧
    ((run execPrice (pricedStore 140) [publish, correct]).aggregate 10).map
      AggregatePrice.version = some 2 := by
  refine ⟨versions_advance_in_runs 10 (pricedStore 140) [publish] [correct] ?_,by decide⟩
  intro x hx a hcall
  rcases List.mem_pair.1 hx with rfl | rfl <;> cases hcall

/-- After the correction anyone may trigger an aggregation: the price moves back to `140` and the
version from `2` to `0`. -/
theorem trigger_resets_version :
    ¬VersionAdvances 10 (run execPrice (pricedStore 140) [publish, correct])
      (run execPrice (pricedStore 140) ([publish, correct] ++ [trigger])) := by
  intro h
  have hbefore : (run execPrice (pricedStore 140) [publish,correct]).aggregate 10 =
      some ⟨100,7,1,18,true,2⟩ := by decide
  have hafter : (run execPrice (pricedStore 140) ([publish,correct] ++ [trigger])).aggregate 10 =
      some ⟨140,5,1,18,false,0⟩ := by decide
  obtain ⟨b,hb,hab⟩ := h _ hbefore
  rw [hafter] at hb
  cases hb
  exact absurd hab.le (by decide)

end PriceOracle.Aggregation
