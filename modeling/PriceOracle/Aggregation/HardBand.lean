import PriceOracle.Aggregation.Writers
import PriceOracle.Lib.Run

/-! # The hard band

A configured tier bounds what a round may publish: a price outside the hard band is withheld, one
outside the soft band is clamped into it. The check sits behind a guard that is set together with
the first tier. The trigger, the snapshots of the optimistic oracle and a migration do not look at
the tier; a run in which they have nothing to look at keeps every write inside the band. -/

namespace PriceOracle.Aggregation

open Lib.Transaction Lib.Run Model

/-- Wherever a tier is configured, the guard that makes rounds look at it is set. -/
def BoundsGuarded (st : Store) : Prop :=
  ∀ asset, (st.bounds.tier asset).isSome = true → st.guards.anyBoundsConfigured = true

section Tiers

variable {st : Store} {asset : Address} {raw price : Int}

theorem evaluate_mem (t : BoundsTier)
    (h : t.toBoundsTierArg.evaluate raw = some price) :
    t.hardMin ≤ price ∧ price ≤ t.hardMax := by
  have hmin := t.hardMin_le
  have hsoft := t.soft_le
  have hmax := t.le_hardMax
  unfold BoundsTierArg.evaluate at h
  split_ifs at h with hreject hlow hhigh
  · cases h
    exact ⟨hmin,le_trans hsoft hmax⟩
  · cases h
    exact ⟨le_trans hmin hsoft,hmax⟩
  · cases h
    omega

theorem admits_of_applyBounds (hst : BoundsGuarded st)
    (h : st.applyBounds asset raw = some price) : st.bounds.admits asset price = true := by
  unfold Bounds.admits
  cases htier : st.bounds.tier asset with
  | none => rfl
  | some t =>
    have hguard : st.guards.anyBoundsConfigured = true := hst asset (by rw [htier]; rfl)
    rw [Store.applyBounds,if_pos hguard,htier] at h
    simpa using evaluate_mem t h

end Tiers

/-- A call keeps the guard, and from a guarded state it writes inside the band only; a stored
aggregate changes by a write. -/
structure StaysInBand (w w' : World) : Prop where
  guarded : BoundsGuarded w.store → BoundsGuarded w'.store
  logged : w.log.aggregates ⊆ w'.log.aggregates
  admitted : BoundsGuarded w.store → ∀ x ∈ w'.log.aggregates,
    x ∈ w.log.aggregates ∨ x.before.bounds.admits x.asset x.value.price = true
  stored : ∀ asset, w'.store.aggregate asset = w.store.aggregate asset ∨
    ∃ x ∈ w'.log.aggregates, x.asset = asset ∧ w'.store.aggregate asset = some x.value

instance : Std.Refl StaysInBand :=
  ⟨fun _ => ⟨id, fun _ h => h, fun _ _ h => Or.inl h, fun _ => Or.inl rfl⟩⟩

instance : IsTrans World StaysInBand where
  trans w v u hwv hvu := by
    refine ⟨fun h => hvu.guarded (hwv.guarded h), fun _ h => hvu.logged (hwv.logged h), ?_, ?_⟩
    · intro hguarded x hx
      rcases hvu.admitted (hwv.guarded hguarded) x hx with hx | hx
      · exact hwv.admitted hguarded x hx
      · exact Or.inr hx
    · intro asset
      rcases hvu.stored asset with hsame | hwritten
      · rcases hwv.stored asset with hsame' | ⟨x, hx, hasset, hvalue⟩
        · exact Or.inl (hsame.trans hsame')
        · exact Or.inr ⟨x, hvu.logged hx, hasset, hsame.trans hvalue⟩
      · exact Or.inr hwritten

/-- The price is inside the band whenever the guard is up. -/
def InBandIfGuarded (w : World) (asset : Address) (value : AggregatePrice) : Prop :=
  BoundsGuarded w.store → w.store.bounds.admits asset value.price = true

theorem staysInBand_of_log {w w' : World} (hguarded : BoundsGuarded w.store →
    BoundsGuarded w'.store) (haggregates : (w'.store.aggregate,w'.log.aggregates) =
      (w.store.aggregate,w.log.aggregates)) : StaysInBand w w' := by
  obtain ⟨haggregate,hlog⟩ := Prod.mk.inj haggregates
  refine ⟨hguarded,by rw [hlog]; exact fun _ h => h,?_,?_⟩
  · intro _ x hx
    rw [hlog] at hx
    exact Or.inl hx
  · intro asset
    rw [haggregate]
    exact Or.inl rfl

theorem boundsGuarded_congr {st st' : Store} (hbounds : st'.bounds = st.bounds)
    (hflags : st'.flags = st.flags) (h : BoundsGuarded st) : BoundsGuarded st' := by
  unfold BoundsGuarded Store.guards Store.on at h ⊢
  rw [hbounds,hflags]
  exact h

theorem staysInBand_write {asset : Address} {value : AggregatePrice} {w w' : World}
    (hvalue : InBandIfGuarded w asset value) (h : Writes asset value w w') :
    StaysInBand w w' := by
  obtain ⟨before,hbefore,hlog⟩ := h.written
  refine ⟨boundsGuarded_congr (h.rest .bounds (by decide)) (h.rest .flags (by decide)),?_,?_,?_⟩
  · rw [hlog]
    exact List.subset_append_left _ _
  · intro hguarded x hx
    rw [hlog,List.mem_append,List.mem_singleton] at hx
    rcases hx with hx | rfl
    · exact Or.inl hx
    · right
      rw [hbefore]
      exact hvalue hguarded
  · intro a
    rw [h.aggregate]
    by_cases ha : a = asset
    · subst ha
      rw [Function.update_self]
      exact Or.inr ⟨⟨before,a,value⟩,by rw [hlog]; simp,rfl,rfl⟩
    · rw [Function.update_of_ne ha]
      exact Or.inl rfl

theorem mark_on (f : FeatureFlag) (w : World) :
    Sat (mark f) w fun _ w' => w'.store.on f = true := by
  unfold mark
  rw [sat_update]
  split_ifs with hon
  · exact hon
  · exact Function.update_self f true w.store.flags

theorem updateGuards_boundsGuarded {f : PublicationGuards → PublicationGuards}
    (hf : ∀ g, (f g).anyBoundsConfigured = true) (w : World) :
    Sat (updateGuards f) w fun _ w' => BoundsGuarded w'.store := by
  unfold updateGuards modifyBounds
  rw [sat_bind,sat_readStore]
  refine (mark_on .publicationGuards w).andThen fun _ t hon => ?_
  rw [sat_update]
  intro a _
  have hguards : Store.guards { t.store with bounds := { t.store.bounds with
      guards := some (f w.store.guards) } } = f w.store.guards := if_pos hon
  exact (congrArg PublicationGuards.anyBoundsConfigured hguards).trans (hf _)

theorem setBounds_staysInBand (asset : Address) (arg : BoundsTierArg) :
    Preserves StaysInBand (setBounds asset arg) := by
  intro w
  have hguard : Sat (setBounds asset arg) w fun _ w' => BoundsGuarded w'.store := by
    refine (getAdmin_frame (T := []) w).andThen fun admin t _ => ?_
    refine (requireAuth_frame admin t).andThen fun _ t _ => ?_
    refine (checkRegisteredAsset_frame (T := []) asset t).andThen fun _ t _ => ?_
    rw [sat_bind,sat_consult]
    intro tier _
    rw [sat_bind]
    intro _ v _
    exact updateGuards_boundsGuarded (fun _ => rfl) v
  refine ((setBounds_frame asset arg w).and hguard).mono fun _ w' hw => ?_
  exact staysInBand_of_log (fun _ => hw.2) (hw.1 .aggregates (by decide))

theorem clearBounds_staysInBand (asset : Address) :
    Preserves StaysInBand (clearBounds asset) := by
  intro w
  have hguard : Sat (clearBounds asset) w fun _ w' =>
      BoundsGuarded w.store → BoundsGuarded w'.store := by
    have hw : layout.agreeOff [.auths] w w := Std.Refl.refl w
    refine (getAdmin_frame.from hw).andThen fun admin t ht => ?_
    refine ((requireAuth_frame admin).from ht).andThen fun _ t ht => ?_
    refine ((checkRegisteredAsset_frame asset).from ht).andThen fun _ t ht => ?_
    unfold modifyBounds
    rw [sat_update]
    intro hguarded a ha
    have hguarded' := boundsGuarded_congr (ht .bounds (by decide)) (ht .flags (by decide)) hguarded
    refine hguarded' a ?_
    dsimp only at ha
    by_cases haa : a = asset
    · rw [haa,Function.update_self] at ha
      cases ha
    · rwa [Function.update_of_ne haa] at ha
  refine ((clearBounds_frame asset w).and hguard).mono fun _ w' hw => ?_
  exact staysInBand_of_log hw.2 (hw.1 .aggregates (by decide))

theorem staysInBand_tolerates : Tolerates StaysInBand InBandIfGuarded where
  ignored _ _ h := staysInBand_of_log
    (boundsGuarded_congr (h .bounds (by decide)) (h .flags (by decide))) (h .aggregates (by decide))
  write _ _ _ _ := staysInBand_write
  setBounds := setBounds_staysInBand
  clearBounds := clearBounds_staysInBand

theorem inBand_justifies : Justifies InBandIfGuarded
    (fun bounds asset price => bounds.admits asset price = true)
    (fun bounds _ asset => bounds.tier asset = none) where
  round _ _ _ _ _ hraw hguarded := admits_of_applyBounds hguarded hraw.choose_spec
  trigger w asset value htier _ := by
    unfold Bounds.admits
    rw [htier]
    rfl
  snapshot _ _ _ hadmits _ _ := hadmits
  correction _ _ _ _ _ _ hadmits _ := hadmits
  migration _ _ _ hadmits _ := hadmits

structure PriceTx where
  env : Env
  call : PriceCall

def execPrice (st : Store) (t : PriceTx) : Store := invoke t.call.body t.env st

/-- Every write of an aggregate is inside the hard band of the tier in force at that moment, and an
aggregate that is not written stays as it was. -/
def WritesInBand (st : Store) (t : PriceTx) : Prop :=
  (∀ x ∈ (effects t.call.body t.env st).aggregates,
    x.before.bounds.admits x.asset x.value.price = true) ∧
  ∀ asset, (execPrice st t).aggregate asset = st.aggregate asset ∨
    ∃ x ∈ (effects t.call.body t.env st).aggregates,
      x.asset = asset ∧ (execPrice st t).aggregate asset = some x.value

/-- The trigger is called on assets without a tier, and what the call may take from the optimistic
oracle, and the zero of a migration, lies in the hard band. -/
def AvoidsUnchecked (st : Store) (t : PriceTx) : Prop :=
  Settles (fun bounds asset price => bounds.admits asset price = true)
    (fun bounds _ asset => bounds.tier asset = none) t.env st t.call

theorem execPrice_writesInBand {st : Store} {t : PriceTx} (hst : BoundsGuarded st)
    (h : AvoidsUnchecked st t) : WritesInBand st t ∧ BoundsGuarded (execPrice st t) := by
  have hcommit : StaysInBand (World.enter t.env st) (commit t.call.body (World.enter t.env st)) :=
    commit_of_sat (Std.Refl.refl _)
      (PriceCall.body_sat staysInBand_tolerates inBand_justifies t.call h)
  refine ⟨⟨?_,hcommit.stored⟩,hcommit.guarded hst⟩
  intro x hx
  rcases hcommit.admitted hst x hx with hx | hx
  · cases hx
  · exact hx

/-- In every run whose trigger calls and snapshots leave the bounded assets alone, every write of an
aggregate lies in the hard band. -/
theorem aggregates_written_in_hard_band (st : Store) (ts : List PriceTx) (hst : BoundsGuarded st)
    (hts : ∀ x ∈ steps execPrice st ts, AvoidsUnchecked x.1 x.2) :
    ∀ x ∈ steps execPrice st ts, WritesInBand x.1 x.2 :=
  (steps_satisfy (fun _ _ hs h => execPrice_writesInBand hs h) hst hts).1

/-- Asset `10` without a tier, administrator `9`, and one source at price `price`. -/
def pricedStore (price : Int) : Store where
  config := { admin := some 9, minSources := some 1 }
  registry := { assetIndex := fun a => if a = 10 then some true else none
                sources := [1]
                srcActive := fun a => if a = 1 then some true else none }
  submission := fun k => if k = (10, 1) then some ⟨price, 5, 1, 18, 1, 5, none⟩ else none

/-- The administrator sets the hard band `50..150` of asset `10`; later a round runs. -/
def setThen (call : PriceCall) : List PriceTx :=
  [⟨.concrete 1 5 [9], .setBounds 10 ⟨80, 120, 50, 150⟩⟩, ⟨.concrete 2 6 [], call⟩]

/-- A round publishes the stored price `140` clamped to the soft maximum. -/
theorem round_writes_in_hard_band :
    (∀ x ∈ steps execPrice (pricedStore 140) (setThen (.aggregate (.recomputeAssetPrice 10))),
      WritesInBand x.1 x.2) ∧
    ((run execPrice (pricedStore 140) (setThen (.aggregate (.recomputeAssetPrice 10)))).aggregate
      10).map AggregatePrice.price = some 120 := by
  refine ⟨aggregates_written_in_hard_band _ _ ?_ ?_,by decide⟩
  · intro asset h
    cases h
  · simp only [setThen,steps_cons,steps_nil,List.forall_mem_cons]
    exact ⟨trivial,trivial,by simp⟩

/-- The permissionless trigger publishes the stored price `500` past the hard band. -/
theorem trigger_writes_outside_hard_band :
    BoundsGuarded (pricedStore 500) ∧
    ¬∀ x ∈ steps execPrice (pricedStore 500) (setThen (.triggerAggregation 10)),
      WritesInBand x.1 x.2 := by
  refine ⟨fun asset h => (by cases h),?_⟩
  simp only [setThen,steps_cons,steps_nil,List.forall_mem_cons]
  rintro ⟨-,h,-⟩
  have hwrites := h.1
  revert hwrites
  decide

end PriceOracle.Aggregation
