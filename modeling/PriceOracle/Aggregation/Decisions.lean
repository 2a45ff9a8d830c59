import PriceOracle.Aggregation.Counting

/-! # What an aggregation round decides

The steps after the loop read three of the round records, which the loop leaves alone. So a round
decides by a function of the storage it starts in, `Store.decision`: the gates it passes, the
aggregate of the survivors, and what the bounds and the sanity lattice make of it. -/

namespace PriceOracle.Model.Store

variable (env : Env) (st : Store) (asset : Address)

def survivors : Round :=
  let counted := st.countedRound env asset
  counted.masked (st.survivorMask asset (st.contextOf env asset).policy counted.validPrices)

def tiered : Bool := !(st.enforcementFlag && (st.getTierParams asset).isNone)

def blackedOut : Bool :=
  (st.blackoutWindowOf asset).any fun b => b.start ≤ env.timestamp ∧ env.timestamp < b.stop

/-- No deferral policy in force holds the publication back. -/
def undeferred : Bool :=
  (st.deferralOf asset).all fun policy => st.guards.anyDeferralConfigured = true →
    (st.resolveDeferral env asset policy (st.countWindowSubmissions env asset policy)).state =
      .published

/-- Everything but the price lets the asset publish. -/
def ready : Bool :=
  st.tiered asset && !st.blackedOut env asset && st.undeferred env asset && st.quorate env asset

/-- The price `aggregate_prices` computes, without its quorum lookup. -/
def aggregatedPrice (prices volumes : List Int) : Int :=
  if 0 < st.readBftFaultTolerance then
    Pricing.aggregateBftPrices prices st.readBftFaultTolerance st.readBftAggregationMethod
  else priceByMethod (st.basePolicy asset).method prices volumes

/-- The price of the survivors before the bounds. -/
def rawPrice : Int :=
  let r := st.survivors env asset
  if (st.contextOf env asset).policy.method = 4 ∧ st.readBftFaultTolerance = 0 then
    Pricing.weightedAggregate r.validPrices (Pricing.capped r.validWeights st.getCapBps)
  else st.aggregatedPrice asset r.validPrices r.validVolumes

def withheld (price : Int) : Bool :=
  st.guards.anySanityRelations && (st.sanityVerdict env asset price).2

/-- What the bounds and the sanity lattice leave of a price. -/
def screened (price : Int) : Option Int :=
  (st.applyBounds asset price).filter fun p => !st.withheld env asset p

/-- Every anchor that drift is measured from is inside its window. -/
def Anchored : Prop :=
  ∀ cfg ∈ st.dqConfigOf asset, st.tracksDrift asset cfg = true → 0 < cfg.driftWindowSecs →
    (st.liveAnchor env asset cfg).isSome = true

/-- What the next round of `asset` decides. -/
def decision : Option Decision :=
  if st.ready env asset then
    (st.screened env asset (st.rawPrice env asset)).map fun price =>
      ⟨(st.contextOf env asset).policy, st.survivors env asset, price⟩
  else none

end PriceOracle.Model.Store

namespace PriceOracle.Aggregation

open Lib.Transaction Model

/-- The records that the steps after the loop read are as before. -/
structure Kept (w w' : World) : Prop where
  window : w'.store.rounds.blackoutWindow = w.store.rounds.blackoutWindow
  status : w'.store.rounds.publicationStatus = w.store.rounds.publicationStatus
  sanity : w'.store.rounds.sanityStatus = w.store.rounds.sanityStatus

instance : Std.Refl Kept := ⟨fun _ => ⟨rfl, rfl, rfl⟩⟩

instance : IsTrans World Kept where
  trans _ _ _ h h' :=
    ⟨h'.window.trans h.window, h'.status.trans h.status, h'.sanity.trans h.sanity⟩

/-- The records that the steps after the loop read. -/
def gateRecords (r : RoundRecords) :
    Map Address BlackoutWindow × Map Address PublicationStatus × Map Address SanityStatus :=
  (r.blackoutWindow, r.publicationStatus, r.sanityStatus)

/-- The view `f` of the round records is as before. -/
def Keeps {β : Type} (f : RoundRecords → β) (w w' : World) : Prop :=
  f w'.store.rounds = f w.store.rounds

instance {β : Type} (f : RoundRecords → β) : Std.Refl (Keeps f) := ⟨fun _ => rfl⟩

instance {β : Type} (f : RoundRecords → β) : IsTrans World (Keeps f) where
  trans _ _ _ h h' := Eq.trans h' h

theorem kept_of_keeps {w w' : World} (h : Keeps gateRecords w w') : Kept w w' where
  window := congrArg Prod.fst h
  status := congrArg (fun x => x.2.1) h
  sanity := congrArg (fun x => x.2.2) h

/-- The view shows neither the flags nor the exclusions that a round records. -/
structure Blind {β : Type} (f : RoundRecords → β) : Prop where
  nonCompliant : ∀ r m, f { r with nonCompliant := m } = f r
  exclusions : ∀ r m, f { r with outlierExclusions := m } = f r

section Keeping

variable {α β : Type} {f : RoundRecords → β}

theorem keeps_of_frame {T : List Region} {m : Contract α} (hm : Frame T m) (hT : .rounds ∉ T) :
    Preserves (Keeps f) m := by
  refine hm.weaken fun w w' h => ?_
  have hrounds : w'.store.rounds = w.store.rounds := h .rounds hT
  rw [Keeps,hrounds]

theorem modifyRounds_keeps {g : RoundRecords → RoundRecords} (hg : ∀ r, f (g r) = f r) :
    Preserves (Keeps f) (modifyRounds g) := by
  intro w
  rw [modifyRounds,sat_update]
  exact hg w.store.rounds

theorem readStore_keeps (g : Env → Store → α) : Preserves (Keeps f) (readStore g) :=
  keeps_of_frame (T := []) (readStore_frame g) (by simp)

theorem beginDq_keeps (hf : ∀ r m, f { r with dqAnchor := m } = f r) (asset : Address) :
    Preserves (Keeps f) (beginDq asset) := by
  refine .read fun round => .read fun expired => ?_
  split_ifs
  · refine .read fun last => .read fun now => ?_
    exact (modifyRounds_keeps fun _ => by exact hf _ _).bind fun _ => preserves_pure _
  · exact (preserves_pure _).bind fun _ => preserves_pure _

theorem collectSource_keeps (hf : Blind f) (ctx : RoundContext) (r : Round) (source : Address) :
    Preserves (Keeps f) (collectSource ctx r source) := by
  have hexcluded : Preserves (Keeps f) (checkExcluded ctx.guards source) := by
    unfold checkExcluded
    split_ifs
    · exact keeps_of_frame (isExcluded_frame (T := []) source) (by simp)
    · exact preserves_pure _
  refine hexcluded.bind fun excluded => ?_
  split_ifs
  · exact preserves_pure _
  · have hinterval : Preserves (Keeps f) (enforceInterval ctx.minInterval ctx.asset source) := by
      refine .read fun compliant => .read fun submitted => ?_
      split_ifs
      · exact (modifyRounds_keeps fun _ => by exact hf.nonCompliant _ _).bind
          fun _ => preserves_pure _
      · exact (preserves_pure _).bind fun _ => preserves_pure _
    refine hinterval.bind fun compliant => ?_
    split_ifs
    · exact readStore_keeps _
    · exact preserves_pure _

theorem collectRound_keeps (hf : Blind f) (ctx : RoundContext) :
    Preserves (Keeps f) (collectRound ctx) :=
  .read fun _ =>
    preserves_foldlM (fun source _ r => collectSource_keeps hf ctx r source) _

theorem storeExclusions_keeps (hf : Blind f) (asset : Address)
    (exclusions : List OutlierExclusion) :
    Preserves (Keeps f) (storeExclusions asset exclusions) := by
  refine .read fun enabled => ?_
  split_ifs
  · exact modifyRounds_keeps fun _ => hf.exclusions _ _
  · exact preserves_pure _
  · refine (keeps_of_frame (mark_frame _) (by simp)).bind fun _ => ?_
    exact modifyRounds_keeps fun _ => hf.exclusions _ _

theorem maskRound_keeps (hf : Blind f) (ctx : RoundContext) (r : Round) :
    Preserves (Keeps f) (maskRound ctx r) := by
  have hfilter : Preserves (Keeps f) (filterRound ctx.asset r.validPrices r.validSources) :=
    .read fun _ => (storeExclusions_keeps hf _ _).bind fun _ => preserves_pure _
  refine hfilter.bind fun mask => .read fun exclusions => ?_
  split_ifs
  · exact preserves_pure _
  · exact preserves_pure _

theorem readyToPublish_keeps (asset : Address) (guards : PublicationGuards) :
    Preserves (Keeps RoundRecords.dqAnchor) (readyToPublish asset guards) := by
  have hsuppresses : Preserves (Keeps RoundRecords.dqAnchor) (suppresses asset) := by
    refine .read fun window => .read fun now => ?_
    cases window with
    | none => exact preserves_pure _
    | some b =>
      dsimp only
      split_ifs
      · exact preserves_pure _
      · exact (modifyRounds_keeps fun _ => by exact rfl).bind fun _ => preserves_pure _
      · exact preserves_pure _
  refine hsuppresses.bind fun suppressed => ?_
  split_ifs
  · exact preserves_pure _
  · refine .read fun policy => ?_
    cases policy with
    | none => exact preserves_pure _
    | some policy =>
      split_ifs
      · exact .read fun status => (modifyRounds_keeps fun _ => by exact rfl).bind fun _ =>
          preserves_pure _
      · exact preserves_pure _

theorem screenPrice_keeps (ctx : RoundContext) (r : Round) :
    Preserves (Keeps RoundRecords.dqAnchor) (screenPrice ctx r) := by
  have hraw : Preserves (Keeps RoundRecords.dqAnchor) (rawMedian ctx r) := by
    refine .read fun tolerance => ?_
    split_ifs
    · exact readStore_keeps _
    · refine .read fun tolerance => ?_
      split_ifs
      · exact readStore_keeps _
      · exact (keeps_of_frame (effectivePolicy_frame (T := []) ctx.asset) (by simp)).bind
          fun _ => preserves_pure _
  refine hraw.bind fun raw => .read fun published => ?_
  cases published with
  | none => exact preserves_pure _
  | some price =>
    have hwithheld : Preserves (Keeps RoundRecords.dqAnchor)
        (withheldBySanity ctx.guards ctx.asset price) := by
      unfold withheldBySanity
      split_ifs
      · refine .read fun verdict => ?_
        split_ifs
        · exact (modifyRounds_keeps fun _ => by exact rfl).bind fun _ => preserves_pure _
        · exact (preserves_pure _).bind fun _ => preserves_pure _
      · exact preserves_pure _
    refine hwithheld.bind fun blocked => ?_
    split_ifs
    · exact preserves_pure _
    · exact preserves_pure _

end Keeping

theorem aggregatedPrice_congr {st st' : Store} (hflags : st'.flags = st.flags)
    (hconfig : st'.config = st.config) (asset : Address) :
    st'.aggregatedPrice asset = st.aggregatedPrice asset := by
  unfold Store.aggregatedPrice Store.readBftFaultTolerance Store.readBftAggregationMethod
    Store.basePolicy Store.layeredPolicy Store.classPolicy Store.getAssetClass
    Store.getAssetPolicy Store.getAggregationMethod Store.on
  rw [hflags,hconfig]

section Gates

variable {w w' : World} (h : Quiet w w') (asset : Address)

include h

theorem Quiet.blackedOut (hwindow : w'.store.rounds.blackoutWindow = w.store.rounds.blackoutWindow) :
    w'.store.blackedOut w'.env asset = w.store.blackedOut w.env asset := by
  unfold Store.blackedOut Store.blackoutWindowOf Store.on
  rw [h.flags,h.env,hwindow]

theorem Quiet.aggregate : w'.store.aggregate = w.store.aggregate :=
  congrArg Prod.fst (h .aggregates (by simp))

theorem Quiet.deferralOf : w'.store.deferralOf asset = w.store.deferralOf asset := by
  unfold Store.deferralOf Store.on
  rw [h.flags,h.config]

theorem Quiet.resolveDeferral (hstatus : w'.store.rounds.publicationStatus =
    w.store.rounds.publicationStatus) (policy : DeferralPolicy) :
    w'.store.resolveDeferral w'.env asset policy
        (w'.store.countWindowSubmissions w'.env asset policy) =
      w.store.resolveDeferral w.env asset policy
        (w.store.countWindowSubmissions w.env asset policy) := by
  unfold Store.resolveDeferral Store.previousState Store.countWindowSubmissions
  rw [h.env,hstatus,h.aggregate,h.sources,h.submission]

theorem Quiet.withheld (hsanity : w'.store.rounds.sanityStatus = w.store.rounds.sanityStatus)
    (price : Int) :
    w'.store.withheld w'.env asset price = w.store.withheld w.env asset price := by
  have hrelation : w'.store.checkRelation price = w.store.checkRelation price := by
    unfold Store.checkRelation Store.expectedPrice Store.storedPrice
    rw [h.aggregate]
  unfold Store.withheld Store.sanityVerdict Store.sanitySuspendedAt
  rw [h.guards,h.config,h.env,hsanity,hrelation]

omit h

theorem suppresses_sat (w : World) : Sat (suppresses asset) w fun b w' =>
    b = w.store.blackedOut w.env asset ∧
      w'.store.rounds.publicationStatus = w.store.rounds.publicationStatus ∧
      w'.store.rounds.sanityStatus = w.store.rounds.sanityStatus := by
  unfold suppresses Store.blackedOut
  simp only [sat_bind,sat_readStore,sat_getTimestamp]
  cases w.store.blackoutWindowOf asset with
  | none => exact (sat_pure _).2 ⟨rfl,rfl,rfl⟩
  | some b =>
    dsimp only
    split_ifs with hstart hstop
    · exact (sat_pure _).2 ⟨by simp [hstart],rfl,rfl⟩
    · rw [sat_bind,modifyRounds,sat_update,sat_pure]
      exact ⟨by simp [hstop],rfl,rfl⟩
    · exact (sat_pure _).2 ⟨by simp [not_lt.1 hstart,not_le.1 hstop],rfl,rfl⟩

theorem shouldPublish_sat (w : World) : Sat (shouldPublish asset w.store.guards) w fun b w' =>
    b = w.store.undeferred w.env asset ∧
      w'.store.rounds.sanityStatus = w.store.rounds.sanityStatus := by
  unfold shouldPublish Store.undeferred
  rw [sat_bind,sat_readStore]
  cases w.store.deferralOf asset with
  | none => exact (sat_pure _).2 ⟨rfl,rfl⟩
  | some policy =>
    split_ifs with hguard
    · rw [sat_bind,sat_readStore,sat_bind,writeStatus,modifyRounds,sat_update,sat_pure]
      exact ⟨by simp [hguard],rfl⟩
    · exact (sat_pure _).2 ⟨by simp [hguard],rfl⟩

end Gates

section Deciding

variable {w : World} (asset : Address)

theorem effectivePolicy_sat (asset : Address) (w : World) :
    Sat (effectivePolicy asset) w fun p w' => p = w.store.basePolicy asset ∧ w' = w := by
  unfold effectivePolicy getMinSourcesRequired Store.basePolicy
  simp only [sat_bind,sat_consult]
  intro n hn
  have hmin : w.store.config.minSources = some n :=
    found_of_ok (by cases w.store.config.minSources <;> rfl) hn
  simp [hmin]

theorem effectivePolicy_configured (asset : Address) (w : World) :
    Sat (effectivePolicy asset) w fun _ _ => w.store.config.minSources.isSome = true := by
  unfold effectivePolicy getMinSourcesRequired
  simp only [sat_bind,sat_consult,sat_readStore]
  intro n hn
  exact Option.isSome_of_eq_some (found_of_ok (by cases w.store.config.minSources <;> rfl) hn)

theorem openRound_sat (asset : Address) (w : World) :
    Sat (openRound asset) w fun opened w' =>
      opened = (if w.store.tiered asset then some (w.store.contextOf w.env asset) else none) ∧
        Quiet w w' ∧ Kept w w' := by
  unfold openRound
  rw [sat_bind]
  refine (effectivePolicy_sat asset w).mono fun base v hv => ?_
  obtain ⟨rfl,rfl⟩ := hv
  simp only [sat_bind,sat_readStore]
  split_ifs with hblocked htiered htiered
  · simp [Store.tiered,hblocked] at htiered
  · exact (sat_pure _).2 ⟨rfl,Std.Refl.refl v,Std.Refl.refl v⟩
  · rw [sat_bind]
    refine ((beginDq_sat asset v).and ((beginDq_frame asset v).and
      (beginDq_keeps (f := gateRecords) (fun _ _ => rfl) asset v))).mono
      fun dqRound u hu => (sat_pure _).2 ⟨?_,hu.2.1,kept_of_keeps hu.2.2⟩
    rw [hu.1]
    rfl
  · simp [Store.tiered,hblocked] at htiered

theorem aggregatePrices_frame {T : List Region} (asset : Address) (prices volumes : List Int) :
    Frame T (aggregatePrices asset prices volumes) := by
  refine .read fun tolerance => ?_
  split_ifs
  · exact readStore_frame _
  · exact (effectivePolicy_frame asset).bind fun _ => preserves_pure _

theorem aggregatePrices_sat (prices volumes : List Int) (w : World) :
    Sat (aggregatePrices asset prices volumes) w fun price w' =>
      price = w.store.aggregatedPrice asset prices volumes ∧ w' = w := by
  unfold aggregatePrices Store.aggregatedPrice
  rw [sat_bind,sat_readStore]
  split_ifs
  · rw [sat_readStore]
    exact ⟨rfl,rfl⟩
  · rw [sat_bind]
    refine (effectivePolicy_sat asset w).mono fun policy u hu => (sat_pure _).2 ?_
    exact ⟨by rw [hu.1],hu.2⟩

/-- The two gates before the price, in the storage that the round started in. -/
theorem readyToPublish_sat {t : World} (hwt : Quiet w t) (hkept : Kept w t) :
    Sat (readyToPublish asset w.store.guards) t fun b w' =>
      b = (!w.store.blackedOut w.env asset && w.store.undeferred w.env asset) ∧
        Quiet w w' ∧ w'.store.rounds.sanityStatus = w.store.rounds.sanityStatus := by
  have hblackout := hwt.blackedOut asset hkept.window
  refine ((suppresses_sat asset t).and ((suppresses_frame asset).from hwt)).andThen
    fun suppressed u hu => ?_
  obtain ⟨⟨hsuppressed,hstatus,hsanity⟩,hwu⟩ := hu
  have hwu : Quiet w u := hwu
  have hsanity' := hsanity.trans hkept.sanity
  rw [hblackout] at hsuppressed
  split_ifs with hb
  · rw [hb] at hsuppressed
    refine (sat_pure _).2 ⟨?_,hwu,hsanity'⟩
    rw [← hsuppressed]
    rfl
  · rw [← hwu.guards]
    refine ((shouldPublish_sat asset u).and ((shouldPublish_frame asset _).from hwu)).mono
      fun b s hs => ?_
    obtain ⟨⟨hready,hsanity''⟩,hws⟩ := hs
    refine ⟨?_,hws,hsanity''.trans hsanity'⟩
    rw [Bool.not_eq_true] at hb
    rw [← hsuppressed,hb,hready]
    unfold Store.undeferred
    rw [hwu.deferralOf,hwu.guards]
    simp only [hwu.resolveDeferral asset (hstatus.trans hkept.status),Bool.not_false,Bool.true_and]

theorem withheldBySanity_sat {t : World} (hwt : Quiet w t)
    (hsanity : t.store.rounds.sanityStatus = w.store.rounds.sanityStatus) (price : Int) :
    Sat (withheldBySanity w.store.guards asset price) t fun b w' =>
      b = w.store.withheld w.env asset price ∧ Quiet w w' := by
  have hverdict := hwt.withheld asset hsanity price
  unfold withheldBySanity
  rw [← hverdict]
  unfold Store.withheld
  rw [hwt.guards]
  split_ifs with hguard
  · refine Sat.and ?_ ((checkSanity_frame asset price).from hwt)
    unfold checkSanity
    simp only [sat_bind,sat_readStore]
    split_ifs <;> simp [hguard]
  · exact (sat_pure _).2 ⟨by simp [hguard],hwt⟩

/-- The `'publish'` block decides from the storage that the round started in. -/
theorem screenPrice_sat {t : World} (hwt : Quiet w t)
    (hsanity : t.store.rounds.sanityStatus = w.store.rounds.sanityStatus) :
    Sat (screenPrice (w.store.contextOf w.env asset) (w.store.survivors w.env asset)) t
      fun d w' => d = ((w.store.screened w.env asset (w.store.rawPrice w.env asset)).map fun p =>
        ⟨(w.store.contextOf w.env asset).policy,w.store.survivors w.env asset,p⟩) ∧
          Quiet w w' := by
  have hraw : Sat (rawMedian (w.store.contextOf w.env asset) (w.store.survivors w.env asset)) t
      fun raw w' => raw = w.store.rawPrice w.env asset ∧ w' = t := by
    have htolerance : t.store.readBftFaultTolerance = w.store.readBftFaultTolerance := by
      unfold Store.readBftFaultTolerance Store.on
      rw [hwt.flags,hwt.config]
    have hcap : t.store.getCapBps = w.store.getCapBps := by
      unfold Store.getCapBps Store.on
      rw [hwt.flags,hwt.config]
    unfold rawMedian Store.rawPrice
    rw [sat_bind,sat_readStore,htolerance,← hcap,
      ← aggregatedPrice_congr hwt.flags hwt.config asset]
    split_ifs
    · rw [sat_readStore]
      exact ⟨rfl,rfl⟩
    · exact aggregatePrices_sat asset _ _ t
  refine hraw.andThen fun raw u hu => ?_
  obtain ⟨rfl,rfl⟩ := hu
  rw [sat_bind,sat_readStore]
  have hbounds : (if (w.store.contextOf w.env asset).guards.anyBoundsConfigured = true then
      u.store.applyBounds (w.store.contextOf w.env asset).asset (w.store.rawPrice w.env asset)
      else some (w.store.rawPrice w.env asset)) =
        w.store.applyBounds asset (w.store.rawPrice w.env asset) := by
    rw [hwt.applyBounds]
    unfold Store.applyBounds
    change (if w.store.guards.anyBoundsConfigured = true then _ else _) = _
    split_ifs <;> rfl
  rw [hbounds]
  unfold Store.screened
  cases hprice : w.store.applyBounds asset (w.store.rawPrice w.env asset) with
  | none => exact (sat_pure _).2 ⟨rfl,hwt⟩
  | some price =>
    refine (withheldBySanity_sat asset hwt hsanity price).andThen fun blocked s hs => ?_
    obtain ⟨rfl,hws⟩ := hs
    split_ifs with hblocked
    · exact (sat_pure _).2 ⟨by simp [hblocked],hws⟩
    · exact (sat_pure _).2 ⟨by simp [hblocked],hws⟩

/-- What a decision is made of, as a function of the storage the round starts in. -/
structure Decided (env : Env) (st : Store) (asset : Address) (d : Decision) : Prop where
  policy : d.policy = (st.contextOf env asset).policy
  round : d.round = (st.countedRound env asset).masked
    (st.survivorMask asset d.policy (st.countedRound env asset).validPrices)
  price : ∃ raw, st.applyBounds asset raw = some d.price

theorem decided_of_mem {env : Env} {st : Store} {d : Decision} (h : d ∈ st.decision env asset) :
    Decided env st asset d ∧ st.quorate env asset = true := by
  unfold Store.decision at h
  split_ifs at h with hready
  · obtain ⟨price,hprice,rfl⟩ := Option.map_eq_some_iff.1 h
    refine ⟨⟨rfl,rfl,st.rawPrice env asset,(Option.filter_eq_some_iff.1 hprice).1⟩,?_⟩
    simp only [Store.ready,Bool.and_eq_true] at hready
    exact hready.2
  · cases h

/-- A round decides `Store.decision` of the storage it starts in and writes round records only. -/
theorem decideRound_decision (asset : Address) (w : World) :
    Sat (decideRound asset) w fun d w' => d = w.store.decision w.env asset ∧ Quiet w w' := by
  unfold Store.decision Store.ready
  refine (openRound_sat asset w).andThen fun opened v hv => ?_
  obtain ⟨rfl,hwv,hkv⟩ := hv
  cases htiered : w.store.tiered asset with
  | false => exact (sat_pure _).2 ⟨rfl,hwv⟩
  | true =>
    have hblind : Blind gateRecords := ⟨fun _ _ => rfl,fun _ _ => rfl⟩
    refine ((collectRound_sat _ v).and (collectRound_keeps hblind _ v)).andThen
      fun collected u hu => ?_
    obtain ⟨⟨hcollected,hvu⟩,hku⟩ := hu
    have hwu : Quiet w u := IsTrans.trans w v u hwv hvu
    rw [gather_quiet hwv] at hcollected
    have haligned : collected.validSources.length = collected.validPrices.length := by
      obtain ⟨entries,-,hlists⟩ :=
        gather_lists w.env w.store (w.store.contextOf w.env asset)
      rw [hcollected,hlists.sources,hlists.prices,List.length_map,List.length_map]
    refine ((maskRound_sat _ collected u haligned).and
      (maskRound_keeps hblind _ collected u)).andThen
      fun r t ht => ?_
    obtain ⟨⟨hround,hut⟩,hkt⟩ := ht
    have hwt : Quiet w t := IsTrans.trans w u t hwu hut
    have hkept : Kept w t :=
      IsTrans.trans w v t hkv (kept_of_keeps (IsTrans.trans v u t hku hkt))
    have hsurvivors : r = w.store.survivors w.env asset := by
      rw [hround,hcollected,Store.survivorMask,hwu.outlierConfigOf]
      rfl
    refine (readyToPublish_sat asset hwt hkept).andThen fun ready s hs => ?_
    obtain ⟨hready,hws,hsanity⟩ := hs
    have hquorate : w.store.quorate w.env asset = true ↔
        (w.store.contextOf w.env asset).policy.minSources ≤
            (w.store.survivors w.env asset).contributingSources ∧
          (w.store.survivors w.env asset).validPrices ≠ [] := decide_eq_true_iff
    rw [hsurvivors,Bool.true_and,← hready]
    simp only [← hquorate,Bool.and_eq_true]
    split_ifs
    · exact screenPrice_sat asset hws hsanity
    · exact (sat_pure _).2 ⟨rfl,hws⟩

/-- What a round commits, as a function of the storage it is committed in. -/
structure Concluded (env : Env) (st : Store) (asset : Address) (d : Decision) : Prop where
  policy : d.policy = (st.contextOf env asset).policy
  round : d.round = st.survivors env asset
  configured : st.config.minSources.isSome = true
  quorate : st.quorate env asset = true
  price : st.applyBounds asset (st.rawPrice env asset) = some d.price
  anchored : st.Anchored env asset

theorem liveAnchor_rebased (env : Env) (st : Store) (cfg : DqConfig) (last : Int) :
    Store.liveAnchor env { st with rounds := { st.rounds with
      dqAnchor := Function.update st.rounds.dqAnchor asset (some ⟨last,env.timestamp⟩) } } asset
        cfg = if 0 < cfg.driftWindowSecs then some last else none := by
  unfold Store.liveAnchor
  dsimp only
  rw [Function.update_self,Option.filter_some]
  simp only [Nat.sub_self,decide_eq_true_eq]
  split_ifs <;> rfl

/-- Replacing an expired anchor does not change what a round measures. -/
theorem beginDq_anchored (asset : Address) (w : World) :
    Sat (beginDq asset) w fun _ v =>
      v.store.dqRound v.env asset = w.store.dqRound w.env asset ∧ v.store.Anchored v.env asset := by
  unfold beginDq
  simp only [sat_bind,sat_readStore]
  split_ifs with hexpired
  · simp only [sat_bind,sat_readStore,sat_getTimestamp,modifyRounds,sat_update,sat_pure]
    rw [Option.any_eq_true] at hexpired
    obtain ⟨cfg,hcfg,hexpired⟩ := hexpired
    rw [Bool.and_eq_true,Option.isNone_iff_eq_none] at hexpired
    obtain ⟨htracks,hdead⟩ := hexpired
    have hrebased := liveAnchor_rebased asset w.env w.store cfg (w.store.lastPrice asset)
    refine ⟨?_,fun cfg' hcfg' _ hwindow => ?_⟩
    · change (w.store.dqConfigOf asset).map _ = (w.store.dqConfigOf asset).map _
      rw [hcfg,Option.map_some,Option.map_some,hrebased,hdead]
      change some (DqRound.mk cfg (w.store.lastPrice asset)
        (if w.store.tracksDrift asset cfg then _ else 0)) = _
      split_ifs <;> rfl
    · obtain rfl : cfg' = cfg := Option.some_inj.1 (hcfg'.symm.trans hcfg)
      rw [hrebased,if_pos hwindow]
      rfl
  · rw [sat_pure]
    refine ⟨rfl,fun cfg hcfg htracks _ => ?_⟩
    rw [hcfg,Option.any_some,htracks,Bool.true_and,Bool.not_eq_true] at hexpired
    rw [← Option.not_isNone,hexpired]
    rfl

theorem openRound_anchored (asset : Address) (w : World) :
    Sat (openRound asset) w fun opened v => opened.isSome = true →
      w.store.config.minSources.isSome = true ∧
        v.store.dqRound v.env asset = w.store.dqRound w.env asset ∧
          v.store.Anchored v.env asset := by
  unfold openRound
  rw [sat_bind]
  refine ((effectivePolicy_sat asset w).and (effectivePolicy_configured asset w)).mono
    fun base v hv => ?_
  obtain ⟨⟨rfl,rfl⟩,hconfigured⟩ := hv
  simp only [sat_bind,sat_readStore]
  split_ifs
  · exact (sat_pure _).2 fun h => absurd h (by decide)
  · rw [sat_bind]
    exact (beginDq_anchored asset v).mono fun _ _ hu => (sat_pure _).2 fun _ => ⟨hconfigured,hu⟩

/-- The anchors that a round has opened with stay until it decides. -/
theorem decideRound_anchored (asset : Address) (w : World) :
    Sat (decideRound asset) w fun d w' => d.isSome = true →
      w.store.config.minSources.isSome = true ∧ ∃ v,
        v.store.dqRound v.env asset = w.store.dqRound w.env asset ∧ v.store.Anchored v.env asset ∧
          Quiet w v ∧ Keeps RoundRecords.dqAnchor v w' := by
  have hblind : Blind RoundRecords.dqAnchor := ⟨fun _ _ => rfl,fun _ _ => rfl⟩
  refine ((openRound_sat asset w).and (openRound_anchored asset w)).andThen fun opened v hv => ?_
  obtain ⟨⟨-,hwv,-⟩,hanchored⟩ := hv
  cases opened with
  | none => exact (sat_pure _).2 fun h => absurd h (by decide)
  | some ctx =>
    obtain ⟨hconfigured,hround,hlive⟩ := hanchored rfl
    have hrest : Preserves (Keeps RoundRecords.dqAnchor) (do
        let collected ← collectRound ctx
        let r ← maskRound ctx collected
        let ready ← readyToPublish asset ctx.guards
        if ready = true ∧ ctx.policy.minSources ≤ r.contributingSources ∧ r.validPrices ≠ [] then
          screenPrice ctx r
        else pure none) := by
      refine (collectRound_keeps hblind ctx).bind fun collected =>
        (maskRound_keeps hblind ctx collected).bind fun r =>
        (readyToPublish_keeps asset ctx.guards).bind fun ready => ?_
      split_ifs
      · exact screenPrice_keeps ctx r
      · exact preserves_pure _
    exact (hrest v).mono fun _ w' hvw' _ => ⟨hconfigured,v,hround,hlive,hwv,hvw'⟩

section Carrying

variable {w w' : World} (h : Quiet w w')

include h

theorem Quiet.dqConfigOf : w'.store.dqConfigOf asset = w.store.dqConfigOf asset := by
  unfold Store.dqConfigOf Store.on
  rw [h.flags,h.config]

theorem Quiet.tracksDrift : w'.store.tracksDrift asset = w.store.tracksDrift asset := by
  unfold Store.tracksDrift Store.lastPrice
  rw [h.aggregate]

theorem Quiet.liveAnchor (hkeeps : Keeps RoundRecords.dqAnchor w w') :
    w'.store.liveAnchor w'.env asset = w.store.liveAnchor w.env asset := by
  have hanchor : w'.store.rounds.dqAnchor = w.store.rounds.dqAnchor := hkeeps
  unfold Store.liveAnchor
  rw [hanchor,h.env]

theorem Quiet.dqRound (hkeeps : Keeps RoundRecords.dqAnchor w w') :
    w'.store.dqRound w'.env asset = w.store.dqRound w.env asset := by
  unfold Store.dqRound
  rw [h.dqConfigOf,h.tracksDrift,h.liveAnchor asset hkeeps]
  unfold Store.lastPrice
  rw [h.aggregate]

theorem Quiet.contextOf (hround : w'.store.dqRound w'.env asset = w.store.dqRound w.env asset) :
    w'.store.contextOf w'.env asset = w.store.contextOf w.env asset := by
  unfold Store.contextOf Store.roundContext Store.applyToPolicy Store.basePolicy
    Store.layeredPolicy Store.classPolicy Store.getAssetClass Store.getAssetPolicy
    Store.getAggregationMethod Store.minIntervalFor Store.windowFor Store.getCurve
    Store.anyProbation Store.getTierParams Store.getMinSubmissionInterval Store.defaultWindow
    Store.on
  rw [hround,h.guards,h.flags,h.config]

theorem Quiet.survivors (hround : w'.store.dqRound w'.env asset = w.store.dqRound w.env asset) :
    w'.store.survivors w'.env asset = w.store.survivors w.env asset := by
  unfold Store.survivors Store.countedRound Store.survivorMask
  rw [h.contextOf asset hround,gather_quiet h,h.outlierConfigOf]

theorem Quiet.rawPrice (hround : w'.store.dqRound w'.env asset = w.store.dqRound w.env asset) :
    w'.store.rawPrice w'.env asset = w.store.rawPrice w.env asset := by
  unfold Store.rawPrice Store.readBftFaultTolerance Store.getCapBps Store.on
  rw [h.contextOf asset hround,h.survivors asset hround,
    aggregatedPrice_congr h.flags h.config,h.flags,h.config]

theorem Quiet.anchored (hkeeps : Keeps RoundRecords.dqAnchor w w')
    (hw : w.store.Anchored w.env asset) : w'.store.Anchored w'.env asset := by
  unfold Store.Anchored
  rw [h.dqConfigOf,h.tracksDrift,h.liveAnchor asset hkeeps]
  exact hw

end Carrying

/-- Whatever a round decides, the storage it leaves behind justifies. -/
theorem decideRound_concluded (asset : Address) (w : World) :
    Sat (decideRound asset) w fun d w' => Quiet w w' ∧
      ∀ x ∈ d, Concluded w'.env w'.store asset x := by
  refine ((decideRound_decision asset w).and (decideRound_anchored asset w)).mono fun d w' hd => ?_
  obtain ⟨⟨rfl,hquiet⟩,hanchored⟩ := hd
  refine ⟨hquiet,fun x hx => ?_⟩
  obtain ⟨hconfigured,v,hsame,hlive,hwv,hkeeps⟩ := hanchored (Option.isSome_of_eq_some hx)
  have hvw' : Quiet v w' := fun r hr => (hquiet r hr).trans (hwv r hr).symm
  have hround := (hvw'.dqRound asset hkeeps).trans hsame
  unfold Store.decision at hx
  split_ifs at hx with hready
  · obtain ⟨price,hprice,rfl⟩ := Option.map_eq_some_iff.1 hx
    simp only [Store.ready,Bool.and_eq_true] at hready
    refine ⟨?_,?_,by rwa [hquiet.config],?_,?_,hvw'.anchored asset hkeeps hlive⟩
    · rw [hquiet.contextOf asset hround]
    · rw [hquiet.survivors asset hround]
    · rw [← hready.2]
      unfold Store.quorate Store.countedRound Store.survivorMask
      rw [hquiet.contextOf asset hround,gather_quiet hquiet,hquiet.outlierConfigOf]
    · rw [hquiet.applyBounds,hquiet.rawPrice asset hround]
      exact (Option.filter_eq_some_iff.1 hprice).1
  · cases hx

theorem decideRound_sat (asset : Address) (w : World) :
    Sat (decideRound asset) w fun d w' =>
      (∀ x ∈ d, Decided w.env w.store asset x ∧ w.store.quorate w.env asset = true) ∧
        Quiet w w' := by
  refine (decideRound_decision asset w).mono fun d w' hd => ?_
  obtain ⟨rfl,hquiet⟩ := hd
  exact ⟨fun x hx => decided_of_mem asset hx,hquiet⟩

end Deciding

end PriceOracle.Aggregation
