import PriceOracle.Model.Policy

/-! # Screening of a round

The checks between the submissions of a round and its publication: the data-quality pipeline, the
robust outlier filter, blackout windows, deferral, the two-tier bounds and the sanity lattice. -/

namespace PriceOracle.Model

open Lib.Transaction Lib.MachineInt

/-- The data-quality context of one round. -/
structure DqRound where
  cfg : DqConfig
  last : Int
  anchor : Int

def Store.dqConfigOf (st : Store) (asset : Address) : Option DqConfig :=
  if st.on .dqPipeline then st.config.dqConfig asset else none

def Store.lastPrice (st : Store) (asset : Address) : Int :=
  ((st.aggregate asset).map AggregatePrice.price).getD 0

/-- The anchor that is still inside its drift window. -/
def Store.liveAnchor (env : Env) (st : Store) (asset : Address) (cfg : DqConfig) : Option Int :=
  ((st.rounds.dqAnchor asset).filter fun a => env.timestamp - a.setAt < cfg.driftWindowSecs).map
    DqAnchor.price

/-- Whether the configuration measures drift, which needs a last price to start from. -/
def Store.tracksDrift (st : Store) (asset : Address) (cfg : DqConfig) : Bool :=
  0 < cfg.maxDriftBps ∧ 0 < st.lastPrice asset

/-- The context `dq_pipeline::begin` returns: the last price stands in for an expired anchor. -/
def Store.dqRound (env : Env) (st : Store) (asset : Address) : Option DqRound :=
  (st.dqConfigOf asset).map fun cfg =>
    ⟨cfg, st.lastPrice asset,
      if st.tracksDrift asset cfg then (st.liveAnchor env asset cfg).getD (st.lastPrice asset)
      else 0⟩

/-- `dq_pipeline::begin`: an expired drift anchor is replaced by the last price. -/
def beginDq (asset : Address) : Contract (Option DqRound) := do
  let round ← readStore fun e st => st.dqRound e asset
  let expired ← readStore fun e st => (st.dqConfigOf asset).any fun cfg =>
    st.tracksDrift asset cfg && (st.liveAnchor e asset cfg).isNone
  if expired then
    let last ← readStore fun _ st => st.lastPrice asset
    let now ← getTimestamp
    modifyRounds fun r => { r with
      dqAnchor := Function.update r.dqAnchor asset (some ⟨last, now⟩) }
  pure round

def exceedsBps (price reference : Int) (bps : Nat) : Bool :=
  satMul reference bps < satMul (saturate (wrapSub price reference).natAbs) 10000

/-- `dq_pipeline::screen`. -/
def DqRound.screen (round : DqRound) (env : Env) (entry : PriceEntry) : Bool :=
  let cfg := round.cfg
  let price := entry.price
  let age := env.timestamp - entry.ledgerTimestamp
  !(0 < cfg.maxStalenessSecs ∧ cfg.maxStalenessSecs < age ∨ price < cfg.minPrice ∨
    0 < cfg.maxPrice ∧ cfg.maxPrice < price ∨
    0 < cfg.maxStepBps ∧ 0 < round.last ∧ exceedsBps price round.last cfg.maxStepBps ∨
    0 < cfg.maxDriftBps ∧ 0 < round.anchor ∧ exceedsBps price round.anchor cfg.maxDriftBps)

namespace Outlier

def sort (prices : List Int) : List Int := prices.insertionSort (· ≤ ·)

def medianOf (sorted : List Int) : Int :=
  let n := sorted.length
  if n = 0 then 0
  else if n % 2 = 1 then Pricing.get sorted (n / 2)
  else Pricing.midpoint (Pricing.get sorted (n / 2 - 1)) (Pricing.get sorted (n / 2))

def medianAndMad (sorted : List Int) : Int × Int :=
  let med := medianOf sorted
  (med, medianOf (sort (sorted.map fun v => wrapAbs (wrapSub v med))))

/-- Absolute difference as an unsigned value. -/
def distance (x center : Int) : Nat := (wrapSub x center).natAbs

def clampScore (score : Nat) : Nat := min score u32Max

/-- Score, centre and scale of the median absolute deviation detector. -/
def madScore (sorted : List Int) (x : Int) : Nat × Int × Int :=
  let (med, mad) := medianAndMad sorted
  let scaled := (wrapMul mad 14826).tdiv 10000
  if scaled ≤ 0 then (0, med, 0)
  else (clampScore (wrap128 (distance x med * 10000) / scaled.toNat), med, scaled)

/-- Score, centre and scale of the interquartile detector. -/
def iqrScore (sorted : List Int) (x : Int) (sensitivityBps : Nat) : Nat × Int × Int :=
  let n := sorted.length
  let q1 := Pricing.get sorted ((n - 1) / 4)
  let q3 := Pricing.get sorted ((3 * (n - 1) + 3) / 4)
  let iqr := wrapSub q3 q1
  let center := wrapAdd q1 (iqr.tdiv 2)
  if iqr ≤ 0 then (0, center, 0)
  else
    let fence := (wrapMul iqr sensitivityBps).tdiv 10000
    let upper := wrapAdd q3 fence
    let lower := wrapSub q1 fence
    if upper < x then
      (clampScore (wrap128 (toU128 (wrapSub x upper) * 10000) / iqr.toNat), center, iqr)
    else if x < lower then
      (clampScore (wrap128 (toU128 (wrapSub lower x) * 10000) / iqr.toNat), center, iqr)
    else (0, center, iqr)

/-- Whether `x` is excluded, with its score, centre and scale. -/
def scoreOf (sorted : List Int) (x : Int) (cfg : OutlierConfig) : Bool × Nat × Int × Int :=
  let (score, center, scale) :=
    if cfg.detector = 2 then iqrScore sorted x cfg.sensitivityBps else madScore sorted x
  if 0 < scale then (cfg.sensitivityBps ≤ score, score, center, scale)
  else
    let denom := wrapAbs center
    if denom = 0 then (x ≠ center, 0, center, 0)
    else
      let relBps := wrap128 (distance x center * 10000) / toU128 denom
      (cfg.sensitivityBps ≤ relBps, clampScore relBps, center, 0)

def filteringActive (cfg : OutlierConfig) (n : Nat) : Bool :=
  cfg.detector ≠ 0 ∧ max cfg.minSources 4 ≤ n

/-- The scores of the prices, in their order. -/
def scores (cfg : OutlierConfig) (prices : List Int) : List (Bool × Nat × Int × Int) :=
  let sorted := sort (prices.take 128)
  prices.map fun x => scoreOf sorted x cfg

/-- Whether the round excludes anything: never more than half of its prices. -/
def applies (cfg : OutlierConfig) (prices : List Int) : Bool :=
  filteringActive cfg prices.length ∧
    ((scores cfg prices).filter Prod.fst).length ≤ prices.length / 2

/-- The mask of `filter_round`. -/
def keepMask (cfg : OutlierConfig) (prices : List Int) : List Bool :=
  if applies cfg prices then (scores cfg prices).map fun s => !s.1
  else prices.map fun _ => true

def exclusions (cfg : OutlierConfig) (prices : List Int) (sources : List Address) :
    List OutlierExclusion :=
  if applies cfg prices then
    ((sources.zip prices).zip (scores cfg prices)).filterMap fun x =>
      if x.2.1 then some ⟨x.1.1, x.1.2, x.2.2.1, x.2.2.2.1, x.2.2.2.2⟩ else none
  else []

end Outlier

def Store.outlierConfigOf (st : Store) (asset : Address) : OutlierConfig :=
  if st.on .outlierFilter then (st.config.outlierConfig asset).getD ⟨0, 35000, 5⟩
  else ⟨0, 35000, 5⟩

def Store.getExclusions (st : Store) (asset : Address) : List OutlierExclusion :=
  if st.on .outlierFilter then (st.rounds.outlierExclusions asset).getD [] else []

def storeExclusions (asset : Address) (exclusions : List OutlierExclusion) : Contract Unit := do
  let enabled ← readStore fun _ st => st.on .outlierFilter
  if exclusions.isEmpty then
    if enabled then
      modifyRounds fun r => { r with
        outlierExclusions := Function.update r.outlierExclusions asset none }
  else
    mark .outlierFilter
    modifyRounds fun r => { r with
      outlierExclusions := Function.update r.outlierExclusions asset (some exclusions) }

def filterRound (asset : Address) (prices : List Int) (sources : List Address) :
    Contract (List Bool) := do
  let cfg ← readStore fun _ st => st.outlierConfigOf asset
  storeExclusions asset (Outlier.exclusions cfg prices sources)
  pure (Outlier.keepMask cfg prices)

def Store.blackoutWindowOf (st : Store) (asset : Address) : Option BlackoutWindow :=
  if st.on .blackout then st.rounds.blackoutWindow asset else none

/-- `blackout::suppresses`: an elapsed window is closed on the way. -/
def suppresses (asset : Address) : Contract Bool := do
  let window ← readStore fun _ st => st.blackoutWindowOf asset
  let now ← getTimestamp
  match window with
  | none => pure false
  | some b =>
    if now < b.start then pure false
    else if b.stop ≤ now then do
      modifyRounds fun r => { r with
        blackoutWindow := Function.update r.blackoutWindow asset none
        blackoutLastEnd := Function.update r.blackoutLastEnd asset (some b.stop) }
      pure false
    else pure true

namespace Store

variable (env : Env) (st : Store) (asset : Address)

def deferralOf : Option DeferralPolicy :=
  if st.on .assetDeferral then st.config.assetDeferral asset else none

def countWindowSubmissions (policy : DeferralPolicy) : Nat :=
  (st.registry.sources.filter fun s => (st.submission (asset, s)).any fun entry =>
    env.timestamp - entry.ledgerTimestamp ≤ policy.windowSecs).length

def previousState : PublicationState :=
  match st.rounds.publicationStatus asset with
  | some p => p.state
  | none => if (st.aggregate asset).isSome then .published else .absent

/-- `deferral::resolve`. -/
def resolveDeferral (policy : DeferralPolicy) (received : Nat) : PublicationStatus :=
  let now := env.timestamp
  let previous := st.previousState asset
  let prevDeferred :=
    ((st.rounds.publicationStatus asset).map PublicationStatus.deferredSince).getD 0
  let boundHit := previous = .deferred ∧ prevDeferred ≠ 0 ∧
    policy.maxDeferSecs ≤ now - prevDeferred
  let (state, deferredSince) :=
    if policy.quorum ≤ received then (PublicationState.published, 0)
    else if boundHit ∨ previous = .stale then
      (.stale, if prevDeferred = 0 then now else prevDeferred)
    else if previous = .deferred then (.deferred, prevDeferred)
    else (.deferred, now)
  { state, received, missing := policy.quorum - received, quorum := policy.quorum,
    windowSecs := policy.windowSecs, deferredSince, maxDeferSecs := policy.maxDeferSecs,
    ledger := env.sequence }

end Store

def writeStatus (asset : Address) (status : PublicationStatus) : Contract Unit :=
  modifyRounds fun r => { r with
    publicationStatus := Function.update r.publicationStatus asset (some status) }

def shouldPublish (asset : Address) (guards : PublicationGuards) : Contract Bool := do
  let policy ← readStore fun _ st => st.deferralOf asset
  match policy with
  | none => pure true
  | some policy =>
    if guards.anyDeferralConfigured then
      let status ← readStore fun e st =>
        st.resolveDeferral e asset policy (st.countWindowSubmissions e asset policy)
      writeStatus asset status
      pure (status.state = .published)
    else pure true

def markPublished (asset : Address) : Contract Unit := do
  let policy ← readStore fun _ st => st.deferralOf asset
  match policy with
  | none => pure ()
  | some policy => do
    let status ← readStore fun e st => st.resolveDeferral e asset policy policy.quorum
    writeStatus asset { status with
      state := .published, received := policy.quorum, missing := 0, deferredSince := 0 }

/-- `evaluate_tier`: the value to publish, or `none` when the hard band rejects it. -/
def BoundsTierArg.evaluate (t : BoundsTierArg) (price : Int) : Option Int :=
  if price < t.hardMin ∨ t.hardMax < price then none
  else if price < t.softMin then some t.softMin
  else if t.softMax < price then some t.softMax
  else some price

/-- `price_bounds::apply`. -/
def Store.applyBounds (st : Store) (asset : Address) (rawPrice : Int) : Option Int :=
  if st.guards.anyBoundsConfigured then
    match st.bounds.tier asset with
    | some t => t.evaluate rawPrice
    | none => some rawPrice
  else some rawPrice

namespace Store

variable (env : Env) (st : Store)

/-- A published, positive price. -/
def storedPrice (asset : Address) : Option Int :=
  ((st.aggregate asset).filter fun a => 0 < a.price).map AggregatePrice.price

def deviationBps (price expected : Int) : Nat :=
  if expected = 0 then u32Max
  else
    let scaled := (satMul (wrapAbs (wrapSub price expected)) 10000).tdiv (wrapAbs expected)
    if (u32Max : Int) < scaled then u32Max else wrap32 (toU128 scaled)

/-- The value a relation expects, with the reference it was derived from. -/
def expectedPrice (r : SanityRelation) : Option (Int × Int) := do
  let reference ← st.storedPrice r.peer
  match r.kind with
  | .peg => some (reference, (checkedDiv (satMul reference r.ratioNum) r.ratioDen).getD 0)
  | .triangle => (r.peer2.bind st.storedPrice).map fun p2 => (reference, p2)
  | .spread => some (reference, reference)

def relationMagnitude (r : SanityRelation) (price reference expected : Int) : Nat :=
  match r.kind with
  | .spread =>
    let diff := satMul (wrapAbs (wrapSub price reference)) 10000
    wrap32 (toU128 (diff.tdiv (max (wrapAbs price) 1)))
  | _ => deviationBps price expected

/-- The step of `sanity_lattice::check` for one relation. -/
def checkRelation (price : Int) (acc : SanityStatus × Bool) (r : SanityRelation) :
    SanityStatus × Bool :=
  let (status, blocked) := acc
  match st.expectedPrice r with
  | none => acc
  | some (reference, expected) =>
    if expected ≤ 0 then acc
    else
      let status := { status with checked := status.checked + 1 }
      let magnitude := relationMagnitude r price reference expected
      if magnitude ≤ r.toleranceBps then (status, blocked)
      else
        let status := { status with
          violated := true, conflictingAsset := some r.peer, magnitudeBps := magnitude,
          toleranceBps := r.toleranceBps, action := r.action }
        match r.action with
        | .flag => (status, blocked)
        | .reject => (status, true)
        | .quarantine => ({ status with quarantined := true }, true)

def sanitySuspendedAt (asset : Address) : Bool :=
  (st.config.sanitySuspended asset).any fun limit => env.sequence ≤ limit

/-- The status and verdict of `sanity_lattice::check`. -/
def sanityVerdict (asset : Address) (price : Int) : SanityStatus × Bool :=
  let suspended := st.sanitySuspendedAt env asset
  let relations := (st.config.sanityRelations asset).getD []
  let quarantined := ((st.rounds.sanityStatus asset).map SanityStatus.quarantined).getD false
  let status : SanityStatus :=
    { asset, violated := false, suspended, checked := 0, conflictingAsset := none,
      magnitudeBps := 0, toleranceBps := 0, action := .flag, quarantined, ledger := env.sequence }
  if suspended ∨ relations.isEmpty then (status, quarantined)
  else
    let (status, blocked) := relations.foldl (st.checkRelation price) (status, false)
    (status, blocked || status.quarantined)

end Store

/-- `sanity_lattice::check`; the result says whether the price is withheld. -/
def checkSanity (asset : Address) (price : Int) : Contract Bool := do
  let verdict ← readStore fun e st => st.sanityVerdict e asset price
  if verdict.1.violated then
    modifyRounds fun r => { r with
      sanityStatus := Function.update r.sanityStatus asset (some verdict.1) }
  pure verdict.2

theorem beginDq_frame (asset : Address) : Frame [.rounds] (beginDq asset) := by
  refine .read fun round => .read fun expired => ?_
  split_ifs
  · exact .read fun last => .read fun now => (modifyRounds_frame _).bind fun _ => preserves_pure _
  · exact (preserves_pure _).bind fun _ => preserves_pure _

theorem beginDq_sat (asset : Address) (w : World) :
    Sat (beginDq asset) w fun round _ => round = w.store.dqRound w.env asset := by
  unfold beginDq
  simp only [sat_bind,sat_readStore]
  split_ifs <;> simp

theorem suppresses_frame (asset : Address) : Frame [.rounds] (suppresses asset) := by
  refine .read fun window => .read fun now => ?_
  cases window with
  | none => exact preserves_pure _
  | some b =>
    dsimp only
    split_ifs
    · exact preserves_pure _
    · exact (modifyRounds_frame _).bind fun _ => preserves_pure _
    · exact preserves_pure _

theorem shouldPublish_frame (asset : Address) (guards : PublicationGuards) :
    Frame [.rounds] (shouldPublish asset guards) := by
  refine .read fun policy => ?_
  cases policy with
  | none => exact preserves_pure _
  | some policy =>
    split_ifs
    · exact .read fun status => (modifyRounds_frame _).bind fun _ =>
        preserves_pure _
    · exact preserves_pure _

theorem markPublished_frame (asset : Address) : Frame [.rounds] (markPublished asset) := by
  refine .read fun policy => ?_
  cases policy with
  | none => exact preserves_pure _
  | some policy => exact .read fun status => modifyRounds_frame _

theorem checkSanity_frame (asset : Address) (price : Int) :
    Frame [.rounds] (checkSanity asset price) := by
  refine .read fun verdict => ?_
  split_ifs
  · exact (modifyRounds_frame _).bind fun _ => preserves_pure _
  · exact (preserves_pure _).bind fun _ => preserves_pure _

section OutlierFilter

variable (cfg : OutlierConfig) (prices : List Int) (sources : List Address)

theorem Outlier.length_keepMask : (Outlier.keepMask cfg prices).length = prices.length := by
  unfold Outlier.keepMask Outlier.scores
  split_ifs <;> simp

theorem exclusions_of_off (st : Store) (asset : Address) (h : st.on .outlierFilter = false) :
    Outlier.exclusions (st.outlierConfigOf asset) prices sources = [] := by
  simp [Outlier.exclusions,Outlier.applies,Outlier.filteringActive,Store.outlierConfigOf,h]

/-- A mask that excludes nothing keeps every price. -/
theorem keepMask_of_no_exclusions (hlen : sources.length = prices.length)
    (h : Outlier.exclusions cfg prices sources = []) :
    Outlier.keepMask cfg prices = prices.map fun _ => true := by
  unfold Outlier.exclusions at h
  unfold Outlier.keepMask
  split_ifs at h ⊢ with ha
  · rw [List.filterMap_eq_nil_iff] at h
    have hs : (Outlier.scores cfg prices).length = prices.length := by simp [Outlier.scores]
    refine List.ext_getElem (by simp [hs]) fun i h1 h2 => ?_
    have hi : i < prices.length := by simpa using h2
    have hmem : ((sources[i],prices[i]),(Outlier.scores cfg prices)[i]) ∈
        (sources.zip prices).zip (Outlier.scores cfg prices) := by
      rw [List.mem_iff_getElem]
      exact ⟨i,by simp [hlen,hs,hi],by simp⟩
    have hkeep := h _ hmem
    simp only [ite_eq_right_iff,reduceCtorEq,imp_false,Bool.not_eq_true] at hkeep
    simp [hkeep]
  · rfl

theorem storeExclusions_sat (asset : Address) (exclusions : List OutlierExclusion) (w : World)
    (h : w.store.on .outlierFilter = false → exclusions = []) :
    Sat (storeExclusions asset exclusions) w fun _ w' =>
      w'.store.getExclusions asset = exclusions ∧ layout.agreeOff [.rounds] w w' := by
  unfold storeExclusions mark
  simp only [sat_bind,sat_readStore]
  cases hon : w.store.on .outlierFilter with
  | false =>
    simp [h hon,Store.getExclusions,hon,Std.Refl.refl]
  | true =>
    have hframe (ex : Option (List OutlierExclusion)) : layout.agreeOff [.rounds] w
        { w with store := { w.store with rounds := { w.store.rounds with
          outlierExclusions := Function.update w.store.rounds.outlierExclusions asset ex } } } := by
      intro r hr
      cases r <;> first | rfl | simp at hr
    cases exclusions with
    | nil =>
      simp only [List.isEmpty_nil,if_true,modifyRounds,sat_update]
      exact ⟨by simp [Store.getExclusions],hframe _⟩
    | cons x xs =>
      simp only [List.isEmpty_cons,Bool.false_eq_true,if_false,sat_bind,sat_update,hon,
        if_true,modifyRounds]
      refine ⟨?_,hframe _⟩
      have hon' : w.store.flags .outlierFilter = true := hon
      simp [Store.getExclusions,Store.on,hon']

/-- `filter_round` returns the mask of the configuration in force, records the exclusions that go
with it, and touches nothing else. -/
theorem filterRound_sat (asset : Address) (w : World) :
    Sat (filterRound asset prices sources) w fun mask w' =>
      mask = Outlier.keepMask (w.store.outlierConfigOf asset) prices ∧
      w'.store.getExclusions asset =
        Outlier.exclusions (w.store.outlierConfigOf asset) prices sources ∧
      layout.agreeOff [.rounds] w w' := by
  unfold filterRound
  simp only [sat_bind,sat_readStore]
  refine (storeExclusions_sat asset _ w fun hoff => ?_).mono fun _ w' hw => ?_
  · exact exclusions_of_off prices sources w.store asset hoff
  · exact (sat_pure _).2 ⟨rfl,hw⟩

end OutlierFilter

end PriceOracle.Model
