import PriceOracle.Aggregation.Rounds
import PriceOracle.Model.Submissions

/-! # Rounds that run to their end

On a contract whose quorum is configured no part of an aggregation panics: a round that cannot
publish ends without a price. -/

namespace PriceOracle.Aggregation

open Lib.Transaction Model

def Configured (w : World) : Prop := w.store.config.minSources.isSome = true

section Parts

variable (asset source : Address) (ctx : RoundContext) (guards : PublicationGuards)

theorem modifyRounds_succeeds (f : RoundRecords → RoundRecords) :
    Succeeds Configured (modifyRounds f) :=
  succeeds_update fun _ hw => hw

theorem mark_succeeds (f : FeatureFlag) : Succeeds Configured (mark f) := by
  refine succeeds_update fun w hw => ?_
  split_ifs
  · exact hw
  · exact hw

theorem effectivePolicy_succeeds : Succeeds Configured (effectivePolicy asset) := by
  refine (succeeds_consult fun w hw => ?_).bind fun _ => succeeds_inspect _
  obtain ⟨n,hn⟩ := Option.isSome_iff_exists.1 hw
  exact ⟨n,by rw [hn]⟩

theorem isExcluded_succeeds : Succeeds Configured (isExcluded source) := by
  refine .read fun inactive => ?_
  split_ifs
  · exact succeeds_pure _
  · refine Succeeds.bind ?_ fun _ => succeeds_pure _
    refine .read fun _ => (succeeds_update fun w hw => ?_).bind fun _ =>
      succeeds_pure _
    split_ifs
    · exact hw
    · exact hw

theorem beginDq_succeeds : Succeeds Configured (beginDq asset) := by
  refine .read fun round => .read fun expired => ?_
  split_ifs
  · exact .read fun last => .read fun now => (modifyRounds_succeeds _).bind fun _ => succeeds_pure _
  · exact (succeeds_pure _).bind fun _ => succeeds_pure _

theorem openRound_succeeds : Succeeds Configured (openRound asset) := by
  refine (effectivePolicy_succeeds asset).bind fun base => .read fun ctx => .read fun blocked => ?_
  split_ifs
  · exact succeeds_pure _
  · exact (beginDq_succeeds asset).bind fun _ => succeeds_pure _

theorem collectSource_succeeds (r : Round) : Succeeds Configured (collectSource ctx r source) := by
  have hexcluded : Succeeds Configured (checkExcluded ctx.guards source) := by
    unfold checkExcluded
    split_ifs
    · exact isExcluded_succeeds source
    · exact succeeds_pure _
  have hinterval : Succeeds Configured (enforceInterval ctx.minInterval ctx.asset source) := by
    refine .read fun compliant => .read fun submitted => ?_
    split_ifs
    · exact (modifyRounds_succeeds _).bind fun _ => succeeds_pure _
    · exact (succeeds_pure _).bind fun _ => succeeds_pure _
  refine hexcluded.bind fun excluded => ?_
  split_ifs
  · exact succeeds_pure _
  · refine hinterval.bind fun compliant => ?_
    split_ifs
    · exact succeeds_inspect _
    · exact succeeds_pure _

theorem collectRound_succeeds : Succeeds Configured (collectRound ctx) :=
  .read fun _ =>
    succeeds_foldlM (fun r s => collectSource_succeeds s ctx r) {}

theorem storeExclusions_succeeds (exclusions : List OutlierExclusion) :
    Succeeds Configured (storeExclusions asset exclusions) := by
  refine .read fun enabled => ?_
  split_ifs
  · exact modifyRounds_succeeds _
  · exact succeeds_pure _
  · exact (mark_succeeds _).bind fun _ => modifyRounds_succeeds _

theorem maskRound_succeeds (r : Round) : Succeeds Configured (maskRound ctx r) := by
  have hfilter : Succeeds Configured (filterRound ctx.asset r.validPrices r.validSources) :=
    .read fun _ => (storeExclusions_succeeds _ _).bind fun _ =>
      succeeds_pure _
  refine hfilter.bind fun _ => .read fun _ => ?_
  split_ifs
  · exact succeeds_pure _
  · exact succeeds_pure _

theorem suppresses_succeeds : Succeeds Configured (suppresses asset) := by
  refine .read fun window => .read fun now => ?_
  cases window with
  | none => exact succeeds_pure _
  | some b =>
    dsimp only
    split_ifs
    · exact succeeds_pure _
    · exact (modifyRounds_succeeds _).bind fun _ => succeeds_pure _
    · exact succeeds_pure _

theorem shouldPublish_succeeds : Succeeds Configured (shouldPublish asset guards) := by
  refine .read fun policy => ?_
  cases policy with
  | none => exact succeeds_pure _
  | some policy =>
    split_ifs
    · exact .read fun _ => (modifyRounds_succeeds _).bind fun _ =>
        succeeds_pure _
    · exact succeeds_pure _

theorem readyToPublish_succeeds : Succeeds Configured (readyToPublish asset guards) := by
  refine (suppresses_succeeds asset).bind fun suppressed => ?_
  split_ifs
  · exact succeeds_pure _
  · exact shouldPublish_succeeds asset guards

theorem aggregatePrices_succeeds (prices volumes : List Int) :
    Succeeds Configured (aggregatePrices asset prices volumes) := by
  refine .read fun tolerance => ?_
  split_ifs
  · exact succeeds_inspect _
  · exact (effectivePolicy_succeeds asset).bind fun _ => succeeds_pure _

theorem screenPrice_succeeds (r : Round) : Succeeds Configured (screenPrice ctx r) := by
  have hraw : Succeeds Configured (rawMedian ctx r) := by
    refine .read fun tolerance => ?_
    split_ifs
    · exact succeeds_inspect _
    · exact aggregatePrices_succeeds ctx.asset _ _
  have hsanity (price : Int) :
      Succeeds Configured (withheldBySanity ctx.guards ctx.asset price) := by
    unfold withheldBySanity
    split_ifs
    · refine .read fun verdict => ?_
      split_ifs
      · exact (modifyRounds_succeeds _).bind fun _ => succeeds_pure _
      · exact (succeeds_pure _).bind fun _ => succeeds_pure _
    · exact succeeds_pure _
  refine hraw.bind fun raw => .read fun published => ?_
  cases published with
  | none => exact succeeds_pure _
  | some price =>
    refine (hsanity price).bind fun blocked => ?_
    split_ifs
    · exact succeeds_pure _
    · exact succeeds_pure _

theorem decideRound_succeeds : Succeeds Configured (decideRound asset) := by
  refine (openRound_succeeds asset).bind fun opened => ?_
  cases opened with
  | none => exact succeeds_pure _
  | some ctx =>
    refine (collectRound_succeeds ctx).bind fun collected =>
      (maskRound_succeeds ctx collected).bind fun r =>
      (readyToPublish_succeeds asset ctx.guards).bind fun ready => ?_
    split_ifs
    · exact screenPrice_succeeds ctx r
    · exact succeeds_pure _

theorem commitRound_succeeds (ledger decimals : Nat) (recompute : Bool) (d : Decision) :
    Succeeds Configured (commitRound asset ledger decimals recompute d) := by
  have harchive (pub : Publication) :
      Succeeds Configured (archivePublication asset ledger pub) :=
    .read fun _ => Succeeds.bind (succeeds_update fun _ hw => hw) fun _ => .read fun _ =>
      .read fun _ =>
      .read fun _ =>
      Succeeds.bind (succeeds_update fun _ hw => hw) fun _ =>
      Succeeds.bind (succeeds_update fun _ hw => hw) fun _ => modifyRounds_succeeds _
  have hmark : Succeeds Configured (markPublished asset) := by
    refine .read fun policy => ?_
    cases policy with
    | none => exact succeeds_pure _
    | some policy => exact .read fun _ => modifyRounds_succeeds _
  have hrecord (value : AggregatePrice) : Succeeds Configured (recordOriginal asset value) := by
    refine .read fun recorded => .read fun sequence => .read fun actor => ?_
    split_ifs
    · exact succeeds_pure _
    · exact succeeds_update fun _ hw => hw
  exact .read fun _ => Succeeds.bind (succeeds_update fun _ hw => hw) fun _ => .read fun pub =>
    (harchive pub).bind fun _ => hmark.bind fun _ => hrecord _

theorem doAggregate_succeeds : Succeeds Configured (doAggregate asset) := by
  refine .read fun decimals => .read fun ledger => (decideRound_succeeds asset).bind fun decision =>
    ?_
  cases decision with
  | none => exact succeeds_pure _
  | some d => exact commitRound_succeeds asset ledger decimals false d

theorem aggregateAfterSubmission_succeeds :
    Succeeds Configured (aggregateAfterSubmission asset) := by
  have henough : Succeeds Configured (maybeAggregateAfterSubmission asset) :=
    (effectivePolicy_succeeds asset).bind fun _ => .read fun _ =>
      succeeds_pure _
  refine henough.bind fun enough => ?_
  split_ifs
  · exact doAggregate_succeeds asset
  · exact succeeds_pure _

theorem recomputeAsset_succeeds : Succeeds Configured (recomputeAsset asset) := by
  refine .read fun ledger => .read fun decimals =>
    Succeeds.bind ?_ fun _ => succeeds_inspect _
  refine (decideRound_succeeds asset).bind fun decision => ?_
  cases decision with
  | none => exact succeeds_pure _
  | some d => exact commitRound_succeeds asset ledger decimals true d

theorem recomputeLoop_succeeds (left : Nat) (assets : List Address) :
    Succeeds Configured (recomputeLoop left assets) := by
  induction assets generalizing left with
  | nil => simpa [recomputeLoop] using succeeds_pure _
  | cons asset rest ih =>
    cases left with
    | zero => simpa [recomputeLoop] using succeeds_pure _
    | succ left =>
      refine .read fun published => succeeds_ite _ ?_ (ih (left+1))
      exact (recomputeAsset_succeeds asset).bind fun _ => ih left

theorem recomputeBounded_succeeds (assets : List Address) :
    Succeeds Configured (recomputeBounded assets) :=
  .read fun _ => (modifyRounds_succeeds _).bind fun _ =>
    recomputeLoop_succeeds inlineRecomputeAssets assets

end Parts

end PriceOracle.Aggregation
