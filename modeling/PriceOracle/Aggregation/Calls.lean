import PriceOracle.Submissions.Paths

/-! # The calls that run aggregation rounds

Submissions on every path, bridged prices, the permissionless recomputation and the time trigger:
whatever these calls do to aggregates, history and provenance, they do through commits of rounds. A
relation that tolerates commits and ignores submissions is kept by all of them. -/

namespace PriceOracle.Aggregation

open Lib.Transaction Model Submissions

inductive AggregationCall
  | submit (call : SubmissionCall)
  | applyBridgedPrice (bridgeSource asset : Address) (price : Int) (timestamp : Nat)
  | recomputeAssetPrice (asset : Address)
  | pokeTimeTrigger (asset : Address)

def AggregationCall.body : AggregationCall → Contract Unit
  | submit call => call.body
  | applyBridgedPrice bridgeSource asset price timestamp =>
    Model.applyBridgedPrice bridgeSource asset price timestamp
  | recomputeAssetPrice asset => do
    let _ ← recomputeAsset asset
    pure ()
  | pokeTimeTrigger asset => do
    let _ ← Model.pokeTimeTrigger asset
    pure ()

/-- A relation that ignores bookkeeping and submissions and holds of every commit. -/
structure RespectsAggregation (R : World → World → Prop) : Prop where
  ignored : ∀ w w', layout.agreeOff [.rounds, .stats, .relayers, .feeMarket, .submissions, .auths]
    w w' → R w w'
  commit : ∀ asset decimals recompute d w, Concluded w.env w.store asset d →
    Sat (commitRound asset w.env.sequence decimals recompute d) w fun _ w' => R w w'

section Calls

variable {R : World → World → Prop} (hR : RespectsAggregation R)

include hR

theorem RespectsAggregation.frame {α : Type} {T : List Region} {m : Contract α} (hm : Frame T m)
    (hT : T ⊆ [.rounds,.stats,.relayers,.feeMarket,.submissions,.auths]) : Preserves R m :=
  (hm.mono hT).weaken hR.ignored

theorem RespectsAggregation.submissions : RespectsSubmissions R where
  books w w' h := hR.ignored w w' fun r hr => h r fun hb => hr (by revert hb; cases r <;> decide)
  auth a := hR.frame (requireAuth_frame a) (by decide)
  commit := hR.commit

theorem RespectsAggregation.rounds : RespectsRounds R where
  quiet w w' h := hR.ignored w w' fun r hr => h r fun hb => hr (by revert hb; cases r <;> decide)
  commit := hR.commit

theorem RespectsAggregation.admits (w : World) (callers : List Address) (gates : List Gate)
    (x : Leg) : Admits R w callers gates x :=
  fun t entry _ _ _ _ =>
    hR.frame (writeSubmission_frame x.asset x.source entry) (by decide) t

variable [Std.Refl R] [IsTrans World R]

/-- Every call that runs rounds stays within the relation. -/
theorem AggregationCall.body_preserves (call : AggregationCall) : Preserves R call.body := by
  cases call with
  | submit call =>
    intro w
    exact (call.body_run hR.submissions fun x _ => hR.admits w [] call.gates x).mono
      fun _ _ hu => hu.rel
  | applyBridgedPrice bridgeSource asset price timestamp =>
    intro w
    exact (applyBridgedPrice_run hR.submissions
      (hR.admits w [] relayedGates ⟨asset,bridgeSource,price⟩) timestamp).mono
      fun _ _ hu => hu.within.rel
  | recomputeAssetPrice asset =>
    exact (recomputeAsset_preserves hR.rounds asset).bind fun _ => preserves_pure _
  | pokeTimeTrigger asset =>
    exact (pokeTimeTrigger_preserves hR.rounds asset).bind fun _ => preserves_pure _

end Calls

/-- The administrator's limits on the archive. -/
inductive HistorySetting
  | maxHistoryLength (newMax : Nat)
  | maxHistoryPerAsset (newMax : Nat)
  | maxEventsPerCall (newMax : Nat)
  | compactionThresholdBps (thresholdBps : Nat)

def HistorySetting.body : HistorySetting → Contract Unit
  | maxHistoryLength newMax => setMaxHistoryLength newMax
  | maxHistoryPerAsset newMax => setMaxHistoryPerAsset newMax
  | maxEventsPerCall newMax => setMaxEventsPerCall newMax
  | compactionThresholdBps thresholdBps => setCompactionThresholdBps thresholdBps

/-- Changing a limit changes settings only. -/
theorem HistorySetting.body_frame (setting : HistorySetting) :
    Frame [.auths,.config,.flags,.suspension] setting.body := by
  cases setting with
  | maxHistoryLength newMax =>
    exact asAdmin_frame (.check fun _ => configure_frame _ _)
  | maxHistoryPerAsset newMax => exact asAdmin_frame (configure_frame _ _)
  | maxEventsPerCall newMax => exact asAdmin_frame (configure_frame _ _)
  | compactionThresholdBps thresholdBps =>
    exact asAdmin_frame (((mark_frame _).mono (by simp)).bind fun _ =>
      (modifyConfig_frame _).mono (by simp))

theorem triggerAggregation_frame (asset : Address) :
    Frame [.aggregates,.rounds] (triggerAggregation asset) :=
  (checkRegisteredAsset_frame asset).bind fun _ => .read fun _ => .read fun _ => .check fun _ =>
    (effectivePolicy_frame asset).bind fun _ => .read fun _ =>
    .read fun _ => .check fun _ =>
    (aggregatePrices_frame asset _ _).bind fun _ =>
    ((writeAggregate_frame asset _).mono (by simp)).bind fun _ =>
    (modifyRounds_frame _).mono (by simp)

end PriceOracle.Aggregation

/-! ## What the rounds of a call publish

Whatever a call that runs rounds writes as an aggregate, a round has concluded it, in a storage that
differs from the one before the call only by what submissions and rounds write. -/

namespace PriceOracle.Aggregation

open Lib.Transaction Model Submissions

/-- New aggregates are concluded in worlds that differ from the first in the regions `T` only. -/
structure Publishes (T : List Region) (w w' : World) : Prop where
  kept : layout.agreeOff T w w'
  concluded : ∀ x ∈ w'.log.aggregates, x ∈ w.log.aggregates ∨
    ∃ t, x.before = t.store ∧ layout.agreeOff T w t ∧
      ∃ d, Concluded t.env t.store x.asset d ∧ x.value.price = d.price

section Publishing

variable {T : List Region}

instance : Std.Refl (Publishes T) := ⟨fun w => ⟨Std.Refl.refl w, fun _ h => Or.inl h⟩⟩

instance : IsTrans World (Publishes T) where
  trans w v u hwv hvu := by
    refine ⟨IsTrans.trans w v u hwv.kept hvu.kept, fun x hx => ?_⟩
    rcases hvu.concluded x hx with hold | ⟨t, hbefore, hvt, hd⟩
    · exact hwv.concluded x hold
    · exact Or.inr ⟨t, hbefore, IsTrans.trans w v t hwv.kept hvt, hd⟩

theorem publishes_of_agreeOff {w w' : World} {S : List Region} (h : layout.agreeOff S w w')
    (hS : S ⊆ T) (haggregates : .aggregates ∉ S) : Publishes T w w' := by
  have hlog : w'.log.aggregates = w.log.aggregates :=
    congrArg Prod.snd (h .aggregates haggregates)
  refine ⟨fun r hr => h r fun hmem => hr (hS hmem),?_⟩
  rw [hlog]
  exact fun _ hx => Or.inl hx

theorem publishes_of_frame {α : Type} {S : List Region} {m : Contract α} (hm : Frame S m)
    (hS : S ⊆ T) (haggregates : .aggregates ∉ S) : Preserves (Publishes T) m :=
  hm.weaken fun _ _ h => publishes_of_agreeOff h hS haggregates

theorem commitRound_publishes
    (hT : [.aggregates,.history,.provenance,.rounds,.corrections] ⊆ T) (asset : Address)
    (decimals : Nat) (recompute : Bool) (d : Decision) (w : World)
    (hd : Concluded w.env w.store asset d) :
    Sat (commitRound asset w.env.sequence decimals recompute d) w fun _ w' =>
      Publishes T w w' := by
  refine ((commitRound_sat asset w.env.sequence decimals recompute d w).and
    (commitRound_frame asset w.env.sequence decimals recompute d w)).mono fun _ w' hw => ?_
  obtain ⟨⟨pub,-,-,hcommitted⟩,hframe⟩ := hw
  refine ⟨fun r hr => hframe r fun hmem => hr (hT hmem),?_⟩
  rw [hcommitted.written]
  intro x hx
  rcases List.mem_append.1 hx with hold | hnew
  · exact Or.inl hold
  · rw [List.mem_singleton.1 hnew]
    exact Or.inr ⟨w,rfl,Std.Refl.refl w,d,hd,rfl⟩

theorem publishes_respectsRounds
    (hT : [.aggregates,.history,.provenance,.rounds,.corrections] ⊆ T) :
    RespectsRounds (Publishes T) where
  quiet _ _ h := publishes_of_agreeOff h (fun r hr => by
    rw [List.mem_singleton.1 hr]
    exact hT (by decide)) (by decide)
  commit := commitRound_publishes hT

end Publishing

theorem publishes_respectsAggregation : RespectsAggregation (Publishes touched) where
  ignored _ _ h := publishes_of_agreeOff h (by decide) (by decide)
  commit := commitRound_publishes (by decide)

/-- Every aggregate that a call running rounds writes was concluded by a round, under the
configuration that the call found. -/
theorem AggregationCall.aggregates_concluded (call : AggregationCall) (env : Env) (st : Store) :
    ∀ x ∈ (effects call.body env st).aggregates, x.before.config = st.config ∧
      ∃ d, Concluded env x.before x.asset d ∧ x.value.price = d.price := by
  have hcommit : Publishes touched (World.enter env st) (commit call.body (World.enter env st)) :=
    commit_of_sat (Std.Refl.refl _)
      (call.body_preserves publishes_respectsAggregation (World.enter env st))
  intro x hx
  rcases hcommit.concluded x hx with hold | ⟨t,hbefore,hwt,d,hd,hprice⟩
  · cases hold
  · have henv : t.env = env := hwt .env (by decide)
    rw [hbefore,← henv]
    exact ⟨hwt .config (by decide),d,hd,hprice⟩

end PriceOracle.Aggregation
