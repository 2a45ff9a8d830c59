import PriceOracle.Aggregation.HardBand
import PriceOracle.Proposals.Effects

/-! # Late settlements

A proposal can stay expired and unsettled while rounds publish newer aggregates, and the snapshot
writer does not look at the timestamp it replaces. A settlement is current when it is not older than
the aggregate in its place. -/

namespace PriceOracle.Proposals

open Lib.Transaction Lib.Run Model Aggregation

/-- A settlement never replaces an aggregate with a newer timestamp. -/
def NeverOlder (st : Store) (t : PriceTx) : Prop :=
  ∀ call : OptimisticCall, t.call = call.priced → ∀ a ∈ (effects t.call.body t.env st).aggregates,
    ∀ old ∈ a.before.aggregate a.asset, old.timestamp ≤ a.value.timestamp

/-- Made one after the other, the settlements find no newer timestamp than their own. -/
def Current : Map Address Nat → List Settlement → Prop
  | _, [] => True
  | latest, s :: S => (∀ timestamp ∈ latest s.asset, timestamp ≤ s.timestamp) ∧
    Current (Function.update latest s.asset (some s.timestamp)) S

instance decidableCurrent (latest : Map Address Nat) (S : List Settlement) :
    Decidable (Current latest S) :=
  match S with
  | [] => isTrue trivial
  | s :: S =>
    have := decidableCurrent (Function.update latest s.asset (some s.timestamp)) S
    inferInstanceAs (Decidable (_ ∧ _))

def timestamps (agg : Map Address AggregatePrice) : Map Address Nat :=
  fun asset => (agg asset).map AggregatePrice.timestamp

/-- In the storage before the call, the proposals it settles are not older than the aggregates of
their assets, and those of one asset do not follow one another backwards. -/
def SettlesCurrent (st : Store) (t : PriceTx) : Prop :=
  ∀ call : OptimisticCall, t.call = call.priced →
    Current (timestamps st.aggregate) (settlements t.env st call)

section Steps

variable {agg agg' : Map Address AggregatePrice} {S : List Settlement} {as : List AggregateWrite}
  {st : Store} {o : Optimistic} {t : PriceTx}

theorem Records.current (h : Records agg S as agg') (hS : Current (timestamps agg) S) :
    ∀ a ∈ as, ∀ old ∈ a.before.aggregate a.asset, old.timestamp ≤ a.value.timestamp := by
  induction h with
  | nil => simp
  | @cons agg agg' s a S as hbefore hasset hprice htimestamp hrest ih =>
    rw [List.forall_mem_cons]
    constructor
    · intro old hold
      rw [hbefore,hasset] at hold
      rw [htimestamp]
      apply hS.1
      exact Option.mem_map_of_mem _ hold
    · apply ih
      have hnext : timestamps (Function.update agg a.asset (some a.value)) =
          Function.update (timestamps agg) s.asset (some s.timestamp) := by
        funext asset
        unfold timestamps
        rw [← hasset,← htimestamp]
        by_cases ha : asset = a.asset
        · subst ha
          simp
        · simp [ha]
      rw [hnext]
      exact hS.2

theorem keyed_settleAll {sequence : Nat} {ids : List Nat} (h : Keyed o) :
    Keyed (settleAll o sequence ids) := by
  intro i p hp
  change (if i ∈ ids then (o.proposal i).map (settled sequence) else o.proposal i) = some p at hp
  by_cases hi : i ∈ ids
  · rw [if_pos hi] at hp
    obtain ⟨q,hq,rfl⟩ := Option.map_eq_some_iff.1 hp
    rw [settled_id]
    exact h i q hq
  · rw [if_neg hi] at hp
    exact h i p hp

theorem ProposalEffect.keyed {env : Env} {call : OptimisticCall}
    (heff : ProposalEffect env st call o) (h : Keyed st.optimistic) : Keyed o := by
  cases heff with
  | proposed => exact keyed_putProposal h
  | disputed => exact keyed_putProposal h
  | resolved => exact keyed_putProposal h
  | resolvedExternally => exact keyed_putProposal h
  | read => exact keyed_settleAll h
  | swept => exact keyed_settleAll h

/-- A call outside the optimistic oracle leaves its records alone. -/
theorem other_call_keeps_proposals (call : PriceCall)
    (hother : ∀ c : OptimisticCall, call ≠ c.priced) (w : World) :
    Sat call.body w fun _ w' => w'.store.optimistic = w.store.optimistic := by
  have hframe {T : List Region} {m : Contract Unit} (hm : Frame T m)
      (hT : Region.optimistic ∉ T) : Sat m w fun _ w' =>
        w'.store.optimistic = w.store.optimistic :=
    (hm w).mono fun _ _ hw => hw .optimistic hT
  cases call with
  | aggregate call =>
    let R (w w' : World) : Prop := w'.store.optimistic = w.store.optimistic
    have hR : RespectsAggregation R := {
      ignored := fun _ _ h => h .optimistic (by decide)
      commit := fun asset decimals recompute d w _ =>
        (commitRound_frame asset w.env.sequence decimals recompute d w).mono
          fun _ _ hw => hw .optimistic (by decide) }
    exact AggregationCall.body_preserves hR call w
  | triggerAggregation asset =>
    exact hframe (triggerAggregation_frame asset) (by decide)
  | correctPrice asset newPrice reason =>
    exact hframe ((correctPrice_frame asset newPrice reason).bind fun _ => preserves_pure _)
      (by decide)
  | migrateStorage batchSize => exact hframe (migrateStorage_frame batchSize) (by decide)
  | setBounds asset arg => exact hframe (setBounds_frame asset arg) (by decide)
  | clearBounds asset => exact hframe (clearBounds_frame asset) (by decide)
  | proposePrice proposer asset price timestamp bondAmount =>
    exact absurd rfl (hother (.proposePrice proposer asset price timestamp bondAmount))
  | disputeProposal disputer id => exact absurd rfl (hother (.disputeProposal disputer id))
  | resolveDispute id resolution => exact absurd rfl (hother (.resolveDispute id resolution))
  | resolveViaExternalData id price proof =>
    exact absurd rfl (hother (.resolveViaExternalData id price proof))
  | getProposal id => exact absurd rfl (hother (.getProposal id))
  | getActiveProposals => exact absurd rfl (hother .getActiveProposals)

theorem execPrice_keyed (hst : Keyed st.optimistic) : Keyed (execPrice st t).optimistic := by
  refine commit_of_sat (P := fun w : World => Keyed w.store.optimistic) hst ?_
  by_cases hcall : ∃ c : OptimisticCall, t.call = c.priced
  · obtain ⟨c,hc⟩ := hcall
    rw [hc]
    exact (c.body_effect hst).mono fun _ _ hw => hw.1.keyed hst
  · rw [not_exists] at hcall
    refine (other_call_keeps_proposals t.call hcall _).mono fun _ _ hw => ?_
    rw [hw]
    exact hst

theorem execPrice_neverOlder (hst : Keyed st.optimistic)
    (h : SettlesCurrent st t) : NeverOlder st t := by
  intro c hc
  have hcommit := commit_of_sat (P := fun w : World => ∀ a ∈ w.log.aggregates,
    ∀ old ∈ a.before.aggregate a.asset, old.timestamp ≤ a.value.timestamp)
    (m := c.body) (s := World.enter t.env st) (fun a ha => by cases ha)
    ((c.body_effect (w := World.enter t.env st) hst).mono fun _ w' hw => by
      obtain ⟨as,hlog,hrec⟩ := hw.2.writes
      rw [hlog]
      exact hrec.current (h c hc))
  rw [hc]
  exact hcommit

end Steps

/-- In every run of submissions, rounds, triggers, corrections and changes of the bounds interleaved
with the optimistic oracle, from its first use, no settlement replaces an aggregate with a newer
timestamp, as long as every call that settles finds its settlements current. -/
theorem settlements_never_older (st : Store) (ts : List PriceTx) (hst : st.optimistic = {})
    (hts : ∀ x ∈ steps execPrice st ts, SettlesCurrent x.1 x.2) :
    ∀ x ∈ steps execPrice st ts, NeverOlder x.1 x.2 := by
  have hkeyed : Keyed st.optimistic := by
    rw [hst]
    intro i p hp
    cases hp
  have hkeep (s : Store) (t : PriceTx) (hs : Keyed s.optimistic) (h : SettlesCurrent s t) :
      NeverOlder s t ∧ Keyed (execPrice s t).optimistic :=
    ⟨execPrice_neverOlder hs h,execPrice_keyed hs⟩
  exact (steps_satisfy (I := fun s : Store => Keyed s.optimistic) hkeep hkeyed hts).1

/-- The price `500` of time `timestamp` is proposed for asset `10`, a round publishes the stored
price of time `5`, and the expired proposal is read. -/
def lateRead (timestamp : Nat) : List PriceTx :=
  [⟨.concrete 1 5 [7], .proposePrice 7 10 500 timestamp 100000000⟩,
    ⟨.concrete 50 6 [], .aggregate (.recomputeAssetPrice 10)⟩,
    ⟨.concrete 200 7 [], .getProposal 1⟩]

/-- A proposal of time `3` replaces the aggregate of time `5`. -/
theorem late_read_replaces_newer :
    ¬∀ x ∈ steps execPrice (pricedStore 140) (lateRead 3), NeverOlder x.1 x.2 := by
  simp only [lateRead,steps_cons,steps_nil,List.forall_mem_cons]
  rintro ⟨-,-,hread,-⟩
  have hall := hread (.getProposal 1) rfl
  revert hall
  decide

theorem current_read_never_older :
    ((run execPrice (pricedStore 140) (lateRead 5)).aggregate 10).map AggregatePrice.price =
      some 500 ∧
    ∀ x ∈ steps execPrice (pricedStore 140) (lateRead 5), NeverOlder x.1 x.2 := by
  refine ⟨by decide,?_⟩
  apply settlements_never_older (pricedStore 140) (lateRead 5) rfl
  simp only [lateRead,steps_cons,steps_nil,List.forall_mem_cons]
  refine ⟨?_,?_,?_,by simp⟩ <;> intro c hc <;> cases c <;> cases hc <;> decide

end PriceOracle.Proposals
