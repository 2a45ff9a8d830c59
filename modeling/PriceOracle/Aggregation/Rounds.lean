import PriceOracle.Aggregation.Decisions

/-! # What an aggregation round does

The commit of a round, and what every relation that ignores round records and holds of the commit
therefore holds of: the round, and the calls that run one. -/

namespace PriceOracle.Aggregation

open Lib.Transaction Lib.Mask Model

section Committing

variable (asset : Address) (ledger decimals : Nat) (recompute : Bool)

theorem recordOriginal_frame (aggregate : AggregatePrice) :
    Frame [.corrections] (recordOriginal asset aggregate) := by
  refine .read fun recorded => .read fun sequence => .read fun actor => ?_
  split_ifs
  · exact preserves_pure _
  · exact modifyCorrections_frame _

/-- Everything a commit changes. The publication is archived in the storage that already holds the
new aggregate. -/
structure Committed (asset : Address) (ledger : Nat) (value : AggregatePrice) (pub : Publication)
    (w w' : World) : Prop where
  aggregate : w'.store.aggregate = Function.update w.store.aggregate asset (some value)
  written : w'.log.aggregates = w.log.aggregates ++ [⟨w.store, asset, value⟩]
  noted : ∃ st, st.history = w.store.history ∧ st.provenance = w.store.provenance ∧
    st.config = w.store.config ∧ st.flags = w.store.flags ∧
    w'.log.publications = w.log.publications ++
      [⟨st, asset, ledger, w.store.nextRecord w.env asset ledger pub⟩]
  history : w'.store.history = (w.store.archiveRound w.env asset ledger pub).history
  provenance : w'.store.provenance = (w.store.archiveRound w.env asset ledger pub).provenance

theorem commitRound_frame (d : Decision) :
    Frame [.aggregates,.history,.provenance,.rounds,.corrections]
      (commitRound asset ledger decimals recompute d) := by
  refine .read fun prev => ?_
  refine ((writeAggregate_frame asset _).mono (by simp)).bind fun _ => ?_
  refine .read fun publication => ?_
  refine ((archivePublication_frame asset ledger publication).mono (by simp)).bind fun _ => ?_
  refine ((markPublished_frame asset).mono (by simp)).bind fun _ => ?_
  exact (recordOriginal_frame asset _).mono (by simp)

/-- The commit writes the decided price as the next version and archives its contributors. -/
theorem commitRound_sat (d : Decision) (w : World) :
    Sat (commitRound asset ledger decimals recompute d) w fun _ w' =>
      ∃ pub : Publication, pub.price = d.price ∧ pub.contributors = w.store.contributors d.round ∧
        Committed asset ledger
          (d.aggregate (w.store.previousAggregate asset decimals) decimals recompute) pub w w' := by
  unfold commitRound
  simp only [sat_bind,sat_readStore,sat_writeAggregate]
  set value := d.aggregate (w.store.previousAggregate asset decimals) decimals recompute
  set v : World := { w with
    store := { w.store with aggregate := Function.update w.store.aggregate asset (some value) }
    log := { w.log with aggregates := w.log.aggregates ++ [⟨w.store,asset,value⟩] } }
  set pub := v.store.publication asset ledger d value
  refine ((archivePublication_sat asset ledger pub v).and
    (archivePublication_frame asset ledger pub v)).mono fun _ u hu => ?_
  obtain ⟨⟨hnoted,hhistory,hprovenance⟩,hvu⟩ := hu
  refine (markPublished_frame asset u).mono fun _ t hut => ?_
  refine (recordOriginal_frame asset value t).mono fun _ s hts => ?_
  have haggregates : (s.store.aggregate,s.log.aggregates) =
      (v.store.aggregate,v.log.aggregates) :=
    (hts .aggregates (by simp)).trans
      ((hut .aggregates (by simp)).trans (hvu .aggregates (by simp)))
  have hprov : (s.store.provenance,s.log.publications) =
      (u.store.provenance,u.log.publications) :=
    (hts .provenance (by simp)).trans (hut .provenance (by simp))
  have hhist : s.store.history = u.store.history :=
    (hts .history (by simp)).trans (hut .history (by simp))
  rw [Prod.mk.injEq] at haggregates hprov
  exact ⟨pub,rfl,rfl,haggregates.1,haggregates.2,
    ⟨v.store,rfl,rfl,rfl,rfl,hprov.2.trans hnoted⟩,hhist.trans hhistory,
    hprov.1.trans hprovenance⟩

end Committing

/-- A round without a quorum commits nothing. -/
theorem idleRound_sat {asset : Address} {w : World}
    (hidle : w.store.quorate w.env asset = false) (decimals : Nat) (recompute : Bool) :
    Sat (aggregateAssetMode asset w.env.sequence decimals recompute) w fun _ w' => Quiet w w' := by
  unfold aggregateAssetMode
  rw [sat_bind]
  refine (decideRound_sat asset w).mono fun decision v hv => ?_
  cases decision with
  | none => exact (sat_pure _).2 hv.2
  | some d =>
    have hquorate := (hv.1 d rfl).2
    rw [hidle] at hquorate
    cases hquorate

/-- A relation on worlds that ignores round records and holds of every commit of what a round has
concluded. -/
structure RespectsRounds (R : World → World → Prop) : Prop where
  quiet : ∀ w w', Quiet w w' → R w w'
  commit : ∀ asset decimals recompute d w, Concluded w.env w.store asset d →
    Sat (commitRound asset w.env.sequence decimals recompute d) w fun _ w' => R w w'

theorem respectsRounds_of_regions {T : List Region}
    (hT : [.aggregates,.history,.provenance,.rounds,.corrections] ⊆ T) :
    RespectsRounds (layout.agreeOff T) where
  quiet w w' h r hr := h r fun h' => hr (hT (by rw [List.mem_singleton.1 h']; decide))
  commit asset decimals recompute d w _ :=
    ((commitRound_frame asset w.env.sequence decimals recompute d).mono hT) w

section Preserving

variable {R : World → World → Prop} [IsTrans World R] (hR : RespectsRounds R)

include hR

omit [IsTrans World R] in
theorem RespectsRounds.frame {α : Type} {m : Contract α} (h : Frame [.rounds] m) : Preserves R m :=
  h.weaken hR.quiet

theorem aggregateAssetMode_sat (asset : Address) (decimals : Nat) (recompute : Bool) (w : World) :
    Sat (aggregateAssetMode asset w.env.sequence decimals recompute) w fun _ w' => R w w' := by
  unfold aggregateAssetMode
  rw [sat_bind]
  refine (decideRound_concluded asset w).mono fun decision v hv => ?_
  obtain ⟨hwv,hconcluded⟩ := hv
  cases decision with
  | none => exact (sat_pure _).2 (hR.quiet w v hwv)
  | some d =>
    rw [← Quiet.env hwv]
    refine (hR.commit asset decimals recompute d v (hconcluded d rfl)).mono fun _ u hvu => ?_
    exact IsTrans.trans w v u (hR.quiet w v hwv) hvu

theorem doAggregate_preserves (asset : Address) : Preserves R (doAggregate asset) := by
  intro w
  unfold doAggregate
  rw [sat_bind,sat_readStore,sat_bind,sat_getSequence]
  exact aggregateAssetMode_sat hR asset _ false w

theorem recomputeAsset_preserves (asset : Address) : Preserves R (recomputeAsset asset) := by
  intro w
  unfold recomputeAsset
  rw [sat_bind,sat_getSequence,sat_bind,sat_readStore,sat_bind]
  refine (aggregateAssetMode_sat hR asset _ true w).mono fun _ v hwv => ?_
  exact (sat_readStore _ _).2 hwv

theorem fireTrigger_preserves (asset : Address) : Preserves R (fireTrigger asset) :=
  (hR.frame getTimestamp_frame).bind fun _ => (hR.frame (modifyRounds_frame _)).bind fun _ =>
    (hR.frame (modifyRounds_frame _)).bind fun _ => doAggregate_preserves hR asset

theorem recordSubmissionForTriggers_preserves (asset : Address) (price : Int) :
    Preserves R (recordSubmissionForTriggers asset price) := by
  refine (hR.frame (readStore_frame _)).bind fun threshold =>
    (hR.frame (readStore_frame _)).bind fun deviates =>
    (hR.frame (readStore_frame _)).bind fun count => ?_
  split_ifs
  · exact fireTrigger_preserves hR asset
  · exact fireTrigger_preserves hR asset
  · exact hR.frame (modifyRounds_frame _)
  · exact hR.frame (preserves_pure _)

theorem pokeTimeTrigger_preserves (asset : Address) : Preserves R (pokeTimeTrigger asset) := by
  refine (hR.frame (checkRegisteredAsset_frame asset)).bind fun _ =>
    (hR.frame (readStore_frame _)).bind fun interval =>
    (hR.frame getTimestamp_frame).bind fun now =>
    (hR.frame (readStore_frame _)).bind fun last => ?_
  split_ifs
  · exact hR.frame (preserves_pure _)
  · exact (fireTrigger_preserves hR asset).bind fun _ => hR.frame (preserves_pure _)

theorem recomputeLoop_preserves (left : Nat) (assets : List Address) :
    Preserves R (recomputeLoop left assets) := by
  induction assets generalizing left with
  | nil => exact hR.frame (by simpa [recomputeLoop] using preserves_pure _)
  | cons asset rest ih =>
    cases left with
    | zero => exact hR.frame (by simpa [recomputeLoop] using preserves_pure _)
    | succ left =>
      refine (hR.frame (readStore_frame _)).bind fun published => ?_
      split_ifs
      · exact (recomputeAsset_preserves hR asset).bind fun _ => ih left
      · exact ih (left+1)

theorem recomputeBounded_preserves (assets : List Address) :
    Preserves R (recomputeBounded assets) :=
  (hR.frame getSequence_frame).bind fun _ => (hR.frame (modifyRounds_frame _)).bind fun _ =>
    recomputeLoop_preserves hR inlineRecomputeAssets assets

theorem maybeAggregateAfterSubmission_preserves (asset : Address) :
    Preserves R (maybeAggregateAfterSubmission asset) :=
  (hR.frame (effectivePolicy_frame asset)).bind fun _ => (hR.frame (readStore_frame _)).bind
    fun _ => hR.frame (preserves_pure _)

end Preserving

end PriceOracle.Aggregation

/-! ## Contributors of a provenance record

The mask step rebuilds the prices of a round but not its sources and submission ledgers, while the
contributors loop reads all three by position. -/

namespace PriceOracle.Model.Store

open Lib.Mask

variable (env : Env) (st : Store) (asset : Address)

/-- Which counted submissions of the next round survive both filters. -/
def roundMask : List Bool :=
  st.survivorMask asset (st.contextOf env asset).policy (st.countedRound env asset).validPrices

/-- The sources whose prices enter the next aggregate. -/
def survivingSources : List Address :=
  retain (st.roundMask env asset) (st.countedRound env asset).validSources

end PriceOracle.Model.Store

namespace PriceOracle.Aggregation

open Lib.Transaction Lib.Mask Model

/-- Every entry carries the stored submission of the source it names, and the sources named are
those whose prices entered the aggregate. -/
structure FaithfulContributors (env : Env) (st : Store) (asset : Address)
    (contributors : List ProvenanceEntry) : Prop where
  stored : ∀ c ∈ contributors, ∃ e, st.submission (asset, c.source) = some e ∧
    c.price = e.price ∧ c.submissionLedger = e.lastUpdated
  named : ∀ s, (∃ c ∈ contributors, c.source = s) ↔ s ∈ st.survivingSources env asset

theorem length_deviationMask (policy : EffectivePolicy) (prices : List Int)
    (h : (policy.deviationMask prices).isEmpty = false) :
    (policy.deviationMask prices).length = prices.length := by
  unfold EffectivePolicy.deviationMask Pricing.deviationMask at h ⊢
  split_ifs at h ⊢
  · simp at h
  · simp
  · simp at h

theorem length_survivorMask (st : Store) (asset : Address) (policy : EffectivePolicy)
    (prices : List Int) : (st.survivorMask asset policy prices).length = prices.length := by
  have hkeep := Outlier.length_keepMask (st.outlierConfigOf asset) prices
  unfold Store.survivorMask survives
  split_ifs with hdev
  · exact hkeep
  · rw [List.length_zipWith,hkeep,length_deviationMask policy prices (by simpa using hdev),
      Nat.min_self]

section Masked

variable {st : Store} {asset : Address} {r : Round} {entries : List (Address × PriceEntry)}
  (h : Lists st asset r entries) (keep : List Bool)

include h

theorem masked_prices : (r.masked keep).validPrices =
    (retain keep entries).map fun x => x.2.price := by
  have hretain : retain keep r.validPrices = (retain keep entries).map fun x => x.2.price := by
    rw [h.prices,retain_map]
  unfold Round.masked
  dsimp only
  split_ifs with hlen
  · rw [← hretain,retain_eq_self hlen]
  · exact hretain

theorem masked_count : (r.masked keep).contributingSources = (retain keep entries).length := by
  have hretain : (retain keep r.validPrices).length = (retain keep entries).length := by
    rw [h.prices,retain_map,List.length_map]
  unfold Round.masked
  dsimp only
  split_ifs with hlen
  · rw [← hretain,hlen,h.prices,List.length_map,h.count]
  · exact hretain

theorem masked_sources : (r.masked keep).validSources = entries.map Prod.fst := by
  unfold Round.masked
  dsimp only
  split_ifs <;> exact h.sources

theorem masked_subLedgers :
    (r.masked keep).validSubLedgers = entries.map fun x => x.2.lastUpdated := by
  unfold Round.masked
  dsimp only
  split_ifs <;> exact h.subLedgers

/-- The contributors pair the first sources and ledgers with the retained prices. -/
theorem contributors_masked :
    (st.contributors (r.masked keep)).map (fun c => (c.source,c.price,c.submissionLedger)) =
      List.zipWith (fun x y => (x.1,y.2.price,x.2.lastUpdated)) entries (retain keep entries) := by
  have hle : (retain keep entries).length ≤ entries.length := (retain_sublist keep entries).length_le
  refine List.ext_getElem ?_ fun i h1 h2 => ?_
  · simp [Store.contributors,masked_count h keep,hle]
  · have hi : i < (retain keep entries).length := by
      rw [List.length_zipWith] at h2
      omega
    have hn : i < entries.length := by omega
    simp [Store.contributors,masked_sources h keep,masked_subLedgers h keep,masked_prices h keep,hi,hn]

theorem contributor_sources :
    (st.contributors (r.masked keep)).map ProvenanceEntry.source =
      (entries.map Prod.fst).take (retain keep entries).length := by
  have hle : (retain keep entries).length ≤ entries.length := (retain_sublist keep entries).length_le
  have hfst := congrArg (List.map Prod.fst) (contributors_masked h keep)
  rw [List.map_map] at hfst
  refine Eq.trans hfst (List.ext_getElem ?_ fun i h1 h2 => ?_)
  · simp [hle]
  · simp

end Masked

/-- The contributors of a decision are faithful exactly when its masks are leading. -/
theorem faithful_iff_leading {env : Env} {st : Store} {asset : Address} {d : Decision}
    (hd : Decided env st asset d) :
    FaithfulContributors env st asset (st.contributors d.round) ↔
      Leading (st.roundMask env asset) := by
  obtain ⟨entries,hnodup,hlists⟩ := gather_lists env st (st.contextOf env asset)
  change Lists st asset (st.countedRound env asset) entries at hlists
  have hround : d.round = (st.countedRound env asset).masked (st.roundMask env asset) := by
    rw [hd.round,hd.policy,Store.roundMask]
  have hlen : (st.roundMask env asset).length = (entries.map Prod.fst).length := by
    rw [Store.roundMask,length_survivorMask,hlists.prices,List.length_map,List.length_map]
  have hsurvivors : st.survivingSources env asset =
      (retain (st.roundMask env asset) entries).map Prod.fst := by
    rw [Store.survivingSources,hlists.sources,retain_map]
  rw [hround]
  constructor
  · intro hfaithful
    refine leading_of_subset_take hnodup hlen fun s hs => ?_
    have hmem : s ∈ st.survivingSources env asset := by
      rwa [hsurvivors,← retain_map]
    obtain ⟨c,hc,rfl⟩ := (hfaithful.named s).2 hmem
    rw [retain_map,List.length_map,← contributor_sources hlists]
    exact List.mem_map_of_mem hc
  · intro hlead
    have hzip := contributors_masked hlists (st.roundMask env asset)
    rw [zipWith_retain hlead] at hzip
    refine ⟨fun c hc => ?_,fun s => ?_⟩
    · have hmem : (c.source,c.price,c.submissionLedger) ∈
          (retain (st.roundMask env asset) entries).map
            fun x => (x.1,x.2.price,x.2.lastUpdated) :=
        hzip ▸ List.mem_map_of_mem hc
      obtain ⟨x,hx,hxc⟩ := List.mem_map.1 hmem
      simp only [Prod.mk.injEq] at hxc
      refine ⟨x.2,?_,hxc.2.1.symm,hxc.2.2.symm⟩
      rw [← hxc.1]
      exact hlists.stored x ((retain_sublist _ entries).subset hx)
    · have hnames := congrArg (List.map Prod.fst) hzip
      simp only [List.map_map,Function.comp_def] at hnames
      rw [hsurvivors,← hnames,List.mem_map]

theorem contributors_quiet {w w' : World} (h : Quiet w w') (r : Round) :
    w'.store.contributors r = w.store.contributors r := by
  unfold Store.contributors Store.getCapBps Store.on
  rw [h.flags,h.config]

/-- The provenance record of a round is faithful if and only if the two masks drop no counted
submission that precedes a surviving one. -/
theorem provenance_contributors_faithful_iff (env : Env) (st : Store) (asset : Address)
    (ledger decimals : Nat) (recompute : Bool) (note : PublicationNote)
    (hnote : note ∈
      (effects (aggregateAssetMode asset ledger decimals recompute) env st).publications) :
    FaithfulContributors env st asset note.record.contributors ↔
      Leading (st.roundMask env asset) := by
  revert note
  refine commit_of_sat (P := fun w : World => ∀ note ∈ w.log.publications,
    FaithfulContributors env st asset note.record.contributors ↔
      Leading (st.roundMask env asset)) (by simp [World.enter]) ?_
  unfold aggregateAssetMode
  rw [sat_bind]
  refine (decideRound_sat asset (World.enter env st)).mono fun decision v hv => ?_
  obtain ⟨hdecided,hquiet⟩ := hv
  have hempty : v.log.publications = [] := congrArg Prod.snd (hquiet .provenance (by simp))
  cases decision with
  | none =>
    rw [sat_pure,hempty]
    simp
  | some d =>
    refine (commitRound_sat asset ledger decimals recompute d v).mono fun _ u hu => ?_
    obtain ⟨pub,-,hcontributors,hcommitted⟩ := hu
    obtain ⟨before,-,-,-,-,hnoted⟩ := hcommitted.noted
    rw [hnoted,hempty]
    intro note hnote
    rw [List.nil_append,List.mem_singleton] at hnote
    subst hnote
    have hrecord : (v.store.nextRecord v.env asset ledger pub).contributors =
        st.contributors d.round :=
      hcontributors.trans (contributors_quiet hquiet d.round)
    rw [hrecord]
    exact faithful_iff_leading (hdecided d rfl).1

/-- Asset `10` with a deviation limit of ten percent and one submission each of sources 1 to 3. -/
def deviationStore (p₁ p₂ p₃ : Int) : Store where
  flags := fun f => f = .assetPolicy
  config := { minSources := some 1
              assetPolicy := fun a => if a = 10 then some ⟨none, none, none, some 1000⟩ else none }
  registry := { sources := [1, 2, 3] }
  submission := fun k =>
    if k.1 = 10 then [none, some p₁, some p₂, some p₃].getD k.2 none |>.map fun p =>
      ⟨p, 5, k.2, 18, 1, 5, none⟩
    else none

/-- With the far submission in the last place the record is faithful. -/
theorem last_outlier_attributed :
    ∃ note ∈ (effects (aggregateAssetMode 10 1 18 false) (.concrete 1 5 [])
        (deviationStore 100 100 200)).publications,
      FaithfulContributors (.concrete 1 5 []) (deviationStore 100 100 200) 10
        note.record.contributors := by
  have hpublished : 0 < (effects (aggregateAssetMode 10 1 18 false) (.concrete 1 5 [])
      (deviationStore 100 100 200)).publications.length := by decide
  obtain ⟨note,hnote⟩ := List.exists_mem_of_length_pos hpublished
  refine ⟨note,hnote,?_⟩
  rw [provenance_contributors_faithful_iff _ _ _ _ _ _ note hnote]
  decide

/-- A first submission far from the others shifts the names against the prices. -/
theorem first_outlier_misattributed :
    ¬∀ note ∈ (effects (aggregateAssetMode 10 1 18 false) (.concrete 1 5 [])
        (deviationStore 200 100 100)).publications,
      FaithfulContributors (.concrete 1 5 []) (deviationStore 200 100 100) 10
        note.record.contributors := by
  intro hall
  have hmissing : ∃ note ∈ (effects (aggregateAssetMode 10 1 18 false) (.concrete 1 5 [])
      (deviationStore 200 100 100)).publications,
      ¬∃ c ∈ note.record.contributors, c.source = 3 := by decide
  obtain ⟨note,hnote,hnone⟩ := hmissing
  exact hnone (((hall note hnote).named 3).2 (by decide))

end PriceOracle.Aggregation
