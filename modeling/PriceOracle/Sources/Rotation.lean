import PriceOracle.Sources.Withdrawal

/-! # What a rotation carries over

A rotation puts a new address in the place of an old one. It moves the registration, the lifecycle
record and the submissions, and leaves behind everything else that is kept under the old address. -/

namespace PriceOracle.Sources

open Lib.Transaction Lib.Run Model Aggregation

section Effect

variable {w : World} (old new : Address)

/-- The submission of `old` for one asset becomes that of `new`. -/
def passOn (m : Map (Address × Address) PriceEntry) (asset : Address) :
    Map (Address × Address) PriceEntry :=
  match m (asset, old) with
  | none => m
  | some entry => Function.update (Function.update m (asset, old) none) (asset, new)
      (some { entry with source := new })

variable {old new}

theorem passOn_apply (hne : old ≠ new) (m : Map (Address × Address) PriceEntry)
    (asset a s : Address) : passOn old new m asset (a,s) =
      if a = asset then
        if s = old then none
        else if s = new then
          ((m (asset,old)).map fun entry => { entry with source := new }).or (m (asset,new))
        else m (asset,s)
      else m (a,s) := by
  unfold passOn
  cases hentry : m (asset,old) with
  | none =>
    dsimp only
    split_ifs with ha hs hs'
    · rw [ha,hs,hentry]
    · simp [ha,hs']
    · rw [ha]
    · rfl
  | some entry =>
    split_ifs <;> simp_all

theorem passOn_all (hne : old ≠ new) (m : Map (Address × Address) PriceEntry)
    (assets : List Address) (a s : Address) : assets.foldl (passOn old new) m (a,s) =
      if a ∈ assets then
        if s = old then none
        else if s = new then
          ((m (a,old)).map fun entry => { entry with source := new }).or (m (a,new))
        else m (a,s)
      else m (a,s) := by
  induction assets generalizing m with
  | nil => simp
  | cons asset rest ih =>
    rw [List.foldl_cons,ih]
    simp only [passOn_apply hne,List.mem_cons]
    by_cases ha : a = asset
    · subst ha
      by_cases hrest : a ∈ rest <;> by_cases hs : s = old <;> by_cases hs' : s = new <;>
        simp [hrest,hs,hs',hne.symm]
    · simp [ha]

variable (old new)

theorem moveSubmissions_sat : Sat (moveSubmissions old new) w fun _ w' =>
    w'.store = { w.store with
      submission := w.store.registry.assets.foldl (passOn old new) w.store.submission } := by
  have hstep (asset : Address) (t : World) : Sat (moveSubmission old new asset) t fun _ t' =>
      t'.store = { t.store with submission := passOn old new t.store.submission asset } := by
    rw [moveSubmission,sat_bind,sat_readStore]
    unfold passOn
    cases t.store.submission (asset,old) with
    | none => exact (sat_pure _).2 rfl
    | some entry =>
      rw [sat_bind,sat_update,writeSubmission,sat_update]
  let step (st : Store) (asset : Address) : Store :=
    { st with submission := passOn old new st.submission asset }
  have hloop : Sat (forM w.store.registry.assets (moveSubmission old new)) w fun _ w' =>
      w'.store = w.store.registry.assets.foldl step w.store :=
    sat_forM_view (fun w : World => w.store) step (fun asset _ t => hstep asset t) w
  refine hloop.mono fun _ w' hw' => hw'.trans ?_
  have hfold (st : Store) (assets : List Address) :
      assets.foldl (fun (st : Store) asset =>
        { st with submission := passOn old new st.submission asset }) st =
        { st with submission := assets.foldl (passOn old new) st.submission } := by
    induction assets generalizing st with
    | nil => rfl
    | cons asset rest ih => exact ih _
  exact hfold w.store w.store.registry.assets

/-- The storage in the middle of a rotation: what is written so far, and the rest as it was. -/
def Turning (c : Config) (r : Registry) (m : Map (Address × Address) PriceEntry) (st st' : Store) :
    Prop :=
  ∃ (assets : Map Address (List Address)) (records : SourceRecords),
    records.legacySource = st.sources.legacySource ∧
    records.pendingRemoval = st.sources.pendingRemoval ∧
    st' = { st with
      config := c
      registry := r
      gates := { st.gates with sourceAssets := assets }
      submission := m
      sources := records }

section Turning

variable {c : Config} {r : Registry} {m : Map (Address × Address) PriceEntry} {st : Store}
  {t : World}

theorem onKeyRotated_turning : Sat (onKeyRotated old new) w fun _ w' =>
    Turning { w.store.config with lifecycle := moveKey w.store.config.lifecycle old new }
      w.store.registry w.store.submission w.store w'.store := by
  rw [onKeyRotated,sat_bind,sat_readStore]
  have hrecord : w.store.getRecord old = w.store.config.lifecycle old := rfl
  cases hold : w.store.config.lifecycle old with
  | none =>
    rw [hrecord,hold]
    refine (sat_pure _).2 ⟨w.store.gates.sourceAssets,w.store.sources,rfl,rfl,?_⟩
    rw [moveKey,hold]
  | some record =>
    rw [hrecord,hold]
    simp only [writeRecord,modifyConfig,modifySources,sat_bind,sat_update]
    refine ⟨w.store.gates.sourceAssets,{ w.store.sources with
      identityOwner := Function.update w.store.sources.identityOwner record.identity (some new) },
      rfl,rfl,?_⟩
    rw [moveKey,hold]

theorem modifyRegistry_turning (f : Registry → Registry) (h : Turning c r m st t.store) :
    Sat (modifyRegistry f) t fun _ u => Turning c (f r) m st u.store := by
  obtain ⟨assets,records,hlegacy,hpending,ht⟩ := h
  rw [modifyRegistry,sat_update,ht]
  exact ⟨assets,records,hlegacy,hpending,rfl⟩

theorem modifySources_turning (f : SourceRecords → SourceRecords)
    (hf : ∀ x, (f x).legacySource = x.legacySource ∧ (f x).pendingRemoval = x.pendingRemoval)
    (h : Turning c r m st t.store) :
    Sat (modifySources f) t fun _ u => Turning c r m st u.store := by
  obtain ⟨assets,records,hlegacy,hpending,ht⟩ := h
  rw [modifySources,sat_update,ht]
  exact ⟨assets,f records,(hf records).1.trans hlegacy,(hf records).2.trans hpending,rfl⟩

theorem moveSourceAssets_turning (h : Turning c r m st t.store) :
    Sat (moveSourceAssets old new) t fun _ u => Turning c r m st u.store := by
  obtain ⟨assets,records,hlegacy,hpending,ht⟩ := h
  rw [moveSourceAssets,sat_update]
  cases t.store.gates.sourceAssets old with
  | none => exact ⟨assets,records,hlegacy,hpending,ht⟩
  | some list =>
    rw [ht]
    exact ⟨_,records,hlegacy,hpending,rfl⟩

theorem moveSubmissions_turning (h : Turning c r m st t.store) :
    Sat (moveSubmissions old new) t fun _ u =>
      Turning c r (r.assets.foldl (passOn old new) m) st u.store := by
  obtain ⟨assets,records,hlegacy,hpending,ht⟩ := h
  refine (moveSubmissions_sat old new).mono fun _ u hu => ?_
  rw [hu,ht]
  exact ⟨assets,records,hlegacy,hpending,rfl⟩

end Turning

/-- All that a rotation changes. -/
structure Rotated (st st' : Store) : Prop where
  source : st.isSource old = true
  fresh : st.isSource new = false
  turned : Turning { st.config with lifecycle := moveKey st.config.lifecycle old new }
    (st.registry.renameSource old new)
    (st.registry.assets.foldl (passOn old new) st.submission) st st'

theorem rotateSourceKey_sat : Sat (rotateSourceKey old new) w fun _ w' =>
    Rotated old new w.store w'.store := by
  simp only [rotateSourceKey,checkIsSource,checkNotRevoked,sat_bind,
    sat_requireAuth,sat_readStore,sat_ensure,sat_getSequence]
  intro _ _ hsource htaken _
  refine (onKeyRotated_turning old new).mono fun _ t ht _ => ?_
  refine (modifyRegistry_turning _ ht).mono fun _ a ha => ?_
  refine (modifySources_turning _ (fun _ => by exact ⟨rfl,rfl⟩) ha).mono fun _ b hb => ?_
  refine (modifySources_turning _ (fun r => ?_) hb).mono fun _ c hc => ?_
  · unfold moveVerification
    cases r.verification old <;> exact ⟨rfl,rfl⟩
  refine (moveSourceAssets_turning old new hc).mono fun _ d hd => ?_
  refine (moveSubmissions_turning old new hd).mono fun _ e he => ?_
  refine (modifySources_turning _ (fun _ => by exact ⟨rfl,rfl⟩) he).mono fun _ w' hw' => ?_
  have hassets : (w.store.registry.renameSource old new).assets = w.store.registry.assets := by
    unfold Registry.renameSource
    split_ifs <;> rfl
  rw [hassets] at hw'
  exact ⟨hsource,htaken,hw'⟩

end Effect

section Counting

variable {env : Env} {st st' : Store} {old new : Address}

def swapped (old new source : Address) : Address := if source = old then new else source

def renameRound (f : Address → Address) (r : Round) : Round :=
  { r with validSources := r.validSources.map f }

theorem sampleSources_map (f : Address → Address) (seed maxAgg total i kept : Nat)
    (sources : List Address) : sampleSources seed maxAgg total i kept (sources.map f) =
      (sampleSources seed maxAgg total i kept sources).map f := by
  induction sources generalizing i kept with
  | nil => rfl
  | cons s rest ih =>
    rw [List.map_cons,sampleSources,sampleSources]
    split_ifs
    · rfl
    · rw [ih,List.map_cons]
    · exact ih _ _

theorem selectSources_subset (seed : Nat) : st.selectSources seed ⊆ st.registry.sources := by
  unfold Store.selectSources
  dsimp only
  split_ifs
  · exact (sampleSources_sublist _ _ _ _ _ _).subset
  · exact List.Subset.refl _

theorem renameSource_sources {r : Registry} (hnew : new ∉ r.sources) :
    (r.renameSource old new).sources = r.sources.map (swapped old new) := by
  unfold Registry.renameSource
  rw [dif_neg hnew]
  rfl

/-- A submission that the rounds of its asset do not count, whoever else takes part. -/
def KeptOut (env : Env) (st : Store) (asset source : Address) (entry : PriceEntry) : Prop :=
  let ctx := st.contextOf env asset
  (ctx.guards.anySourceExcluded = true ∧
      (st.isSourceInactive source || st.suspended env source) = true) ∨
    st.compliant env ctx.minInterval asset source = false ∨ ctx.screens env entry = false

/-- The prices that a recomputation of the asset aggregates. -/
def aggregated (env : Env) (st : Store) (asset : Address) : List Int :=
  let counted := st.countedRound env asset
  (counted.masked (st.survivorMask asset (st.contextOf env asset).policy
    counted.validPrices)).validPrices

/-- What is held under an address, for and against it. -/
@[ext] structure Standing where
  bond : Int
  demerits : Nat
  status : DisqualificationStatus
  nonCompliant : Address → Bool
  correlated : Address → Bool
  lastSubmission : Address → Option Nat

def standing (env : Env) (st : Store) (source : Address) : Standing where
  bond := st.getSourceDepositedBond source
  demerits := (st.sourceDemerits env source).demerits
  status := (st.sourceDemerits env source).status
  nonCompliant asset := st.rounds.nonCompliant (source, asset)
  correlated asset := st.stats.correlationFlagged (source, asset)
  lastSubmission asset := st.stats.lastSubmissionLedger (source, asset)

/-- The standing of an address that nothing is held under. -/
def Standing.blank : Standing := ⟨0, 0, .active, fun _ => false, fun _ => false, fun _ => none⟩

/-- Nothing is held under either address, and where `old` has no submission or no record, what
`new` has left from before does not count. -/
structure Unburdened (env : Env) (st : Store) (old new : Address) : Prop where
  blank : standing env st old = .blank ∧ standing env st new = .blank
  inactive : st.isSourceInactive new = st.isSourceInactive old
  record : st.config.lifecycle old = none → st.onProbation new = false
  leftover : ∀ asset ∈ st.registry.assets, st.submission (asset, old) = none →
    ∀ entry ∈ st.submission (asset, new), KeptOut env st asset new entry

section Blank

variable {source : Address} (h : standing env st source = .blank)

include h

theorem suspended_of_blank : st.suspended env source = false := by
  have hstatus : (st.sourceDemerits env source).status = .active := congrArg Standing.status h
  rw [Store.suspended,hstatus]
  rfl

theorem correlated_of_blank (asset : Address) :
    st.stats.correlationFlagged (source,asset) = false :=
  congrFun (congrArg Standing.correlated h) asset

theorem intervals_of_blank (asset : Address) :
    st.stats.lastSubmissionLedger (source,asset) = none :=
  congrFun (congrArg Standing.lastSubmission h) asset

end Blank

section Renaming

variable {assets : Map Address (List Address)} {records : SourceRecords} {ctx : RoundContext}
  {asset : Address} {s : Address}

/-- The storage after a rotation, written out. -/
def turnedStore (st : Store) (old new : Address) (assets : Map Address (List Address))
    (records : SourceRecords) : Store :=
  { st with
    config := { st.config with lifecycle := moveKey st.config.lifecycle old new }
    registry := st.registry.renameSource old new
    gates := { st.gates with sourceAssets := assets }
    submission := st.registry.assets.foldl (passOn old new) st.submission
    sources := records }

theorem contextOf_turned :
    (turnedStore st old new assets records).contextOf env asset = st.contextOf env asset := rfl

theorem submission_turned (hne : old ≠ new) (hasset : asset ∈ st.registry.assets) (s : Address) :
    (turnedStore st old new assets records).submission (asset,s) =
      if s = old then none
      else if s = new then
        ((st.submission (asset,old)).map fun entry => { entry with source := new }).or
          (st.submission (asset,new))
      else st.submission (asset,s) :=
  (passOn_all hne _ _ _ _).trans (if_pos hasset)

theorem moveKey_other {ν : Type} (m : Map Address ν) (hold : s ≠ old)
    (hnew : s ≠ new) : moveKey m old new s = m s := by
  unfold moveKey
  cases m old with
  | none => rfl
  | some v =>
    dsimp only
    rw [Function.update_of_ne hnew,Function.update_of_ne hold]

theorem onProbation_turned (s : Address) :
    (turnedStore st old new assets records).onProbation s =
      (st.anyProbation &&
        (moveKey st.config.lifecycle old new s).any fun record => !record.graduated) := rfl

theorem onProbation_new (h : Unburdened env st old new) :
    (turnedStore st old new assets records).onProbation new = st.onProbation old := by
  rw [onProbation_turned,moveKey]
  cases hrecord : st.config.lifecycle old with
  | none =>
    have hfree : st.onProbation new = false := h.record hrecord
    rw [Store.onProbation] at hfree
    rw [Store.onProbation,hrecord]
    simpa using hfree
  | some record =>
    dsimp only
    rw [Function.update_self,Store.onProbation,hrecord]

/-- A source under another name that is treated as before is counted as before. -/
theorem collect_rename {f : Address → Address} (g : PriceEntry → Address) (r : Round)
    (hinactive : st'.isSourceInactive (f s) = st.isSourceInactive s)
    (hsuspended : st'.suspended env (f s) = st.suspended env s)
    (hcompliant : st'.compliant env ctx.minInterval ctx.asset (f s) =
      st.compliant env ctx.minInterval ctx.asset s) (hsubmission : st'.submission (ctx.asset,f s) =
      (st.submission (ctx.asset,s)).map fun entry => { entry with source := g entry })
    (hflagged : st'.isCorrelationFlagged ctx.asset (f s) = st.isCorrelationFlagged ctx.asset s)
    (hprobation : st'.onProbation (f s) = st.onProbation s) :
    st'.collect env ctx (renameRound f r) (f s) = renameRound f (st.collect env ctx r s) := by
  have hadmitted : Store.admit env st' ctx (renameRound f r) (f s) =
      renameRound f ( st.admit env ctx r s) := by
    unfold Store.admit
    rw [hsubmission,hflagged,hprobation]
    cases st.submission (ctx.asset,s) with
    | none => rfl
    | some entry =>
      have hscreens : ctx.screens env { entry with source := g entry } = ctx.screens env entry := rfl
      have hcounted : (renameRound f r).probationCounted = r.probationCounted := rfl
      dsimp only [Option.map_some]
      rw [hscreens,hcounted]
      split_ifs
      · rfl
      · rfl
      · simp [Round.push,renameRound,entryWeight]
  unfold Store.collect
  rw [hinactive,hsuspended,hcompliant,hadmitted]
  split_ifs <;> rfl

theorem collect_other (hne : old ≠ new) (hasset : ctx.asset ∈ st.registry.assets)
    (hold : s ≠ old) (hnew : s ≠ new) (r : Round) :
    (turnedStore st old new assets records).collect env ctx (renameRound (swapped old new) r)
        (swapped old new s) = renameRound (swapped old new) (st.collect env ctx r s) := by
  have hself : swapped old new s = s := if_neg hold
  refine collect_rename PriceEntry.source r ?_ ?_ ?_ ?_ ?_ ?_
  · rw [hself]
    rfl
  · rw [hself]
    rfl
  · rw [hself]
    rfl
  · rw [hself,submission_turned hne hasset,if_neg hold,if_neg hnew]
    cases st.submission (ctx.asset,s) <;> rfl
  · rw [hself]
    rfl
  · rw [hself,onProbation_turned,moveKey_other _ hold hnew]
    rfl

theorem collect_keptOut (entry : PriceEntry)
    (hsubmission : st'.submission (ctx.asset,s) = some entry)
    (hout : (ctx.guards.anySourceExcluded = true ∧
        (st'.isSourceInactive s || st'.suspended env s) = true) ∨
      st'.compliant env ctx.minInterval ctx.asset s = false ∨ ctx.screens env entry = false)
    (r : Round) : st'.collect env ctx r s = r := by
  unfold Store.collect
  split_ifs with hexcluded hcompliant
  · rfl
  · unfold Store.admit
    rw [hsubmission]
    dsimp only
    rw [if_pos]
    rcases hout with h | h | h
    · exact absurd h hexcluded
    · rw [hcompliant] at h
      cases h
    · exact .inr h
  · rfl

theorem collect_nothing (hsubmission : st'.submission (ctx.asset,s) = none)
    (r : Round) : st'.collect env ctx r s = r := by
  have hadmitted : st'.admit env ctx r s = r := by
    unfold Store.admit
    rw [hsubmission]
  unfold Store.collect
  rw [hadmitted]
  split_ifs <;> rfl

/-- Of the new address, a round counts what it counted of the old one. -/
theorem collect_new (h : Unburdened env st old new) (hne : old ≠ new)
    (hasset : asset ∈ st.registry.assets) (r : Round) :
    (turnedStore st old new assets records).collect env (st.contextOf env asset)
        (renameRound (swapped old new) r) (swapped old new old) =
      renameRound (swapped old new) (st.collect env (st.contextOf env asset) r old) := by
  have hself : swapped old new old = new := if_pos rfl
  have hmoved : (turnedStore st old new assets records).submission (asset,new) =
      ((st.submission (asset,old)).map fun entry => { entry with source := new }).or
        (st.submission (asset,new)) := by
    rw [submission_turned hne hasset,if_neg hne.symm,if_pos rfl]
  cases hentry : st.submission (asset,old) with
  | some entry =>
    refine collect_rename (fun _ => new) r ?_ ?_ ?_ ?_ ?_ ?_
    · rw [hself]
      exact h.inactive
    · rw [hself]
      exact (suspended_of_blank h.blank.2).trans (suspended_of_blank h.blank.1).symm
    · rw [hself]
      change st.compliant env _ asset new = st.compliant env _ asset old
      rw [Store.compliant,Store.compliant,intervals_of_blank h.blank.1,
        intervals_of_blank h.blank.2]
    · rw [hself]
      refine hmoved.trans ?_
      change _ = (st.submission (asset,old)).map _
      rw [hentry]
      rfl
    · rw [hself]
      change st.isCorrelationFlagged asset new = st.isCorrelationFlagged asset old
      rw [Store.isCorrelationFlagged,Store.isCorrelationFlagged,correlated_of_blank h.blank.1,
        correlated_of_blank h.blank.2]
    · rw [hself]
      exact onProbation_new h
  | none =>
    rw [hentry,Option.map_none,Option.none_or] at hmoved
    have hold : st.collect env (st.contextOf env asset) r old = r := collect_nothing hentry r
    rw [hold,hself]
    cases hleft : st.submission (asset,new) with
    | none => exact collect_nothing (hmoved.trans hleft) _
    | some entry =>
      refine collect_keptOut entry ?_ ?_ _
      · exact hmoved.trans hleft
      · exact h.leftover asset hasset hentry entry hleft

theorem selectSources_turned (hnew : new ∉ st.registry.sources) (seed : Nat) :
    (turnedStore st old new assets records).selectSources seed =
      (st.selectSources seed).map (swapped old new) := by
  have hsources : (turnedStore st old new assets records).registry.sources =
      st.registry.sources.map (swapped old new) := renameSource_sources hnew
  have hmax : (turnedStore st old new assets records).getMaxAggregationSources =
      st.getMaxAggregationSources := rfl
  unfold Store.selectSources
  dsimp only
  rw [hsources,hmax,List.length_map,sampleSources_map]
  split_ifs <;> rfl

theorem countedRound_turned (h : Unburdened env st old new) (hne : old ≠ new)
    (hnew : new ∉ st.registry.sources) (hasset : asset ∈ st.registry.assets) :
    (turnedStore st old new assets records).countedRound env asset =
      renameRound (swapped old new) (st.countedRound env asset) := by
  have hloop (sources : List Address) (hsources : new ∉ sources) (r : Round) :
      (sources.map (swapped old new)).foldl
        ((turnedStore st old new assets records).collect env (st.contextOf env asset))
        (renameRound (swapped old new) r) =
      renameRound (swapped old new)
        (sources.foldl (st.collect env (st.contextOf env asset)) r) := by
    induction sources generalizing r with
    | nil => rfl
    | cons s rest ih =>
      rw [List.mem_cons,not_or] at hsources
      have hstep : (turnedStore st old new assets records).collect env (st.contextOf env asset)
          (renameRound (swapped old new) r) (swapped old new s) =
            renameRound (swapped old new) (st.collect env (st.contextOf env asset) r s) := by
        by_cases hold : s = old
        · rw [hold]
          exact collect_new h hne hasset r
        · exact collect_other hne hasset hold (Ne.symm hsources.1) r
      rw [List.map_cons,List.foldl_cons,List.foldl_cons,hstep]
      exact ih hsources.2 _
  unfold Store.countedRound Store.gather
  rw [contextOf_turned,selectSources_turned hnew]
  exact hloop _ (fun hmem => hnew (selectSources_subset _ hmem)) {}

theorem aggregated_turned (h : Unburdened env st old new) (hne : old ≠ new)
    (hnew : new ∉ st.registry.sources) (hasset : asset ∈ st.registry.assets) :
    aggregated env (turnedStore st old new assets records) asset = aggregated env st asset := by
  have hmask : (turnedStore st old new assets records).survivorMask asset
      (st.contextOf env asset).policy = st.survivorMask asset (st.contextOf env asset).policy := rfl
  unfold aggregated
  rw [contextOf_turned,hmask,countedRound_turned h hne hnew hasset]
  unfold Round.masked
  dsimp only [renameRound]
  split_ifs <;> rfl

end Renaming

end Counting

/-- The rotation preserves what the source stands for. -/
structure CarriedOver (env : Env) (st st' : Store) (old new : Address) : Prop where
  excluded : (st'.isSourceInactive new || st'.suspended env new) =
    (st.isSourceInactive old || st.suspended env old)
  kept : standing env st' new = standing env st old
  cleared : standing env st' old = .blank
  unregistered : st'.isSource old = false ∧ old ∉ st'.registry.sources
  prices : ∀ asset ∈ st.registry.assets,
    (aggregated env st' asset).Perm (aggregated env st asset)

section Steps

variable {env : Env} {st st' : Store} {old new : Address}

theorem Rotated.ne (h : Rotated old new st st') : old ≠ new := by
  rintro rfl
  have hfresh := h.fresh
  rw [h.source] at hfresh
  cases hfresh

theorem Rotated.eq_turned (h : Rotated old new st st') :
    ∃ assets records, records.legacySource = st.sources.legacySource ∧
      records.pendingRemoval = st.sources.pendingRemoval ∧
      st' = turnedStore st old new assets records := by
  obtain ⟨assets,records,hlegacy,hpending,heq⟩ := h.turned
  exact ⟨assets,records,hlegacy,hpending,heq⟩

theorem renameSource_active (r : Registry) : (r.renameSource old new).srcActive =
    Function.update (Function.update r.srcActive old none) new (some true) := by
  unfold Registry.renameSource
  split_ifs <;> rfl

theorem not_listed (hlisted : ∀ a ∈ st.registry.sources, st.registry.srcActive a = some true)
    (hfresh : st.isSource new = false) : new ∉ st.registry.sources := by
  intro hmem
  rw [Store.isSource,hlisted new hmem] at hfresh
  cases hfresh

/-- The standing of an address does not change by a rotation, whoever it belongs to then. -/
theorem standing_turned {assets : Map Address (List Address)} {records : SourceRecords}
    (source : Address) :
    standing env (turnedStore st old new assets records) source = standing env st source := by
  have hbond : (turnedStore st old new assets records).getSourceDepositedBond source =
      st.getSourceDepositedBond source := by
    have hregistry : (st.registry.renameSource old new).sourceBond = st.registry.sourceBond := by
      unfold Registry.renameSource
      split_ifs <;> rfl
    change ((st.registry.renameSource old new).sourceBond source).getD 0 = _
    rw [hregistry]
    rfl
  unfold standing
  rw [hbond]
  rfl

theorem Rotated.carriedOver (h : Rotated old new st st') (hnew : new ∉ st.registry.sources)
    (hfree : Unburdened env st old new) : CarriedOver env st st' old new := by
  obtain ⟨assets,records,-,-,rfl⟩ := h.eq_turned
  refine
    { excluded := ?_
      kept := ?_
      cleared := ?_
      unregistered := ⟨?_,?_⟩
      prices := fun asset hasset => ?_ }
  · change (st.isSourceInactive new || st.suspended env new) = _
    rw [hfree.inactive,suspended_of_blank hfree.blank.1,suspended_of_blank hfree.blank.2]
  · rw [standing_turned,hfree.blank.1,hfree.blank.2]
  · rw [standing_turned,hfree.blank.1]
  · change ((st.registry.renameSource old new).srcActive old).getD false = false
    rw [renameSource_active,Function.update_of_ne h.ne,Function.update_self]
    rfl
  · change old ∉ (st.registry.renameSource old new).sources
    rw [renameSource_sources hnew,List.mem_map]
    rintro ⟨a,-,ha⟩
    unfold swapped at ha
    split_ifs at ha with hself
    · exact h.ne ha.symm
    · exact hself ha
  · rw [aggregated_turned hfree h.ne hnew hasset]

theorem Rotated.sound (h : Rotated old new st st') (hsound : Sound st) : Sound st' := by
  have hnew : new ∉ st.registry.sources := not_listed hsound.listed h.fresh
  obtain ⟨assets,records,hlegacy,hpending,rfl⟩ := h.eq_turned
  refine ⟨hsound.configured,hsound.flagged,?_,fun a => ?_,fun a => ?_⟩
  · change ∀ a ∈ (st.registry.renameSource old new).sources,
      (st.registry.renameSource old new).srcActive a = some true
    rw [renameSource_sources hnew,renameSource_active]
    intro a ha
    obtain ⟨b,hb,rfl⟩ := List.mem_map.1 ha
    unfold swapped
    split_ifs with hself
    · exact Function.update_self ..
    · rw [Function.update_of_ne,Function.update_of_ne hself]
      · exact hsound.listed b hb
      · rintro rfl
        exact hnew hb
  · exact (congrFun hlegacy a).trans (hsound.legacySource a)
  · exact (congrFun hpending a).trans (hsound.pendingRemoval a)

end Steps

inductive RotationCall
  | rotateSourceKey (source newAddress : Address)
  | other (call : RemovalCall)

def RotationCall.body : RotationCall → Contract Unit
  | rotateSourceKey source newAddress => Model.rotateSourceKey source newAddress
  | other call => call.body

structure RotationTx where
  env : Env
  call : RotationCall

def execRotation (st : Store) (t : RotationTx) : Store := invoke t.call.body t.env st

/-- A rotation that succeeds carries over. -/
def Carries (st : Store) (t : RotationTx) : Prop :=
  match t.call with
  | .rotateSourceKey source newAddress => failure t.call.body t.env st = none →
      CarriedOver t.env st (execRotation st t) source newAddress
  | .other _ => True

/-- A rotation that succeeds has nothing to carry over but what it moves. -/
def Light (st : Store) (t : RotationTx) : Prop :=
  match t.call with
  | .rotateSourceKey source newAddress => failure t.call.body t.env st = none →
      Unburdened t.env st source newAddress
  | .other _ => True

theorem execRotation_sound {st : Store} (t : RotationTx) (h : Sound st) :
    Sound (execRotation st t) := by
  obtain ⟨env,call⟩ := t
  cases call with
  | rotateSourceKey source newAddress =>
    exact invoke_of_sat h ((rotateSourceKey_sat source newAddress).mono fun _ _ hw => hw.sound h)
  | other call => exact execRemoval_sound ⟨env,call⟩ h

/-- In a run from a sound state whose rotations are all light, every rotation that succeeds
preserves the standing of its source, and the prices that every asset would be aggregated from. -/
theorem rotations_carry_over {st : Store} (ts : List RotationTx) (h : Sound st)
    (hlight : ∀ x ∈ steps execRotation st ts, Light x.1 x.2) :
    ∀ x ∈ steps execRotation st ts, Carries x.1 x.2 := by
  refine (steps_satisfy (I := Sound) (C := Light) (P := Carries) ?_ h hlight).1
  intro s t hs ht
  refine ⟨?_,execRotation_sound t hs⟩
  obtain ⟨env,call⟩ := t
  cases call with
  | rotateSourceKey source newAddress =>
    intro hsuccess
    have hrotated : Rotated source newAddress s (invoke (rotateSourceKey source newAddress) env s) :=
      invoke_of_success hsuccess (rotateSourceKey_sat (w := World.enter env s) source newAddress)
    exact hrotated.carriedOver (not_listed hs.listed hrotated.fresh) (ht hsuccess)
  | other call => trivial

/-- A listed source with a submission, which has never sent a heartbeat. -/
def silentStore : Store where
  config := { admin := some 9, minSources := some 1 }
  registry := {
    assets := [7]
    sources := [1]
    srcActive := fun a => if a = 1 then some true else none }
  submission := fun k => if k = (7, 1) then some ⟨100, 4000, 1, 7, 10, 4000, none⟩ else none

theorem silentStore_sound : Sound silentStore := by
  refine ⟨rfl,fun _ ha => ?_,by decide,fun _ => rfl,fun _ => rfl⟩
  cases ha

def rotation : RotationTx := ⟨.concrete 100 4000 [1, 2], .rotateSourceKey 1 2⟩

/-- Three queries of the overdue source mark it inactive. -/
def overdueQueries : List RotationTx :=
  List.replicate 3 ⟨.concrete 100 4000 [], .other (.isSourceInactive 1)⟩

def launderingRun : List RotationTx := overdueQueries ++ [rotation]

/-- The new address is not inactive, and the submission counts again. -/
theorem rotation_launders :
    Sound silentStore ∧
      (¬∀ x ∈ steps execRotation silentStore launderingRun, Carries x.1 x.2) ∧
      (run execRotation silentStore overdueQueries).isSourceInactive 1 = true ∧
      aggregated (.concrete 100 4000 []) (run execRotation silentStore overdueQueries) 7 = [] ∧
      (run execRotation silentStore launderingRun).isSourceInactive 2 = false ∧
      aggregated (.concrete 100 4000 []) (run execRotation silentStore launderingRun) 7 =
        [100] := by
  refine ⟨silentStore_sound,fun h => ?_,by decide +kernel,by decide +kernel,
    by decide +kernel,by decide +kernel⟩
  have hcarried := h (run execRotation silentStore overdueQueries,rotation)
    (by simp [launderingRun,overdueQueries,List.replicate,run]) (by decide +kernel)
  exact absurd hcarried.excluded (by decide +kernel)

theorem silentStore_unburdened (env : Env) : Unburdened env silentStore 1 2 := by
  refine ⟨⟨rfl,rfl⟩,rfl,fun _ => rfl,fun asset _ _ entry hentry => ?_⟩
  have hnone : silentStore.submission (asset,2) = none := if_neg (by simp)
  rw [hnone] at hentry
  cases hentry

theorem light_run :
    (∀ x ∈ steps execRotation silentStore [rotation], Carries x.1 x.2) ∧
      (run execRotation silentStore [rotation]).registry.sources = [2] ∧
      aggregated (.concrete 100 4000 []) (run execRotation silentStore [rotation]) 7 = [100] := by
  refine ⟨rotations_carry_over [rotation] silentStore_sound fun x hx => ?_,by decide +kernel,
    by decide +kernel⟩
  rw [steps_cons,steps_nil,List.mem_singleton] at hx
  rw [hx]
  exact fun _ => silentStore_unburdened _

end PriceOracle.Sources
