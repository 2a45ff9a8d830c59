import PriceOracle.Aggregation.Rounds

/-! # Rounds that filter nothing

A round in which sampling, filters and masks have nothing to say counts the stored submissions of
the compliant sources, in the order of the registry, and keeps all of them. -/

namespace PriceOracle.Model.Store

variable (st : Store) (asset : Address)

/-- The stored submissions of the sources that `keep` keeps. -/
def storedBy (keep : Address → Bool) (sources : List Address) : List (Address × PriceEntry) :=
  (sources.filter keep).filterMap fun src =>
    (st.submission (asset, src)).map fun entry => (src, entry)

theorem storedBy_cons (keep : Address → Bool) (source : Address) (rest : List Address) :
    st.storedBy asset keep (source :: rest) =
      (if keep source then
        ((st.submission (asset,source)).map fun entry => (source,entry)).toList
      else []) ++ st.storedBy asset keep rest := by
  unfold storedBy
  rw [List.filter_cons]
  split_ifs
  · rw [List.filterMap_cons]
    cases st.submission (asset,source) <;> rfl
  · rfl

end PriceOracle.Model.Store

namespace PriceOracle.Aggregation

open Model

section Counting

variable {env : Env} {st : Store} {ctx : RoundContext}

def counting (env : Env) (st : Store) (ctx : RoundContext) (r : Round)
    (x : Address × PriceEntry) : Round :=
  r.push x.1 x.2 (entryWeight env x.2 ctx.curve) (ctx.probationGuard && st.onProbation x.1)

variable (env st ctx) in
theorem foldl_counting (xs : List (Address × PriceEntry)) (r : Round) :
    (xs.foldl (counting env st ctx) r).validPrices = r.validPrices ++ xs.map (fun x => x.2.price) ∧
    (xs.foldl (counting env st ctx) r).validVolumes =
      r.validVolumes ++ xs.map (fun x => x.2.volume.getD 0) ∧
    (xs.foldl (counting env st ctx) r).validSources = r.validSources ++ xs.map Prod.fst ∧
    (xs.foldl (counting env st ctx) r).contributingSources = r.contributingSources + xs.length := by
  induction xs generalizing r with
  | nil => simp
  | cons x rest ih =>
    obtain ⟨hprices,hvolumes,hsources,hcount⟩ := ih (counting env st ctx r x)
    rw [List.foldl_cons]
    refine ⟨?_,?_,?_,?_⟩
    · rw [hprices]
      simp [counting,Round.push]
    · rw [hvolumes]
      simp [counting,Round.push]
    · rw [hsources]
      simp [counting,Round.push]
    · have hone : (counting env st ctx r x).contributingSources = r.contributingSources+1 := rfl
      rw [List.length_cons]
      omega

/-- None of the filters of a round keeps the submission out. -/
structure Welcome (env : Env) (st : Store) (ctx : RoundContext) (x : Address × PriceEntry) :
    Prop where
  included : ctx.guards.anySourceExcluded = true →
    st.isSourceInactive x.1 = false ∧ st.suspended env x.1 = false
  unflagged : st.isCorrelationFlagged ctx.asset x.1 = false
  screened : ctx.screens env x.2 = true

/-- How many of the submissions are of sources on probation. -/
def onTrial (st : Store) (ctx : RoundContext) (xs : List (Address × PriceEntry)) : Nat :=
  (xs.filter fun x => ctx.probationGuard && st.onProbation x.1).length

theorem collect_welcome {r : Round} {source : Address} {entry : PriceEntry}
    (hstored : st.submission (ctx.asset,source) = some entry)
    (hcompliant : st.compliant env ctx.minInterval ctx.asset source = true)
    (h : Welcome env st ctx (source,entry))
    (hroom : r.probationCounted + onTrial st ctx [(source,entry)] ≤ probationMaxCounted) :
    st.collect env ctx r source = counting env st ctx r (source,entry) := by
  have hpass : ¬(ctx.guards.anySourceExcluded = true ∧
      (st.isSourceInactive source || st.suspended env source) = true) := by
    rintro ⟨hguard,hexcluded⟩
    obtain ⟨hinactive,hsuspended⟩ := h.included hguard
    rw [hinactive,hsuspended] at hexcluded
    cases hexcluded
  unfold Store.collect
  rw [if_neg hpass,if_pos hcompliant]
  unfold Store.admit
  rw [hstored]
  dsimp only
  rw [if_neg (by rw [h.unflagged,h.screened]; simp),if_neg]
  · rfl
  · rintro ⟨hprobation,hfull⟩
    have hone : onTrial st ctx [(source,entry)] = 1 := by
      simp [onTrial,hprobation]
    omega

/-- A source that is not kept, or has nothing stored, adds nothing. -/
theorem collect_idle {source : Address} (r : Round)
    (h : (st.submission (ctx.asset,source)).isSome = true →
      st.compliant env ctx.minInterval ctx.asset source = false) :
    st.collect env ctx r source = r := by
  unfold Store.collect
  split_ifs with hexcluded hcompliant
  · rfl
  · unfold Store.admit
    cases hstored : st.submission (ctx.asset,source) with
    | none => rfl
    | some entry =>
      rw [h (by rw [hstored]; rfl)] at hcompliant
      cases hcompliant
  · rfl

/-- A loop over sources whose submissions are all welcome counts them all. -/
theorem foldl_collect_welcome {keep : Address → Bool} {sources : List Address} (r : Round)
    (hkeep : ∀ s ∈ sources, (st.submission (ctx.asset,s)).isSome = true →
      st.compliant env ctx.minInterval ctx.asset s = keep s)
    (hwelcome : ∀ x ∈ st.storedBy ctx.asset keep sources, Welcome env st ctx x)
    (hroom : r.probationCounted + onTrial st ctx (st.storedBy ctx.asset keep sources) ≤
      probationMaxCounted) :
    sources.foldl (st.collect env ctx) r =
      (st.storedBy ctx.asset keep sources).foldl (counting env st ctx) r := by
  induction sources generalizing r with
  | nil => rfl
  | cons source rest ih =>
    have hrest : ∀ s ∈ rest, (st.submission (ctx.asset,s)).isSome = true →
        st.compliant env ctx.minInterval ctx.asset s = keep s :=
      fun s hs => hkeep s (List.mem_cons_of_mem source hs)
    have hsource := hkeep source List.mem_cons_self
    rw [st.storedBy_cons] at hwelcome hroom ⊢
    rw [List.foldl_cons]
    cases hstored : st.submission (ctx.asset,source) with
    | none =>
      rw [collect_idle r (by rw [hstored]; simp)]
      simp only [hstored,Option.map_none,Option.toList_none,ite_self] at hwelcome hroom ⊢
      exact ih r hrest hwelcome hroom
    | some entry =>
      rw [hstored] at hsource
      cases hkept : keep source with
      | false =>
        rw [collect_idle r fun _ => (hsource rfl).trans hkept]
        simp only [hkept] at hwelcome hroom ⊢
        exact ih r hrest hwelcome hroom
      | true =>
        simp only [hstored,hkept,if_true,Option.map_some,Option.toList_some,
          List.singleton_append,List.forall_mem_cons] at hwelcome hroom ⊢
        obtain ⟨hfirst,hothers⟩ := hwelcome
        have hsplit : onTrial st ctx ((source,entry) :: st.storedBy ctx.asset keep rest) =
            onTrial st ctx [(source,entry)] +
              onTrial st ctx (st.storedBy ctx.asset keep rest) := by
          unfold onTrial
          rw [← List.length_append,← List.filter_append,List.singleton_append]
        have hcounted : (counting env st ctx r (source,entry)).probationCounted =
            r.probationCounted + onTrial st ctx [(source,entry)] := by
          unfold counting Round.push onTrial
          split_ifs with hprobation <;> simp [hprobation]
        rw [collect_welcome hstored ((hsource rfl).trans hkept) hfirst (by omega)]
        exact ih _ hrest hothers (by omega)

end Counting

section Surviving

variable {env : Env} {st : Store} {asset : Address} {keep : Address → Bool}

/-- Sampling, filters and masks leave the stored submissions of the sources that `keep` keeps. -/
structure Unfiltered (env : Env) (st : Store) (asset : Address) (keep : Address → Bool) : Prop where
  sampled : st.selectSources (roundSeed env) = st.registry.sources
  interval : ∀ s ∈ st.registry.sources, (st.submission (asset, s)).isSome = true →
    st.compliant env (st.minIntervalFor asset) asset s = keep s
  welcome : ∀ x ∈ st.storedBy asset keep st.registry.sources,
    Welcome env st (st.contextOf env asset) x
  trial : onTrial st (st.contextOf env asset) (st.storedBy asset keep st.registry.sources) ≤
    probationMaxCounted
  unmasked : ∀ prices,
    prices = (st.storedBy asset keep st.registry.sources).map (fun x => x.2.price) →
      st.survivorMask asset (st.contextOf env asset).policy prices = prices.map fun _ => true

/-- The same for the sources that a round selects, whichever they are. -/
structure Leaves (env : Env) (st : Store) (asset : Address) (keep : Address → Bool)
    (sources : List Address) : Prop where
  sampled : st.selectSources (roundSeed env) = sources
  interval : ∀ s ∈ sources, (st.submission (asset, s)).isSome = true →
    st.compliant env (st.minIntervalFor asset) asset s = keep s
  welcome : ∀ x ∈ st.storedBy asset keep sources, Welcome env st (st.contextOf env asset) x
  trial : onTrial st (st.contextOf env asset) (st.storedBy asset keep sources) ≤
    probationMaxCounted
  unmasked : ∀ prices, prices = (st.storedBy asset keep sources).map (fun x => x.2.price) →
    st.survivorMask asset (st.contextOf env asset).policy prices = prices.map fun _ => true

theorem Unfiltered.leaves (h : Unfiltered env st asset keep) :
    Leaves env st asset keep st.registry.sources :=
  ⟨h.sampled,h.interval,h.welcome,h.trial,h.unmasked⟩

section Selected

variable {sources : List Address} (h : Leaves env st asset keep sources)

include h

theorem Leaves.countedRound : st.countedRound env asset =
    (st.storedBy asset keep sources).foldl (counting env st (st.contextOf env asset)) {} := by
  unfold Store.countedRound Store.gather
  rw [h.sampled]
  refine foldl_collect_welcome {} h.interval h.welcome ?_
  exact (Nat.zero_add _).trans_le h.trial

theorem Leaves.survivors : st.survivors env asset =
    (st.storedBy asset keep sources).foldl (counting env st (st.contextOf env asset)) {} := by
  have hprices := (foldl_counting env st (st.contextOf env asset)
    (st.storedBy asset keep sources) {}).1
  unfold Store.survivors
  rw [h.countedRound]
  dsimp only
  rw [h.unmasked _ (by rw [hprices]; rfl),masked_all]

/-- The vectors of such a round. -/
theorem Leaves.vectors :
    (st.survivors env asset).validPrices =
      (st.storedBy asset keep sources).map (fun x => x.2.price) ∧
    (st.survivors env asset).validVolumes =
      (st.storedBy asset keep sources).map (fun x => x.2.volume.getD 0) ∧
    (st.survivors env asset).validSources = (st.storedBy asset keep sources).map Prod.fst ∧
    (st.survivors env asset).contributingSources = (st.storedBy asset keep sources).length := by
  obtain ⟨hprices,hvolumes,hsources,hcount⟩ := foldl_counting env st (st.contextOf env asset)
    (st.storedBy asset keep sources) {}
  rw [h.survivors]
  exact ⟨hprices,hvolumes,hsources,hcount.trans (Nat.zero_add _)⟩

theorem Leaves.quorate : st.quorate env asset =
    decide ((st.contextOf env asset).policy.minSources ≤ (st.storedBy asset keep sources).length ∧
      st.storedBy asset keep sources ≠ []) := by
  obtain ⟨hprices,-,-,hcount⟩ := h.vectors
  change decide ((st.contextOf env asset).policy.minSources ≤
    (st.survivors env asset).contributingSources ∧ (st.survivors env asset).validPrices ≠ []) = _
  rw [hcount,hprices]
  simp

end Selected

end Surviving

end PriceOracle.Aggregation
