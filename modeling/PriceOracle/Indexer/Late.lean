import PriceOracle.Indexer.Derived

/-! # Late events

An event that comes after later ones writes the tables as if it had come in its place when nothing
that is stored after it would have been written otherwise. -/

namespace PriceOracle.Indexer

open Model.Indexing Lib.KeyedRows

def derivedBefore (R : Readers) (events : List VerifiedEvent) (place : Int × Int) : Tables :=
  derive R (events.filter fun x => Before x.key place)

/-- A submission of the source for the asset stands before a place. -/
def Counts (t : Tables) (source asset : String) (place : Int × Int) : Prop :=
  ∃ row ∈ t.submissions, row.source = source ∧ row.asset = asset ∧ Before row.key place

/-- What a late event writes bears on what a later one has written: both write the row of one
source, or the later one has aggregated prices without the submission, or with a source that the
event adds back or removes. -/
def Disturbs (R : Readers) (events : List VerifiedEvent) (event : VerifiedEvent) (effect : Effect)
    (later : VerifiedEvent) (written : Effect) : Prop :=
  (∃ source ∈ source? effect, source? written = some source) ∨
    ∃ asset ∈ aggregated? written, submitted? effect = some asset ∨
      ∃ source ∈ source? effect, Counts (derive R events) source asset later.key ∧
        gone ((derivedBefore R events event.key).write event.ledger event.eventIndex effect)
          source ≠ gone (derivedBefore R events event.key) source

/-- The event can be taken late. An aggregate finds the sources in their rows as they were. -/
def Timely (R : Readers) (events : List VerifiedEvent) (event : VerifiedEvent) : Prop :=
  ∀ effect ∈ effectOf R event,
    (∀ later ∈ events, Before event.key later.key →
      ∀ written ∈ effectOf R later, ¬ Disturbs R events event effect later written) ∧
    ∀ asset ∈ aggregated? effect, ∀ row ∈ (derive R events).submissions,
      row.asset = asset → Before row.key event.key →
        (derive R events).active row.source event.ledger =
          !gone (derivedBefore R events event.key) row.source

instance (t : Tables) (source asset : String) (place : Int × Int) :
    Decidable (Counts t source asset place) := by
  unfold Counts
  infer_instance

instance (R : Readers) (events : List VerifiedEvent) (event : VerifiedEvent) (effect : Effect)
    (later : VerifiedEvent) (written : Effect) :
    Decidable (Disturbs R events event effect later written) := by
  unfold Disturbs
  infer_instance

instance (R : Readers) (events : List VerifiedEvent) (event : VerifiedEvent) :
    Decidable (Timely R events event) := by
  unfold Timely
  infer_instance

section Exchange

variable {R : Readers} {seen rest : List VerifiedEvent} {event : VerifiedEvent} {effect : Effect}
  {f : VerifiedEvent} {source : String} {t t' : Tables}

/-- What is exchanged with one event after the other is exchanged with all. -/
theorem foldl_exchange {patch : Tables → Tables}
    (h : ∀ pre f post, rest = pre ++ f :: post →
      take R (patch (derive R (seen ++ pre))) f = patch (take R (derive R (seen ++ pre)) f)) :
    rest.foldl (take R) (patch (derive R seen)) = patch (derive R (seen ++ rest)) := by
  induction rest generalizing seen with
  | nil => rw [List.foldl_nil,List.append_nil]
  | cons f rest ih =>
    have hfirst := h [] f rest rfl
    rw [List.append_nil] at hfirst
    have hnext : ∀ tail, seen ++ f :: tail = seen ++ [f] ++ tail := fun tail => List.append_cons ..
    rw [List.foldl_cons,hfirst,← derive_concat,hnext rest]
    refine ih ?_
    intro pre g post hrest
    rw [← hnext]
    exact h (f :: pre) g post (by rw [hrest,List.cons_append])

theorem gone_congr (h : t'.sources source = t.sources source) : gone t' source = gone t source := by
  rw [gone,gone,h]

theorem write_gone_congr {ledger index : Int} (h : t'.sources source = t.sources source) :
    gone (t'.write ledger index effect) source = gone (t.write ledger index effect) source := by
  rw [write_eq,write_eq]
  exact gone_congr (sourcesAfter_congr h)

/-- A write that is no aggregate is exchanged with a later event that it does not disturb. -/
theorem exchange (events : List VerifiedEvent) {pre : List VerifiedEvent}
    (hplain : aggregated? effect = none) (hafter : Before event.key f.key)
    (hseen : ∀ x ∈ seen, Before x.key event.key)
    (hpre : ∀ x ∈ pre, Before event.key x.key ∧ Before x.key f.key)
    (hsub : ∀ row ∈ (derive R (seen ++ pre)).submissions, row ∈ (derive R events).submissions)
    (hbefore : derivedBefore R events event.key = derive R seen)
    (hquiet : ∀ x ∈ f :: pre, ∀ written ∈ effectOf R x,
      ¬ Disturbs R events event effect x written) :
    take R ((derive R (seen ++ pre)).write event.ledger event.eventIndex effect) f =
      (take R (derive R (seen ++ pre)) f).write event.ledger event.eventIndex effect := by
  rw [List.forall_mem_cons] at hquiet
  rcases hwritten : effectOf R f with _ | written
  · rw [take_of_none hwritten,take_of_none hwritten]
  rw [take_of_some hwritten,take_of_some hwritten]
  obtain ⟨hsource,hread⟩ := not_or.mp (hquiet.1 written hwritten)
  set t := derive R (seen ++ pre) with ht
  have hkey : (event.ledger,event.eventIndex) ≠ (f.ledger,f.eventIndex) := by
    intro heq
    have hkeys : event.key = f.key := heq
    exact Before.irrefl _ (hkeys ▸ hafter)
  -- the sources that the event writes are as they were at its place
  have hkept : ∀ source ∈ source? effect, t.sources source = (derive R seen).sources source := by
    intro source hs
    rw [ht,derive_append]
    exact sources_fold fun x hx written' hw' heq =>
      hquiet.2 x hx written' hw' (.inl ⟨source,hs,heq⟩)
  have hfrom : From (seen ++ pre) t := derive_from R _
  have hfrom' : From (seen ++ pre ++ [event]) (t.write event.ledger event.eventIndex effect) :=
    (hfrom.mono fun x hx => List.mem_append_left _ hx).write
      (List.mem_append_right _ List.mem_cons_self) effect
  have hle : ∀ x ∈ seen ++ pre, x.ledger ≤ f.ledger := by
    intro x hx
    rcases List.mem_append.mp hx with hx | hx
    · exact ((hseen x hx).trans hafter).fst_le
    · exact (hpre x hx).2.fst_le
  have hle' : ∀ x ∈ seen ++ pre ++ [event], x.ledger ≤ f.ledger := by
    intro x hx
    rcases List.mem_append.mp hx with hx | hx
    · exact hle x hx
    · rw [List.mem_singleton.mp hx]
      exact hafter.fst_le
  refine write_comm hkey (fun source hs heq => hsource ⟨source,hs,heq⟩) ?_ ?_
  · intro asset hasset
    refine counted_congr (submission? event.ledger event.eventIndex effect) ?_ (by rw [write_eq]) ?_
    · rintro row hrow ⟨hrowAsset,-⟩
      exact hread ⟨asset,hasset,.inl (hrowAsset ▸ (submission?_key hrow).2)⟩
    · intro row hrow hrowAsset hplace
      by_cases hs : source? effect = some row.source
      · rw [active_eq_of_from hfrom hle,active_eq_of_from hfrom' hle']
        have hsame : ¬ gone ((derive R seen).write event.ledger event.eventIndex effect)
            row.source ≠ gone (derive R seen) row.source := by
          intro hne
          refine hread ⟨asset,hasset,.inr ⟨row.source,hs,?_,hbefore ▸ hne⟩⟩
          exact ⟨row,hsub row hrow,rfl,hrowAsset,hplace⟩
        rw [write_gone_congr (hkept _ hs),gone_congr (hkept _ hs),not_not.mp hsame]
      · unfold Tables.active
        rw [write_eq]
        dsimp only
        rw [sourcesAfter_of_ne hs]
  · intro asset hasset
    exact absurd (hplain ▸ hasset) (by simp)

theorem exchange_row {row : AggregateRow} {t : Tables} (h : row.key ≠ f.key) :
    take R { t with aggregates := insertRow AggregateRow.key row t.aggregates } f =
      { take R t f with
        aggregates := insertRow AggregateRow.key row (take R t f).aggregates } := by
  rcases hwritten : effectOf R f with _ | written
  · rw [take_of_none hwritten,take_of_none hwritten]
  rw [take_of_some hwritten,take_of_some hwritten,write_eq,write_eq,Tables.mk.injEq]
  refine ⟨rfl,rfl,@addRow_comm _ _ _ (some row) _ ?_⟩
  rintro other hother _ ⟨⟩
  rw [aggregate?_key hother]
  exact h.symm

theorem counted_late {asset : String} {place : Int × Int}
    (hseen : ∀ x ∈ seen, Before x.key place) (hrest : ∀ x ∈ rest, Before place x.key)
    (hactive : ∀ row ∈ (derive R (seen ++ rest)).submissions, row.asset = asset →
      Before row.key place → (derive R (seen ++ rest)).active row.source place.1 =
        !gone (derive R seen) row.source) :
    (derive R (seen ++ rest)).counted asset place.1 place.2 =
      (derive R seen).counted asset place.1 place.2 := by
  have hkept : (derive R (seen ++ rest)).counted asset place.1 place.2 =
      (derive R (seen ++ rest)).submissions.filter fun row => row.asset = asset &&
        Before row.key place && (derive R seen).active row.source place.1 := by
    refine List.filter_congr fun row hrow => ?_
    by_cases hcase : row.asset = asset ∧ Before row.key place
    · rw [hactive row hrow hcase.1 hcase.2,
        active_eq_of_from (derive_from R seen) fun x hx => (hseen x hx).fst_le]
    · rcases not_and_or.mp hcase with hne | hne <;> simp [hne]
  rw [hkept,derive_append]
  refine submissions_fold_filter fun x hx row hkey => ?_
  have hnot : ¬ Before row.key place := hkey ▸ (hrest x hx).asymm
  simp [hnot]

/-- The tables of a history with a late event in its place are those with the event at the end. -/
theorem derive_late {events : List VerifiedEvent} (horder : InOrder VerifiedEvent.key events)
    (hnew : ∀ x ∈ events, x.key ≠ event.key) (htimely : Timely R events event) :
    derive R (insertRow VerifiedEvent.key event events) = take R (derive R events) event := by
  have hsplit := horder.split hnew
  rw [horder.insertRow_eq hnew,derive_append,List.foldl_cons]
  set seen := events.filter fun x => Before x.key event.key
  set rest := events.filter fun x => Before event.key x.key
  rcases heffect : effectOf R event with _ | effect
  · rw [take_of_none heffect,take_of_none heffect,← derive_append,← hsplit]
  obtain ⟨hquiet,hactive⟩ := htimely effect heffect
  rw [take_of_some heffect,take_of_some heffect]
  have hseen : ∀ x ∈ seen, Before x.key event.key := fun x hx => by
    simpa using (List.mem_filter.mp hx).2
  have hrest : ∀ x ∈ rest, x ∈ events ∧ Before event.key x.key := fun x hx => by
    simpa using List.mem_filter.mp hx
  have hparts : ∀ pre f post, rest = pre ++ f :: post →
      (∀ x ∈ f :: pre, x ∈ rest) ∧ ∀ x ∈ pre, Before x.key f.key := by
    intro pre f post heq
    have hpairs : InOrder VerifiedEvent.key (pre ++ f :: post) := heq ▸ horder.filter _
    refine ⟨fun x hx => ?_,fun x hx => ?_⟩
    · rw [heq]
      rcases List.mem_cons.mp hx with rfl | hx
      · exact List.mem_append_right _ List.mem_cons_self
      · exact List.mem_append_left _ hx
    · exact (List.pairwise_append.mp hpairs).2.2 x hx f List.mem_cons_self
  rcases hplain : aggregated? effect with _ | asset
  · rw [@foldl_exchange R seen rest fun t => t.write event.ledger event.eventIndex effect,← hsplit]
    intro pre f post heq
    obtain ⟨hmem,hpre⟩ := hparts pre f post heq
    refine exchange events hplain (hrest f (hmem f List.mem_cons_self)).2 hseen
      (fun x hx => ⟨(hrest x (hmem x (List.mem_cons_of_mem _ hx))).2,hpre x hx⟩) ?_ rfl ?_
    · intro row hrow
      rw [hsplit,heq,← List.append_assoc,derive_append]
      exact submissions_mono hrow
    · intro x hx
      exact hquiet x (hrest x (hmem x hx)).1 (hrest x (hmem x hx)).2
  · -- the row is computed at its place and at the end from the same submissions
    have hcounted : (derive R events).counted asset event.ledger event.eventIndex =
        (derive R seen).counted asset event.ledger event.eventIndex := by
      have hsame : ∀ row ∈ (derive R events).submissions, row.asset = asset →
          Before row.key event.key → (derive R events).active row.source event.ledger =
            !gone (derive R seen) row.source := hactive asset hplain
      rw [hsplit] at hsame ⊢
      exact @counted_late R seen rest asset event.key hseen (fun x hx => (hrest x hx).2) hsame
    cases effect with
    | priceAggregated asset' price numSources timestamp =>
      cases hplain
      have hrow : ∀ x ∈ rest, event.key ≠ x.key :=
        fun x hx heq => Before.irrefl _ (heq ▸ (hrest x hx).2)
      let row : AggregateRow := ⟨event.ledger,event.eventIndex,asset,price,numSources,
        timestamp,median ((derive R seen).latestPrices asset event.ledger event.eventIndex)⟩
      have hend : (derive R events).write event.ledger event.eventIndex
          (.priceAggregated asset price numSources timestamp) =
          { derive R events with
            aggregates := insertRow AggregateRow.key row (derive R events).aggregates } := by
        simp only [Tables.write,Tables.latestPrices,hcounted,row]
      rw [hend,hsplit]
      refine @foldl_exchange R seen rest (fun t =>
        { t with aggregates := insertRow AggregateRow.key row t.aggregates }) ?_
      intro pre f post heq
      exact exchange_row (hrow f ((hparts pre f post heq).1 f List.mem_cons_self))
    | sourceAdded | sourceRemoved | priceSubmitted | other => cases hplain

end Exchange

end PriceOracle.Indexer
