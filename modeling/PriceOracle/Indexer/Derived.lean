import PriceOracle.Indexer.Runs
import Mathlib.Data.List.Induction

/-! # The tables that a history stands for

The tables are what the events write one after the other in their order. Two events may be exchanged
when they write different rows and neither changes the submissions that the other one counts. -/

namespace PriceOracle.Indexer

open Model.Indexing Lib.KeyedRows

section Derivation

/-- The tables after one more event. One that cannot be read writes nothing. -/
def take (R : Readers) (t : Tables) (event : VerifiedEvent) : Tables :=
  (effectOf R event).elim t (t.write event.ledger event.eventIndex)

def derive (R : Readers) (events : List VerifiedEvent) : Tables := events.foldl (take R) .empty

def gone (t : Tables) (source : String) : Bool :=
  ((t.sources source).bind (·.removedLedger)).isSome

def source? : Effect → Option String
  | .sourceAdded source _ | .sourceRemoved source => some source
  | .priceSubmitted .. | .priceAggregated .. | .other => none

def submitted? : Effect → Option String
  | .priceSubmitted asset .. => some asset
  | .sourceAdded .. | .sourceRemoved _ | .priceAggregated .. | .other => none

def aggregated? : Effect → Option String
  | .priceAggregated asset .. => some asset
  | .sourceAdded .. | .sourceRemoved _ | .priceSubmitted .. | .other => none

variable {R : Readers} {events events' : List VerifiedEvent} {event : VerifiedEvent}

theorem derive_append : derive R (events ++ events') = events'.foldl (take R) (derive R events) :=
  List.foldl_append

theorem derive_concat : derive R (events ++ [event]) = take R (derive R events) event :=
  derive_append

theorem take_of_some {effect : Effect} (h : effectOf R event = some effect) (t : Tables) :
    take R t event = t.write event.ledger event.eventIndex effect := by
  rw [take,h,Option.elim_some]

theorem take_of_none (h : effectOf R event = none) (t : Tables) : take R t event = t := by
  rw [take,h,Option.elim_none]

end Derivation

section Writing

/-- What an effect makes of the rows of the sources. -/
def sourcesAfter (ledger : Int) (sources : String → Option SourceRow) :
    Effect → String → Option SourceRow
  | .sourceAdded source name => Function.update sources source (some ⟨name, ledger, none⟩)
  | .sourceRemoved source =>
    Function.update sources source
      ((sources source).map fun row => { row with removedLedger := some ledger })
  | .priceSubmitted .. | .priceAggregated .. | .other => sources

def submission? (ledger index : Int) : Effect → Option SubmissionRow
  | .priceSubmitted asset source price timestamp =>
    some ⟨ledger, index, asset, source, price, timestamp⟩
  | .sourceAdded .. | .sourceRemoved _ | .priceAggregated .. | .other => none

def aggregate? (t : Tables) (ledger index : Int) : Effect → Option AggregateRow
  | .priceAggregated asset price numSources timestamp =>
    some ⟨ledger, index, asset, price, numSources, timestamp,
      median (t.latestPrices asset ledger index)⟩
  | .sourceAdded .. | .sourceRemoved _ | .priceSubmitted .. | .other => none

def addRow {α : Type} (key : α → Int × Int) (row : Option α) (rows : List α) : List α :=
  row.elim rows (insertRow key · rows)

variable {t : Tables} {ledger index ledger' index' : Int} {effect effect' : Effect}
  {sources : String → Option SourceRow} {source : String} {t' : Tables}

theorem addRow_comm {α : Type} {key : α → Int × Int} {row row' : Option α} {rows : List α}
    (h : ∀ a ∈ row, ∀ b ∈ row', key a ≠ key b) :
    addRow key row (addRow key row' rows) = addRow key row' (addRow key row rows) := by
  cases row with
  | none => rfl
  | some a =>
    cases row' with
    | none => rfl
    | some b => exact insertRow_comm (h a rfl b rfl)

theorem mem_addRow {α : Type} {key : α → Int × Int} {row : Option α} {rows : List α} {x : α} :
    x ∈ addRow key row rows ↔ x ∈ row ∨ x ∈ rows := by
  cases row with
  | none => simp [addRow]
  | some a => simp [addRow,eq_comm]

theorem write_eq : t.write ledger index effect =
    ⟨sourcesAfter ledger t.sources effect,
      addRow SubmissionRow.key (submission? ledger index effect) t.submissions,
      addRow AggregateRow.key (aggregate? t ledger index effect) t.aggregates⟩ := by
  cases effect <;> rfl

theorem submission?_key {row : SubmissionRow} (h : row ∈ submission? ledger index effect) :
    row.key = (ledger,index) ∧ row.asset ∈ submitted? effect := by
  cases effect <;> cases h
  exact ⟨rfl,rfl⟩

theorem aggregate?_key {row : AggregateRow} (h : row ∈ aggregate? t ledger index effect) :
    row.key = (ledger,index) := by
  cases effect <;> cases h
  rfl

theorem sourcesAfter_of_ne (h : source? effect ≠ some source) :
    sourcesAfter ledger sources effect source = sources source := by
  cases effect with
  | sourceAdded other name =>
    refine Function.update_of_ne ?_ _ _
    rintro rfl
    exact h rfl
  | sourceRemoved other =>
    refine Function.update_of_ne ?_ _ _
    rintro rfl
    exact h rfl
  | priceSubmitted | priceAggregated | other => rfl

/-- The row of a source is written from that row. -/
theorem sourcesAfter_congr {sources sources' : String → Option SourceRow}
    (h : sources source = sources' source) :
    sourcesAfter ledger sources effect source = sourcesAfter ledger sources' effect source := by
  by_cases hs : source? effect = some source
  · cases effect with
    | sourceAdded | sourceRemoved =>
      cases hs
      simp [sourcesAfter,h]
    | priceSubmitted | priceAggregated | other => cases hs
  · rw [sourcesAfter_of_ne hs,sourcesAfter_of_ne hs,h]

theorem sourcesAfter_comm (h : ∀ source ∈ source? effect, source? effect' ≠ some source) :
    sourcesAfter ledger' (sourcesAfter ledger sources effect) effect' =
      sourcesAfter ledger (sourcesAfter ledger' sources effect') effect := by
  funext source
  by_cases hs : source? effect = some source
  · have hs' := h source hs
    rw [sourcesAfter_of_ne hs']
    exact sourcesAfter_congr (sourcesAfter_of_ne hs').symm
  · rw [sourcesAfter_of_ne hs]
    exact sourcesAfter_congr (sourcesAfter_of_ne hs)

/-- The counted submissions are the same if the rows added are not among them and the sources are as
active as before. -/
theorem counted_congr {asset : String} (added : Option SubmissionRow)
    (hadded : ∀ row ∈ added, ¬ (row.asset = asset ∧ Before row.key (ledger,index)))
    (h : t'.submissions = addRow SubmissionRow.key added t.submissions)
    (hactive : ∀ row ∈ t.submissions, row.asset = asset → Before row.key (ledger,index) →
      t'.active row.source ledger = t.active row.source ledger) :
    t'.counted asset ledger index = t.counted asset ledger index := by
  have hdrop : t'.counted asset ledger index = t.submissions.filter fun row =>
      row.asset = asset && Before row.key (ledger,index) && t'.active row.source ledger := by
    unfold Tables.counted
    rw [h]
    cases added with
    | none => rfl
    | some row =>
      refine filter_insertRow_of_neg ?_
      simp only [Bool.and_eq_true,decide_eq_true_eq]
      tauto
  rw [hdrop]
  refine List.filter_congr fun row hrow => ?_
  by_cases hcase : row.asset = asset ∧ Before row.key (ledger,index)
  · rw [hactive row hrow hcase.1 hcase.2]
  · rcases not_and_or.mp hcase with hne | hne <;> simp [hne]

theorem aggregate?_congr (h : ∀ asset ∈ aggregated? effect,
      t'.counted asset ledger index = t.counted asset ledger index) :
    aggregate? t' ledger index effect = aggregate? t ledger index effect := by
  cases effect with
  | priceAggregated asset price numSources timestamp =>
    simp only [aggregate?,Tables.latestPrices,h asset rfl]
  | sourceAdded | sourceRemoved | priceSubmitted | other => rfl

/-- Two writes may be exchanged when neither changes what the other one reads. -/
theorem write_comm (hkey : (ledger,index) ≠ (ledger',index'))
    (hsource : ∀ source ∈ source? effect, source? effect' ≠ some source)
    (hread : ∀ asset ∈ aggregated? effect',
      (t.write ledger index effect).counted asset ledger' index' = t.counted asset ledger' index')
    (hread' : ∀ asset ∈ aggregated? effect,
      (t.write ledger' index' effect').counted asset ledger index = t.counted asset ledger index) :
    (t.write ledger index effect).write ledger' index' effect' =
      (t.write ledger' index' effect').write ledger index effect := by
  have hrow := aggregate?_congr hread
  have hrow' := aggregate?_congr hread'
  rw [@write_eq (t.write ledger index effect),hrow,@write_eq (t.write ledger' index' effect'),
    hrow',@write_eq t ledger,@write_eq t ledger',Tables.mk.injEq]
  refine ⟨sourcesAfter_comm hsource,addRow_comm ?_,addRow_comm ?_⟩
  · intro row hrow row' hrow'
    rw [(submission?_key hrow).1,(submission?_key hrow').1]
    exact hkey.symm
  · intro row hrow row' hrow'
    rw [aggregate?_key hrow,aggregate?_key hrow']
    exact hkey.symm

end Writing

section Contents

/-- Every entry of the tables comes from an event. -/
structure From (events : List VerifiedEvent) (t : Tables) : Prop where
  added : ∀ source row, t.sources source = some row → ∃ x ∈ events, x.ledger = row.addedLedger
  removed : ∀ source row, t.sources source = some row → ∀ removed ∈ row.removedLedger,
    ∃ x ∈ events, x.ledger = removed
  submissions : ∀ row ∈ t.submissions, ∃ x ∈ events, x.key = row.key
  aggregates : ∀ row ∈ t.aggregates, ∃ x ∈ events, x.key = row.key

variable {R : Readers} {events events' : List VerifiedEvent} {event : VerifiedEvent} {t : Tables}

theorem From.mono (h : From events t) (hsub : ∀ x ∈ events, x ∈ events') : From events' t where
  added source row hrow := (h.added source row hrow).imp fun x hx => ⟨hsub x hx.1,hx.2⟩
  removed source row hrow removed hr :=
    (h.removed source row hrow removed hr).imp fun x hx => ⟨hsub x hx.1,hx.2⟩
  submissions row hrow := (h.submissions row hrow).imp fun x hx => ⟨hsub x hx.1,hx.2⟩
  aggregates row hrow := (h.aggregates row hrow).imp fun x hx => ⟨hsub x hx.1,hx.2⟩

theorem From.write (h : From events t) (hevent : event ∈ events) (effect : Effect) :
    From events (t.write event.ledger event.eventIndex effect) := by
  have hsource : ∀ source row,
      (t.write event.ledger event.eventIndex effect).sources source = some row →
      (∃ x ∈ events, x.ledger = row.addedLedger) ∧
        ∀ removed ∈ row.removedLedger, ∃ x ∈ events, x.ledger = removed := by
    intro source row hrow
    rw [write_eq] at hrow
    change sourcesAfter event.ledger t.sources effect source = some row at hrow
    by_cases hs : source? effect = some source
    · cases effect with
      | sourceAdded other name =>
        cases hs
        rw [sourcesAfter,Function.update_self] at hrow
        cases hrow
        exact ⟨⟨event,hevent,rfl⟩,fun _ h => absurd h (by simp)⟩
      | sourceRemoved other =>
        cases hs
        rw [sourcesAfter,Function.update_self] at hrow
        obtain ⟨old,hold,rfl⟩ := Option.map_eq_some_iff.mp hrow
        refine ⟨h.added source old hold,?_⟩
        rintro removed hremoved
        cases hremoved
        exact ⟨event,hevent,rfl⟩
      | priceSubmitted | priceAggregated | other => cases hs
    · rw [sourcesAfter_of_ne hs] at hrow
      exact ⟨h.added source row hrow,h.removed source row hrow⟩
  refine ⟨fun source row hrow => (hsource source row hrow).1,
    fun source row hrow => (hsource source row hrow).2,?_,?_⟩
  · intro row hrow
    rw [write_eq] at hrow
    rcases mem_addRow.mp hrow with hrow | hrow
    · exact ⟨event,hevent,(submission?_key hrow).1.symm⟩
    · exact h.submissions row hrow
  · intro row hrow
    rw [write_eq] at hrow
    rcases mem_addRow.mp hrow with hrow | hrow
    · exact ⟨event,hevent,(aggregate?_key hrow).symm⟩
    · exact h.aggregates row hrow

theorem derive_from (R : Readers) (events : List VerifiedEvent) :
    From events (derive R events) := by
  induction events using List.reverseRecOn with
  | nil =>
    refine ⟨?_,?_,?_,?_⟩
    · rintro _ _ ⟨⟩
    · rintro _ _ ⟨⟩
    · exact fun _ h => absurd h List.not_mem_nil
    · exact fun _ h => absurd h List.not_mem_nil
  | append_singleton events event ih =>
    rw [derive_concat]
    have hmono : From (events ++ [event]) (derive R events) :=
      ih.mono fun x hx => List.mem_append_left _ hx
    rcases heffect : effectOf R event with _ | effect
    · rwa [take_of_none heffect]
    · rw [take_of_some heffect]
      exact hmono.write (List.mem_append_right _ List.mem_cons_self) effect

/-- Later events keep the submissions. -/
theorem submissions_mono {row : SubmissionRow} (h : row ∈ t.submissions) :
    row ∈ (events.foldl (take R) t).submissions := by
  induction events generalizing t with
  | nil => exact h
  | cons event rest ih =>
    refine ih ?_
    rcases heffect : effectOf R event with _ | effect
    · rwa [take_of_none heffect]
    · rw [take_of_some heffect,write_eq]
      exact mem_addRow.mpr (.inr h)

/-- Rows that no event can have written stay what they are. -/
theorem submissions_fold_filter {p : SubmissionRow → Bool}
    (h : ∀ x ∈ events, ∀ row : SubmissionRow, row.key = x.key → ¬ p row = true) :
    (events.foldl (take R) t).submissions.filter p = t.submissions.filter p := by
  induction events generalizing t with
  | nil => rfl
  | cons event rest ih =>
    rw [List.forall_mem_cons] at h
    rw [List.foldl_cons,ih h.2]
    rcases heffect : effectOf R event with _ | effect
    · rw [take_of_none heffect]
    · rw [take_of_some heffect,write_eq]
      rcases hrow : submission? event.ledger event.eventIndex effect with _ | row
      · rfl
      · exact filter_insertRow_of_neg (h.1 row (submission?_key hrow).1)

/-- Events that do not write the row of a source keep it. -/
theorem sources_fold {source : String}
    (h : ∀ x ∈ events, ∀ effect ∈ effectOf R x, source? effect ≠ some source) :
    (events.foldl (take R) t).sources source = t.sources source := by
  induction events generalizing t with
  | nil => rfl
  | cons event rest ih =>
    rw [List.forall_mem_cons] at h
    rw [List.foldl_cons,ih h.2]
    rcases heffect : effectOf R event with _ | effect
    · rw [take_of_none heffect]
    · rw [take_of_some heffect,write_eq]
      exact sourcesAfter_of_ne (h.1 effect heffect)

/-- A row that is at most as old as a ledger tells whether the source was active there. -/
theorem active_eq_of_from (h : From events t) {ledger : Int} (hle : ∀ x ∈ events, x.ledger ≤ ledger)
    (source : String) : t.active source ledger = !gone t source := by
  unfold Tables.active gone
  rcases hrow : t.sources source with _ | row
  · rfl
  · rcases hremoved : row.removedLedger with _ | removed
    · simp [hremoved]
    · obtain ⟨x,hx,rfl⟩ := h.removed source row hrow removed hremoved
      simp [hremoved,hle x hx]

end Contents

end PriceOracle.Indexer

/-! ## Rolling back

The rows of submissions and aggregates carry their ledger, so deleting by ledger undoes the events
from there on. -/

namespace PriceOracle.Indexer

open Model.Indexing Lib.KeyedRows

def added? : Effect → Option String
  | .sourceAdded source _ => some source
  | .sourceRemoved _ | .priceSubmitted .. | .priceAggregated .. | .other => none

def removed? : Effect → Option String
  | .sourceRemoved source => some source
  | .sourceAdded .. | .priceSubmitted .. | .priceAggregated .. | .other => none

def kept (events : List VerifiedEvent) (ledger : Int) : List VerifiedEvent :=
  events.filter fun x => x.ledger ≤ ledger

/-- What is discarded adds no source that was added before, and removes none that was removed. -/
def Undoable (R : Readers) (events : List VerifiedEvent) (ledger : Int) : Prop :=
  ∀ x ∈ events, ledger < x.ledger → ∀ effect ∈ effectOf R x,
    (∀ source ∈ added? effect, (derive R (kept events ledger)).sources source = none) ∧
      ∀ source ∈ removed? effect, gone (derive R (kept events ledger)) source = false

instance (R : Readers) (events : List VerifiedEvent) (ledger : Int) :
    Decidable (Undoable R events ledger) := by
  unfold Undoable
  infer_instance

section Undoing

variable {R : Readers} {events : List VerifiedEvent} {event : VerifiedEvent} {ledger : Int}
  {base t : Tables}

/-- The row of a source over that of the kept tables: the same, new, or newly removed. -/
def RowOver (ledger : Int) (old new : Option SourceRow) : Prop :=
  new = old ∨ (old = none ∧ ∃ row, new = some row ∧ ledger < row.addedLedger) ∨
    ∃ row removed, old = some row ∧ row.removedLedger = none ∧ ledger < removed ∧
      new = some { row with removedLedger := some removed }

/-- Tables that later events have written over others. -/
structure Over (ledger : Int) (base t : Tables) : Prop where
  sources : ∀ source, RowOver ledger (base.sources source) (t.sources source)
  submissions : t.submissions.filter (fun row => row.ledger ≤ ledger) = base.submissions
  aggregates : t.aggregates.filter (fun row => row.ledger ≤ ledger) = base.aggregates

theorem filter_addRow {α : Type} {key : α → Int × Int} {row : Option α} {rows : List α}
    {p : α → Bool} (h : ∀ a ∈ row, ¬ p a = true) :
    (addRow key row rows).filter p = rows.filter p := by
  cases row with
  | none => rfl
  | some a => exact filter_insertRow_of_neg (h a rfl)

/-- One more discarded event. -/
theorem Over.take (h : Over ledger base t) (hlt : ledger < event.ledger)
    (hsource : ∀ effect ∈ effectOf R event,
      (∀ source ∈ added? effect, base.sources source = none) ∧
        ∀ source ∈ removed? effect, gone base source = false) :
    Over ledger base (take R t event) := by
  rcases heffect : effectOf R event with _ | effect
  · rwa [take_of_none heffect]
  obtain ⟨hadded,hremoved⟩ := hsource effect heffect
  rw [take_of_some heffect,write_eq]
  refine ⟨fun source => ?_,?_,?_⟩
  · dsimp only
    by_cases hs : source? effect = some source
    · cases effect with
      | sourceAdded other name =>
        cases hs
        rw [sourcesAfter,Function.update_self]
        exact .inr (.inl ⟨hadded source rfl,_,rfl,hlt⟩)
      | sourceRemoved other =>
        cases hs
        rw [sourcesAfter,Function.update_self]
        have hkeep := hremoved source rfl
        rcases h.sources source with hsame | ⟨hnone,row,hrow,hnew⟩ |
          ⟨row,removed,hrow,hactive,-,hnew⟩
        · rcases hbase : base.sources source with _ | row
          · rw [hsame,hbase]
            exact .inl rfl
          · rw [hsame,hbase]
            rw [gone,hbase,Option.bind_some,Option.isSome_eq_false_iff] at hkeep
            exact .inr (.inr ⟨row,event.ledger,rfl,by simpa using hkeep,hlt,rfl⟩)
        · rw [hrow]
          exact .inr (.inl ⟨hnone,_,rfl,hnew⟩)
        · rw [hnew]
          exact .inr (.inr ⟨row,event.ledger,hrow,hactive,hlt,rfl⟩)
      | priceSubmitted | priceAggregated | other => cases hs
    · rw [sourcesAfter_of_ne hs]
      exact h.sources source
  · refine (filter_addRow fun row hrow => ?_).trans h.submissions
    have hledger : row.ledger = event.ledger := congrArg Prod.fst (submission?_key hrow).1
    simpa [hledger] using hlt
  · refine (filter_addRow fun row hrow => ?_).trans h.aggregates
    have hledger : row.ledger = event.ledger := congrArg Prod.fst (aggregate?_key hrow)
    simpa [hledger] using hlt

/-- Rolling back gives the kept tables again. -/
theorem Over.rollback (h : Over ledger base t) (hfrom : From events base)
    (hle : ∀ x ∈ events, x.ledger ≤ ledger) : t.rollback ledger = base := by
  have hrow : ∀ source row, base.sources source = some row → row.addedLedger ≤ ledger ∧
      row.removedLedger.filter (· ≤ ledger) = row.removedLedger := by
    intro source row hrow
    obtain ⟨x,hx,hadded⟩ := hfrom.added source row hrow
    refine ⟨hadded ▸ hle x hx,?_⟩
    rcases hremoved : row.removedLedger with _ | removed
    · rfl
    · obtain ⟨y,hy,rfl⟩ := hfrom.removed source row hrow removed hremoved
      simp [hle y hy]
  unfold Tables.rollback
  rw [h.submissions,h.aggregates]
  congr 1
  funext source
  rcases h.sources source with hsame | ⟨hnone,row,hnew,hlt⟩ |
    ⟨row,removed,hold,hactive,hlt,hnew⟩
  · rw [hsame]
    rcases hbase : base.sources source with _ | row
    · rfl
    · obtain ⟨hadded,hremoved⟩ := hrow source row hbase
      simp [hadded,hremoved]
  · simp [hnew,hnone,hlt]
  · obtain ⟨hadded,-⟩ := hrow source row hold
    obtain ⟨name,added,_⟩ := row
    cases hactive
    simp [hnew,hold,hadded,hlt]

/-- After the rollback the tables are those of the kept events. -/
theorem derive_rollback (horder : InOrder VerifiedEvent.key events)
    (hundo : Undoable R events ledger) :
    (derive R events).rollback ledger = derive R (kept events ledger) := by
  have hle : ∀ x ∈ kept events ledger, x.ledger ≤ ledger := fun x hx => by
    simpa using (List.mem_filter.mp hx).2
  have hsplit : events =
      kept events ledger ++ events.filter fun x => !decide (x.ledger ≤ ledger) :=
    horder.split_of (p := fun a => decide (a.1 ≤ ledger)) fun a b hab hb => by
      simpa using hab.fst_le.trans (by simpa using hb)
  have hover : Over ledger (derive R (kept events ledger)) (derive R (kept events ledger)) := by
    refine ⟨fun _ => .inl rfl,List.filter_eq_self.mpr ?_,List.filter_eq_self.mpr ?_⟩
    · intro row hrow
      obtain ⟨x,hx,hkey⟩ := (derive_from R _).submissions row hrow
      have hledger : x.ledger = row.ledger := congrArg Prod.fst hkey
      exact decide_eq_true (hledger ▸ hle x hx)
    · intro row hrow
      obtain ⟨x,hx,hkey⟩ := (derive_from R _).aggregates row hrow
      have hledger : x.ledger = row.ledger := congrArg Prod.fst hkey
      exact decide_eq_true (hledger ▸ hle x hx)
  have hdiscarded : ∀ (rest : List VerifiedEvent) (t : Tables),
      (∀ x ∈ rest, x ∈ events ∧ ledger < x.ledger) →
      Over ledger (derive R (kept events ledger)) t →
      Over ledger (derive R (kept events ledger)) (rest.foldl (take R) t) := by
    intro rest
    induction rest with
    | nil => exact fun t _ h => h
    | cons x rest ih =>
      intro t hrest h
      rw [List.forall_mem_cons] at hrest
      exact ih _ hrest.2 (h.take hrest.1.2 (hundo x hrest.1.1 hrest.1.2))
  refine Over.rollback ?_ (derive_from R _) hle
  nth_rewrite 2 [hsplit]
  rw [derive_append]
  refine hdiscarded _ _ (fun x hx => ?_) hover
  obtain ⟨hmem,hgt⟩ := List.mem_filter.mp hx
  exact ⟨hmem,by simpa using hgt⟩

end Undoing

end PriceOracle.Indexer
