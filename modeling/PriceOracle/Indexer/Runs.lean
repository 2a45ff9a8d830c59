import PriceOracle.Model.Indexer

/-! # Runs of the indexer

A run is taken apart into its calls for single rows, each with the store that it finds. -/

namespace PriceOracle.Indexer

open Model.Indexing Lib.JsonText

section Calls

/-- A call of `_ingest_one` in a run. -/
structure Call where
  state : Indexer
  allowGaps : Bool
  row : Json
  index : Json

variable (R : Readers) (policy : TrustPolicy)

def Call.result (c : Call) : Indexer × Except Raised Nat :=
  ingestOne R policy c.allowGaps c.state c.row c.index

def Call.after (c : Call) : Indexer := (c.result R policy).1

def Call.verified (c : Call) : Except AuthenticityError VerifiedEvent :=
  verifyEvent policy c.row c.state.contractId (c.state.lastCloseTime (rowLedger c.row)) c.index

def rowCalls (allowGaps : Bool) :
    List Json → Indexer → (Option Int → Int) → List Call
  | [], _, _ => []
  | row :: rest, s, counters =>
    if hashable row then
      ⟨s, allowGaps, row, indexOf counters row⟩ ::
        match (Call.mk s allowGaps row (indexOf counters row)).result R policy with
        | (s, .ok _) => rowCalls allowGaps rest s (count counters row)
        | (_, .error _) => []
    else []

def calls : Indexer → List Batch → List Call
  | _, [] => []
  | s, batch :: rest =>
    rowCalls R policy batch.allowGaps batch.rows { s with batchLedgerHash := none } (fun _ => 0) ++
      calls (ingest R policy s batch).1 rest

/-- The calls lead from one store to the other. A new batch forgets the last hash. -/
inductive Linked : Indexer → List Call → Indexer → Prop
  | done (s : Indexer) : Linked s [] s
  | opened {s s' : Indexer} {cs : List Call} (h : Linked { s with batchLedgerHash := none } cs s') :
    Linked s cs s'
  | called {c : Call} {s' : Indexer} {cs : List Call} (h : Linked (c.after R policy) cs s') :
    Linked c.state (c :: cs) s'

variable {R policy}

theorem Linked.append {s s' s'' : Indexer} {cs cs' : List Call} (h : Linked R policy s cs s')
    (h' : Linked R policy s' cs' s'') : Linked R policy s (cs ++ cs') s'' := by
  induction h with
  | done s => exact h'
  | opened _ ih => exact .opened (ih h')
  | called _ ih => exact .called (ih h')

theorem ingestRows_linked (allowGaps : Bool) (rows : List Json) (s : Indexer)
    (counters : Option Int → Int) (added : Nat) :
    Linked R policy s (rowCalls R policy allowGaps rows s counters)
      (ingestRows R policy allowGaps rows s counters added).1 := by
  induction rows generalizing s counters added with
  | nil => exact .done s
  | cons row rest ih =>
    unfold rowCalls ingestRows
    by_cases hhash : hashable row = true
    · rw [if_pos hhash,if_pos hhash]
      refine Linked.called (c := ⟨s,allowGaps,row,indexOf counters row⟩) ?_
      rw [Call.after]
      dsimp only [Call.result]
      rcases ingestOne R policy allowGaps s row (indexOf counters row) with ⟨s',raised | n⟩
      · exact .done s'
      · exact ih s' _ _
    · rw [if_neg hhash,if_neg hhash]
      exact .done s

theorem ingestAll_linked (s : Indexer) (batches : List Batch) :
    Linked R policy s (calls R policy s batches) (ingestAll R policy s batches) := by
  induction batches generalizing s with
  | nil => exact .done s
  | cons batch rest ih => exact (Linked.opened (ingestRows_linked _ _ _ _ _)).append (ih _)

end Calls

section Steps

variable {R : Readers} {policy : TrustPolicy} {c : Call} {P : Indexer → Prop} {s : Indexer}

def Call.event (policy : TrustPolicy) (c : Call) : Option VerifiedEvent :=
  if (rowLedger c.row).all fits then (c.verified policy).toOption else none

/-- The event with the store that it finds: as it is, or rolled back to before the event's ledger. A
refused event finds none. -/
def Call.found (policy : TrustPolicy) (c : Call) : Option (Indexer × VerifiedEvent) :=
  (c.event policy).bind fun event =>
    ((c.state.pin event).checkLedgerHash event).toOption.map fun s => (s, event)

/-- An event that is not in the store that it finds, and whose key can be looked up. -/
def Call.brings (policy : TrustPolicy) (c : Call) : Option (Indexer × VerifiedEvent) :=
  (c.found policy).filter fun arrival =>
    fits arrival.2.eventIndex && !arrival.1.has arrival.2

/-- The event is refused: by the policy, or for a second hash in its batch. -/
def Call.Refuses (policy : TrustPolicy) (c : Call) : Prop :=
  (∃ error, c.verified policy = .error error) ∨
    ∃ event error, c.verified policy = .ok event ∧
      (c.state.pin event).checkLedgerHash event = .error error

theorem checkLedgerHash_ok {s s' : Indexer} {event : VerifiedEvent}
    (h : s.checkLedgerHash event = .ok s') :
    s.forked event = false ∧ s' = s ∨
      s.forked event = true ∧ s' = s.rollbackTo (event.ledger - 1) := by
  unfold Indexer.checkLedgerHash at h
  split_ifs at h with hforked hbatch
  · exact .inr ⟨hforked,(Except.ok.inj h).symm⟩
  · exact .inl ⟨by simpa using hforked,(Except.ok.inj h).symm⟩

theorem store_old {event : VerifiedEvent} {allowGaps : Bool}
    (h : ¬ (fits event.eventIndex = true ∧ s.has event = false)) :
    (store R allowGaps s event).1 = s := by
  unfold store
  by_cases hfits : fits event.eventIndex = true
  · have hhas : s.has event = true := by
      by_contra hhas
      exact h ⟨hfits,by simpa using hhas⟩
    rw [if_neg (by simp [hfits]),if_pos hhas]
  · rw [if_pos (by simpa using hfits)]

theorem toOption_eq_some {ε α : Type} {x : Except ε α} {a : α} :
    x.toOption = some a ↔ x = .ok a := by
  cases x <;> simp [Except.toOption]

theorem Call.found_eq_some {event : VerifiedEvent} :
    c.found policy = some (s,event) ↔ c.event policy = some event ∧
      (c.state.pin event).checkLedgerHash event = .ok s := by
  unfold Call.found
  simp only [Option.bind_eq_some_iff,Option.map_eq_some_iff,toOption_eq_some,Prod.mk.injEq]
  constructor
  · rintro ⟨event',hevent,s',hcheck,rfl,rfl⟩
    exact ⟨hevent,hcheck⟩
  · rintro ⟨hevent,hcheck⟩
    exact ⟨event,hevent,s,hcheck,rfl,rfl⟩

theorem Call.found_cases {event : VerifiedEvent} (h : c.found policy = some (s,event)) :
    c.state.forked event = false ∧ s = c.state.pin event ∨
      c.state.forked event = true ∧ s = (c.state.pin event).rollbackTo (event.ledger - 1) :=
  checkLedgerHash_ok (Call.found_eq_some.mp h).2

/-- What a call does to the store: nothing but the pin, or it takes the event into the store that it
finds. -/
theorem Call.after_cases (R : Readers) (policy : TrustPolicy) (c : Call) :
    (c.found policy = none ∧ (c.result R policy).2.isOk = false ∧
      (c.after R policy = c.state ∨ ∃ event, c.after R policy = c.state.pin event)) ∨
    ∃ s event, c.found policy = some (s,event) ∧
      c.result R policy = store R c.allowGaps s event := by
  unfold Call.after Call.result ingestOne Call.found Call.event
  by_cases hfits : (rowLedger c.row).all fits = true
  · rw [if_pos hfits,if_pos hfits]
    rcases hverified : c.verified policy with error | event
    · rw [show verifyEvent _ _ _ _ _ = _ from hverified]
      exact .inl ⟨rfl,rfl,.inl rfl⟩
    · rw [show verifyEvent _ _ _ _ _ = _ from hverified]
      dsimp only [Except.toOption,Option.bind_some]
      rcases hcheck : (c.state.pin event).checkLedgerHash event with error | s
      · exact .inl ⟨rfl,rfl,.inr ⟨event,rfl⟩⟩
      · exact .inr ⟨s,event,rfl,rfl⟩
  · rw [if_neg hfits,if_neg hfits]
    exact .inl ⟨rfl,rfl,.inl rfl⟩

theorem Call.after_of_brings {event : VerifiedEvent} (hfound : c.found policy = some (s,event))
    (hnew : fits event.eventIndex = true ∧ s.has event = false) : (s,event) ∈ c.brings policy :=
  Option.mem_def.mpr (Option.filter_eq_some_iff.mpr ⟨hfound,by simp [hnew.1,hnew.2]⟩)

/-- What one call does to a property: the store may be pinned, rolled back or take a new event. -/
theorem Call.after_of (hpin : ∀ event, P c.state → P (c.state.pin event))
    (hroll : ∀ s event, (s,event) ∈ c.found policy → c.state.forked event = true →
      s = (c.state.pin event).rollbackTo (event.ledger - 1) → P c.state → P s)
    (hstore : ∀ s event, (s,event) ∈ c.brings policy → P s → P (store R c.allowGaps s event).1)
    (h : P c.state) : P (c.after R policy) := by
  rcases c.after_cases R policy with ⟨-,-,hafter | ⟨event,hafter⟩⟩ | ⟨s,event,hfound,hresult⟩
  · exact hafter ▸ h
  · exact hafter ▸ hpin event h
  · have hs : P s := by
      rcases Call.found_cases hfound with ⟨-,rfl⟩ | ⟨hforked,hroll'⟩
      · exact hpin event h
      · exact hroll s event hfound hforked hroll' h
    rw [Call.after,hresult]
    by_cases hnew : fits event.eventIndex = true ∧ s.has event = false
    · exact hstore s event (Call.after_of_brings hfound hnew) hs
    · rwa [store_old hnew]

/-- What every call preserves holds after a run. -/
theorem Linked.preserves {s s' : Indexer} {cs : List Call} (h : Linked R policy s cs s')
    (hopen : ∀ s : Indexer, P s → P { s with batchLedgerHash := none })
    (hcall : ∀ c ∈ cs, P c.state → P (c.after R policy)) (hs : P s) : P s' := by
  induction h with
  | done s => exact hs
  | opened _ ih => exact ih hcall (hopen _ hs)
  | called _ ih =>
    rw [List.forall_mem_cons] at hcall
    exact ih hcall.2 (hcall.1 hs)

/-- A refused event leaves all but the contract id of the store. -/
theorem Call.Refuses.kept (h : c.Refuses policy) :
    (c.after R policy).events = c.state.events ∧ (c.after R policy).cursor = c.state.cursor ∧
      (c.after R policy).gaps = c.state.gaps := by
  unfold Call.after Call.result ingestOne
  split_ifs
  · rcases h with ⟨error,herror⟩ | ⟨event,error,hverified,hcheck⟩
    · rw [show verifyEvent _ _ _ _ _ = _ from herror]
      exact ⟨rfl,rfl,rfl⟩
    · rw [show verifyEvent _ _ _ _ _ = _ from hverified]
      dsimp only
      rw [hcheck]
      exact ⟨rfl,rfl,rfl⟩
  · exact ⟨rfl,rfl,rfl⟩

end Steps

end PriceOracle.Indexer

/-! ## The rows of the gaps

A gap that covers a ledger is replaced by its two sides. -/

namespace PriceOracle.Indexer

open Model.Indexing

section Splitting

variable {gaps rows : List (Int × Int)} {gap row : Int × Int} {ledger : Int}

theorem covers_iff : covers gap ledger = true ↔ gap.1 ≤ ledger ∧ ledger ≤ gap.2 := by
  simp [covers]

@[simp] theorem mem_insertGap : row ∈ insertGap gaps gap ↔ row ∈ gaps ∨ row = gap := by
  unfold insertGap
  split_ifs with hmem
  · exact ⟨.inl,fun h => h.elim id fun h => h ▸ hmem⟩
  · simp

def Side (ledger : Int) (gap row : Int × Int) : Prop :=
  (row = (gap.1, ledger - 1) ∧ gap.1 ≤ ledger - 1) ∨
    (row = (ledger + 1, gap.2) ∧ ledger + 1 ≤ gap.2)

theorem Side.not_covers (h : Side ledger gap row) : ¬ covers row ledger = true := by
  rw [covers_iff]
  rcases h with ⟨rfl,-⟩ | ⟨rfl,-⟩ <;> dsimp only <;> omega

theorem mem_splitGap :
    row ∈ splitGap ledger gaps gap ↔ (row ∈ gaps ∧ row ≠ gap) ∨ Side ledger gap row := by
  unfold splitGap Side
  by_cases hleft : gap.1 ≤ ledger - 1 <;> by_cases hright : ledger+1 ≤ gap.2 <;>
    simp only [hleft,hright,if_true,if_false,and_true,and_false,or_false,false_or,
      mem_insertGap,List.mem_filter,bne_iff_ne,or_assoc]

/-- The rows after a ledger is closed: those that do not cover it, and the sides of the others. -/
theorem mem_closeGapAt :
    row ∈ closeGapAt gaps ledger ↔ (row ∈ gaps ∧ ¬ covers row ledger = true) ∨
      ∃ gap ∈ gaps, covers gap ledger = true ∧ Side ledger gap row := by
  have hfold : ∀ rows acc : List (Int × Int), (∀ gap ∈ rows, covers gap ledger = true) →
      (row ∈ rows.foldl (splitGap ledger) acc ↔
        (row ∈ acc ∧ row ∉ rows) ∨ ∃ gap ∈ rows, Side ledger gap row) := by
    intro rows
    induction rows with
    | nil => simp
    | cons first rest ih =>
      intro acc hcovers
      rw [List.forall_mem_cons] at hcovers
      rw [List.foldl_cons,ih _ hcovers.2,mem_splitGap,List.exists_mem_cons_iff,List.mem_cons]
      constructor
      · rintro (⟨⟨hacc,hne⟩ | hside,hrest⟩ | hside)
        · exact .inl ⟨hacc,fun h => h.elim hne hrest⟩
        · exact .inr (.inl hside)
        · exact .inr (.inr hside)
      · rintro (⟨hacc,hne⟩ | hside | hside)
        · exact .inl ⟨.inl ⟨hacc,fun h => hne (.inl h)⟩,fun h => hne (.inr h)⟩
        · exact .inl ⟨.inr hside,fun h => hside.not_covers (hcovers.2 row h)⟩
        · exact .inr hside
  unfold closeGapAt
  rw [hfold _ _ fun gap hgap => (List.mem_filter.mp hgap).2]
  simp only [List.mem_filter,not_and,and_assoc]
  exact or_congr_left (and_congr_right fun hmem => ⟨fun h => h hmem,fun h _ => h⟩)

theorem mem_closeGapAt_of_open (h : ∀ gap ∈ gaps, ¬ covers gap ledger = true) :
    row ∈ closeGapAt gaps ledger ↔ row ∈ gaps := by
  rw [mem_closeGapAt]
  constructor
  · rintro (⟨hmem,-⟩ | ⟨gap,hgap,hcovers,-⟩)
    · exact hmem
    · exact absurd hcovers (h gap hgap)
  · exact fun hmem => .inl ⟨hmem,h row hmem⟩

theorem Side.covers (h : Side ledger gap row) (hgap : covers gap ledger = true) {other : Int}
    (hother : covers row other = true) : Model.Indexing.covers gap other = true := by
  rw [covers_iff] at hgap hother ⊢
  rcases h with ⟨rfl,-⟩ | ⟨rfl,-⟩ <;> dsimp only at hother <;> omega

/-- Another ledger that one row covers is covered by one row afterwards. -/
theorem closeGapAt_once {other : Int} (hne : other ≠ ledger)
    (h : ∃! gap, gap ∈ gaps ∧ covers gap other = true) :
    ∃! gap, gap ∈ closeGapAt gaps ledger ∧ covers gap other = true := by
  obtain ⟨gap,⟨hgap,hother⟩,honly⟩ := h
  have hfrom : ∀ gap' ∈ gaps, covers gap' other = true → gap' = gap :=
    fun gap' hmem hcov => honly gap' ⟨hmem,hcov⟩
  by_cases hledger : covers gap ledger = true
  · -- the side towards the other ledger covers it
    obtain ⟨side,hside,hcovers,huniq⟩ : ∃ side, Side ledger gap side ∧
        covers side other = true ∧
        ∀ side', Side ledger gap side' → covers side' other = true → side' = side := by
      rw [covers_iff] at hother hledger
      rcases lt_or_gt_of_ne hne with hlt | hgt
      · refine ⟨(gap.1,ledger - 1),.inl ⟨rfl,by omega⟩,covers_iff.mpr ?_,?_⟩
        · omega
        rintro side' (⟨rfl,-⟩ | ⟨rfl,-⟩) hcov
        · rfl
        · rw [covers_iff] at hcov
          omega
      · refine ⟨(ledger+1,gap.2),.inr ⟨rfl,by omega⟩,covers_iff.mpr ?_,?_⟩
        · omega
        rintro side' (⟨rfl,-⟩ | ⟨rfl,-⟩) hcov
        · rw [covers_iff] at hcov
          omega
        · rfl
    refine ⟨side,⟨mem_closeGapAt.mpr (.inr ⟨gap,hgap,hledger,hside⟩),hcovers⟩,?_⟩
    rintro row ⟨hrow,hcov⟩
    rcases mem_closeGapAt.mp hrow with ⟨hmem,hopen⟩ | ⟨gap',hmem,hgap',hside'⟩
    · exact absurd (hfrom row hmem hcov ▸ hledger) hopen
    · obtain rfl := hfrom gap' hmem (hside'.covers hgap' hcov)
      exact huniq row hside' hcov
  · refine ⟨gap,⟨mem_closeGapAt.mpr (.inl ⟨hgap,hledger⟩),hother⟩,?_⟩
    rintro row ⟨hrow,hcov⟩
    rcases mem_closeGapAt.mp hrow with ⟨hmem,-⟩ | ⟨gap',hmem,hgap',hside'⟩
    · exact hfrom row hmem hcov
    · exact absurd (hfrom gap' hmem (hside'.covers hgap' hcov) ▸ hgap') hledger

end Splitting

section Ledgers

variable {events : List VerifiedEvent} {c : Int}

theorem lastLedger_eq_some :
    lastLedger events = some c ↔ (∃ x ∈ events, x.ledger = c) ∧ ∀ x ∈ events, x.ledger ≤ c := by
  unfold lastLedger
  rw [List.max?_eq_some_iff]
  simp

theorem lastLedger_eq_none : lastLedger events = none ↔ events = [] := by
  rw [lastLedger,List.max?_eq_none_iff,List.map_eq_nil_iff]

end Ledgers

end PriceOracle.Indexer
