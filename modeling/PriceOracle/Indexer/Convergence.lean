import PriceOracle.Indexer.Accounts
import PriceOracle.Indexer.Late

/-! # Redelivery of a reorganised history

The store is meant to depend on the final chain only, whatever the order of delivery. It does when
every late event is in time for the rows written before it and every rollback can undo the rows of
the sources. -/

namespace PriceOracle.Indexer

open Model.Indexing Lib.KeyedRows Lib.JsonText

section Statement

variable (R : Readers) (policy : TrustPolicy)

/-- The call rolls the store back to before a ledger: the same height has come with a new hash. -/
def Call.Reorganises (c : Call) (ledger : Int) : Prop :=
  ∃ arrival ∈ c.found policy, c.state.forked arrival.2 = true ∧ arrival.2.ledger ≤ ledger

/-- The chain comes in order and has one hash a ledger. -/
structure Canonical (chain : Batch) : Prop where
  ascending : ((calls R policy (.fresh policy) [chain]).filterMap (Call.event policy)).Pairwise
    fun x y => Before x.key y.key
  oneHash : ∀ x ∈ (calls R policy (.fresh policy) [chain]).filterMap (Call.event policy),
    ∀ y ∈ (calls R policy (.fresh policy) [chain]).filterMap (Call.event policy),
      x.ledger = y.ledger → x.ledgerHash = y.ledgerHash

/-- The event is taken, and no later call discards its ledger. -/
def Delivered (x : VerifiedEvent) : List Call → Prop
  | [] => False
  | c :: rest =>
    (x ∈ c.event policy ∧ (c.result R policy).2.isOk = true ∧
      ∀ d ∈ rest, ¬ d.Reorganises policy x.ledger) ∨ Delivered x rest

/-- An event that is stored and not of the chain is discarded later, when its ledger or an earlier
one comes with a new hash. -/
def Replaced (chain : List VerifiedEvent) : List Call → Prop
  | [] => True
  | c :: rest =>
    (∀ x ∈ c.event policy, x ∈ (c.after R policy).events → x ∉ chain →
      ∃ d ∈ rest, d.Reorganises policy x.ledger) ∧ Replaced chain rest

/-- A reorganisation can be undone in the rows of the sources, and a new event is in time. -/
def Call.Smooth (c : Call) : Prop :=
  (∀ arrival ∈ c.found policy, c.state.forked arrival.2 = true →
    Undoable R c.state.events (arrival.2.ledger - 1)) ∧
  ∀ arrival ∈ c.brings policy, arrival.1.jump arrival.2 = none ∨ c.allowGaps = true →
    recordable arrival.2 = true → Timely R arrival.1.events arrival.2

deriving instance Decidable for Call.Reorganises

instance (chain : Batch) : Decidable (Canonical R policy chain) :=
  decidable_of_iff (_ ∧ _) ⟨fun h => ⟨h.1, h.2⟩, fun h => ⟨h.ascending, h.oneHash⟩⟩

instance decidableDelivered (x : VerifiedEvent) : (cs : List Call) →
    Decidable (Delivered R policy x cs)
  | [] => .isFalse id
  | _ :: rest =>
    have := decidableDelivered x rest
    inferInstanceAs (Decidable (_ ∨ _))

instance decidableReplaced (chain : List VerifiedEvent) : (cs : List Call) →
    Decidable (Replaced R policy chain cs)
  | [] => .isTrue trivial
  | _ :: rest =>
    have := decidableReplaced chain rest
    inferInstanceAs (Decidable (_ ∧ _))

deriving instance Decidable for Call.Smooth

end Statement

section Coherence

variable {R : Readers} {policy : TrustPolicy} {s : Indexer} {event : VerifiedEvent}

/-- The events are in order and the tables are theirs. -/
structure Coherent (R : Readers) (s : Indexer) : Prop where
  order : InOrder VerifiedEvent.key s.events
  tables : s.tables = derive R s.events

theorem has_eq_false (h : s.has event = false) : ∀ x ∈ s.events, x.key ≠ event.key := by
  intro x hx
  simpa using List.any_eq_false.mp h x hx

theorem record_events (R : Readers) (s : Indexer) (event : VerifiedEvent) :
    ((record R s event).1.events = s.events ∧ (record R s event).1.tables = s.tables ∧
        (record R s event).2.isOk = false) ∨
      recordable event = true ∧
        (record R s event).1.events = insertRow VerifiedEvent.key event s.events ∧
        (record R s event).1.tables = take R s.tables event := by
  unfold record
  by_cases hrecordable : recordable event = true
  · refine .inr ⟨hrecordable,?_⟩
    rw [if_pos hrecordable]
    rcases heffect : effectOf R event with _ | effect
    · exact ⟨rfl,(take_of_none heffect _).symm⟩
    · exact ⟨rfl,(take_of_some heffect _).symm⟩
  · rw [if_neg hrecordable]
    exact .inl ⟨rfl,rfl,rfl⟩

/-- What storing does to events and tables. -/
theorem store_events (R : Readers) (allowGaps : Bool) (s : Indexer) (event : VerifiedEvent) :
    ((store R allowGaps s event).1.events = s.events ∧
        (store R allowGaps s event).1.tables = s.tables ∧
        ((store R allowGaps s event).2.isOk = true → s.has event = true)) ∨
      ((s.jump event = none ∨ allowGaps = true) ∧ recordable event = true ∧ s.has event = false ∧
        (store R allowGaps s event).1.events = insertRow VerifiedEvent.key event s.events ∧
        (store R allowGaps s event).1.tables = take R s.tables event) := by
  unfold store
  by_cases hfits : (!fits event.eventIndex) = true
  · rw [if_pos hfits]
    exact .inl ⟨rfl,rfl,nofun⟩
  by_cases hhas : s.has event = true
  · rw [if_neg hfits,if_pos hhas]
    exact .inl ⟨rfl,rfl,fun _ => hhas⟩
  rw [if_neg hfits,if_neg hhas]
  have hnew : s.has event = false := by simpa using hhas
  rcases hjump : s.jump event with _ | jump
  · rcases record_events R s event with ⟨hevents,htables,hok⟩ | ⟨hrecordable,hevents,htables⟩
    · exact .inl ⟨hevents,htables,fun h => absurd (hok ▸ h) nofun⟩
    · exact .inr ⟨.inl rfl,hrecordable,hnew,hevents,htables⟩
  · dsimp only
    by_cases hallow : allowGaps = true
    · rw [if_pos hallow]
      rcases record_events R { s with gaps := insertGap s.gaps jump } event with
        ⟨hevents,htables,hok⟩ | ⟨hrecordable,hevents,htables⟩
      · exact .inl ⟨hevents,htables,fun h => absurd (hok ▸ h) nofun⟩
      · exact .inr ⟨.inr hallow,hrecordable,hnew,hevents,htables⟩
    · rw [if_neg hallow]
      exact .inl ⟨rfl,rfl,nofun⟩

theorem Coherent.store (h : Coherent R s) {allowGaps : Bool}
    (htimely : s.jump event = none ∨ allowGaps = true → recordable event = true →
      Timely R s.events event) : Coherent R (store R allowGaps s event).1 := by
  rcases store_events R allowGaps s event with
    ⟨hevents,htables,-⟩ | ⟨hjump,hrecordable,hnew,hevents,htables⟩
  · exact ⟨hevents ▸ h.order,htables.trans (hevents ▸ h.tables)⟩
  · have hkeys := has_eq_false hnew
    refine ⟨hevents ▸ h.order.insertRow hkeys,?_⟩
    rw [htables,hevents,derive_late h.order hkeys (htimely hjump hrecordable),h.tables]

theorem Coherent.rollbackTo (h : Coherent R s) {ledger : Int}
    (hundo : Undoable R s.events ledger) : Coherent R (s.rollbackTo ledger) where
  order := h.order.filter _
  tables := (congrArg (Tables.rollback · ledger) h.tables).trans (derive_rollback h.order hundo)

theorem coherent_of_linked {s s' : Indexer} {cs : List Call} (h : Linked R policy s cs s')
    (hsmooth : ∀ c ∈ cs, c.Smooth R policy) (hs : Coherent R s) : Coherent R s' := by
  refine h.preserves (fun s hs => ⟨hs.order,hs.tables⟩) ?_ hs
  intro c hc hstate
  obtain ⟨hundo,htimely⟩ := hsmooth c hc
  refine c.after_of (fun event hs => ⟨hs.order,hs.tables⟩) ?_ ?_ hstate
  · rintro s event hfound hforked rfl hs
    have hpin : Coherent R (c.state.pin event) := ⟨hs.order,hs.tables⟩
    exact hpin.rollbackTo (hundo _ hfound hforked)
  · exact fun s event hbrings hs => hs.store (htimely (s,event) hbrings)

theorem coherent_fresh (R : Readers) (policy : TrustPolicy) : Coherent R (.fresh policy) :=
  ⟨List.Pairwise.nil,rfl⟩

end Coherence

section Delivery

variable {R : Readers} {policy : TrustPolicy} {c : Call} {x : VerifiedEvent} {cs : List Call}
  {s s' : Indexer} {chain : List VerifiedEvent}

/-- What is stored after a call came with it or was stored before and not discarded. -/
theorem Call.after_events (h : x ∈ (c.after R policy).events) :
    x ∈ c.event policy ∨ x ∈ c.state.events ∧ ¬ c.Reorganises policy x.ledger := by
  rcases c.after_cases R policy with ⟨hfound,-,hafter⟩ | ⟨s,event,hfound,hresult⟩
  · have hevents : (c.after R policy).events = c.state.events := by
      rcases hafter with hafter | ⟨event,hafter⟩ <;> rw [hafter]
      rfl
    refine .inr ⟨hevents ▸ h,?_⟩
    rintro ⟨arrival,harrival,-⟩
    exact absurd (hfound ▸ harrival) (by simp)
  · have hs : x ∈ s.events → x ∈ c.state.events ∧ ¬ c.Reorganises policy x.ledger := by
      intro hx
      rcases Call.found_cases hfound with ⟨hforked,rfl⟩ | ⟨-,rfl⟩
      · refine ⟨hx,?_⟩
        rintro ⟨arrival,harrival,hfork,-⟩
        cases hfound.symm.trans harrival
        exact absurd (hforked ▸ hfork) nofun
      · obtain ⟨hmem,hle⟩ := List.mem_filter.mp hx
        refine ⟨hmem,?_⟩
        rintro ⟨arrival,harrival,-,hlow⟩
        cases hfound.symm.trans harrival
        have hle' : x.ledger ≤ event.ledger - 1 := by simpa using hle
        dsimp only at hlow
        omega
    rw [Call.after,hresult] at h
    rcases store_events R c.allowGaps s event with ⟨hevents,-⟩ | ⟨-,-,-,hevents,-⟩
    · exact .inr (hs (hevents ▸ h))
    · rw [hevents] at h
      rcases mem_insertRow.mp h with rfl | hx
      · exact .inl (Call.found_eq_some.mp hfound).1
      · exact .inr (hs hx)

theorem Call.after_keeps (h : x ∈ c.state.events) (hkeep : ¬ c.Reorganises policy x.ledger) :
    x ∈ (c.after R policy).events := by
  rcases c.after_cases R policy with ⟨-,-,hafter | ⟨event,hafter⟩⟩ | ⟨s,event,hfound,hresult⟩
  · exact hafter ▸ h
  · exact hafter ▸ h
  · have hs : x ∈ s.events := by
      rcases Call.found_cases hfound with ⟨-,rfl⟩ | ⟨hforked,rfl⟩
      · exact h
      · have hlt : ¬ event.ledger ≤ x.ledger :=
          fun hle => hkeep ⟨_,hfound,hforked,hle⟩
        exact List.mem_filter.mpr ⟨h,by simp; omega⟩
    rw [Call.after,hresult]
    rcases store_events R c.allowGaps s event with ⟨hevents,-⟩ | ⟨-,-,-,hevents,-⟩
    · exact hevents ▸ hs
    · exact hevents ▸ mem_insertRow.mpr (.inr hs)

theorem Call.after_takes (h : x ∈ c.event policy) (hok : (c.result R policy).2.isOk = true) :
    ∃ y ∈ (c.after R policy).events, y.key = x.key := by
  rcases c.after_cases R policy with ⟨-,hraised,-⟩ | ⟨s,event,hfound,hresult⟩
  · exact absurd (hraised ▸ hok) nofun
  · obtain rfl : event = x := Option.some.inj ((Call.found_eq_some.mp hfound).1.symm.trans h)
    rw [Call.after]
    rw [hresult] at hok ⊢
    rcases store_events R c.allowGaps s event with ⟨hevents,-,hhas⟩ | ⟨-,-,-,hevents,-⟩
    · obtain ⟨y,hy,hkey⟩ := List.any_eq_true.mp (hhas hok)
      exact ⟨y,hevents ▸ hy,by simpa using hkey⟩
    · exact ⟨event,hevents ▸ mem_insertRow.mpr (.inl rfl),rfl⟩

theorem events_of_linked
    (h : Linked R policy s cs s') (hreplaced : Replaced R policy chain cs) (hx : x ∈ s'.events) :
    x ∈ chain ∨ x ∈ s.events ∧ ∀ d ∈ cs, ¬ d.Reorganises policy x.ledger := by
  induction h with
  | done s => exact .inr ⟨hx,fun _ hd => absurd hd List.not_mem_nil⟩
  | opened _ ih => exact ih hreplaced hx
  | @called c s' rest _ ih =>
    obtain ⟨hfirst,hrest⟩ := hreplaced
    rcases ih hrest hx with hchain | ⟨hafter,hkept⟩
    · exact .inl hchain
    · rcases Call.after_events hafter with hevent | ⟨hstate,hfirst'⟩
      · by_contra hnot
        rw [not_or] at hnot
        obtain ⟨d,hd,hreorg⟩ := hfirst x hevent hafter hnot.1
        exact hkept d hd hreorg
      · exact .inr ⟨hstate,List.forall_mem_cons.mpr ⟨hfirst',hkept⟩⟩

theorem kept_of_linked (h : Linked R policy s cs s')
    (hx : x ∈ s.events) (hkept : ∀ d ∈ cs, ¬ d.Reorganises policy x.ledger) : x ∈ s'.events := by
  induction h with
  | done s => exact hx
  | opened _ ih => exact ih hx hkept
  | called _ ih =>
    rw [List.forall_mem_cons] at hkept
    exact ih (Call.after_keeps hx hkept.1) hkept.2

theorem delivered_of_linked (h : Linked R policy s cs s')
    (hx : Delivered R policy x cs) : ∃ y ∈ s'.events, y.key = x.key := by
  induction h with
  | done s => exact hx.elim
  | opened _ ih => exact ih hx
  | called hrest ih =>
    rcases hx with ⟨hevent,hok,hkept⟩ | hx
    · obtain ⟨y,hy,hkey⟩ := Call.after_takes hevent hok
      have hledger : y.ledger = x.ledger := congrArg Prod.fst hkey
      exact ⟨y,kept_of_linked hrest hy (hledger ▸ hkept),hkey⟩
    · exact ih hx

theorem events_eq {s' : Indexer}
    (h : Linked R policy (.fresh policy) cs s') (horder : InOrder VerifiedEvent.key s'.events)
    (hchain : InOrder VerifiedEvent.key chain) (hdelivered : ∀ x ∈ chain, Delivered R policy x cs)
    (hreplaced : Replaced R policy chain cs) : s'.events = chain := by
  have hsub : ∀ x ∈ s'.events, x ∈ chain := by
    intro x hx
    rcases events_of_linked h hreplaced hx with hchain | ⟨hempty,-⟩
    · exact hchain
    · exact absurd hempty List.not_mem_nil
  refine horder.ext hchain fun x => ⟨hsub x,fun hx => ?_⟩
  obtain ⟨y,hy,hkey⟩ := delivered_of_linked h (hdelivered x hx)
  exact hchain.eq_of_key (hsub y hy) hx hkey ▸ hy

end Delivery

section Chain

variable {R : Readers} {policy : TrustPolicy}

theorem stored_of_linked {s s' : Indexer} {cs : List Call} (h : Linked R policy s cs s')
    {pre post : List Call} {c : Call} (hcs : cs = pre ++ c :: post) {x : VerifiedEvent}
    (hx : x ∈ c.state.events) : x ∈ s.events ∨ x ∈ pre.filterMap (Call.event policy) := by
  induction h generalizing pre with
  | done s => exact absurd hcs (by simp)
  | opened _ ih => exact ih hcs
  | @called first s' rest _ ih =>
    cases pre with
    | nil =>
      obtain ⟨rfl,-⟩ := List.cons.inj hcs
      exact .inl hx
    | cons d pre =>
      obtain ⟨rfl,hrest⟩ := List.cons.inj hcs
      have hmem : x ∈ first.event policy ∨ x ∈ first.state.events →
          x ∈ first.state.events ∨ x ∈ (first :: pre).filterMap (Call.event policy) := by
        rintro (hevent | hstate)
        · exact .inr (List.mem_filterMap.mpr ⟨first,List.mem_cons_self,hevent⟩)
        · exact .inl hstate
      rcases ih hrest with hafter | hpre
      · rcases Call.after_events hafter with hevent | ⟨hstate,-⟩
        · exact hmem (.inl hevent)
        · exact hmem (.inr hstate)
      · obtain ⟨e,he,hevent⟩ := List.mem_filterMap.mp hpre
        exact .inr (List.mem_filterMap.mpr ⟨e,List.mem_cons_of_mem _ he,hevent⟩)

theorem timely_of_last {events : List VerifiedEvent} {event : VerifiedEvent}
    (h : ∀ x ∈ events, Before x.key event.key) : Timely R events event := by
  have hall : derivedBefore R events event.key = derive R events :=
    congrArg (derive R) (List.filter_eq_self.mpr fun x hx => decide_eq_true (h x hx))
  intro effect _
  refine ⟨fun later hlater hbefore => absurd hbefore (h later hlater).asymm,?_⟩
  intro asset _ row _ _ _
  rw [hall]
  exact active_eq_of_from (derive_from R _) (fun x hx => (h x hx).fst_le) _

theorem storedHash_cases (s : Indexer) (ledger : Int) :
    s.storedHash ledger = none ∨
      ∃ x ∈ s.events, x.ledger = ledger ∧ s.storedHash ledger = x.ledgerHash := by
  unfold Indexer.storedHash
  cases hfind : s.events.find? fun event => event.ledger = ledger with
  | none => exact .inl rfl
  | some x =>
    have hledger : x.ledger = ledger := by simpa using List.find?_some hfind
    exact .inr ⟨x,List.mem_of_find?_eq_some hfind,hledger,rfl⟩

theorem forked_of_oneHash {s : Indexer} {event : VerifiedEvent}
    (h : ∀ x ∈ s.events, x.ledger = event.ledger → x.ledgerHash = event.ledgerHash) :
    s.forked event = false := by
  unfold Indexer.forked
  rcases storedHash_cases s event.ledger with hnone | ⟨x,hx,hledger,hstored⟩
  · rw [hnone]
    cases truthy event.ledgerHash <;> rfl
  · rw [hstored,h x hx hledger]
    cases truthy event.ledgerHash with
    | none => rfl
    | some hash => simp

/-- A chain in order gives no occasion for late events or rollbacks. -/
theorem Canonical.smooth {chain : Batch} (h : Canonical R policy chain) :
    ∀ c ∈ calls R policy (.fresh policy) [chain], c.Smooth R policy := by
  intro c hc
  obtain ⟨pre,post,hcs⟩ := List.append_of_mem hc
  have hlinked : Linked R policy (.fresh policy) (calls R policy (.fresh policy) [chain])
      (ingestAll R policy (.fresh policy) [chain]) := ingestAll_linked _ _
  have hstored : ∀ x ∈ c.state.events, x ∈ pre.filterMap (Call.event policy) := fun x hx =>
    (stored_of_linked hlinked hcs hx).resolve_left List.not_mem_nil
  have hascending := h.ascending
  rw [hcs,List.filterMap_append,List.pairwise_append] at hascending
  have hbefore : ∀ event ∈ c.event policy, ∀ x ∈ c.state.events, Before x.key event.key := by
    intro event hevent x hx
    refine hascending.2.2 x (hstored x hx) event ?_
    exact List.mem_filterMap.mpr ⟨c,List.mem_cons_self,hevent⟩
  have hfork : ∀ event ∈ c.event policy, c.state.forked event = false := by
    intro event hevent
    refine forked_of_oneHash fun x hx hledger => h.oneHash x ?_ event ?_ hledger
    · rw [hcs,List.filterMap_append]
      exact List.mem_append_left _ (hstored x hx)
    · exact List.mem_filterMap.mpr ⟨c,hc,hevent⟩
  refine ⟨?_,?_⟩
  · rintro ⟨s,event⟩ hfound hforked
    exact absurd (hfork event (Call.found_eq_some.mp hfound).1 ▸ hforked) nofun
  · rintro ⟨s,event⟩ hbrings - -
    have hfound := (Option.filter_eq_some_iff.mp hbrings).1
    have hevent := (Call.found_eq_some.mp hfound).1
    rcases Call.found_cases hfound with ⟨-,rfl⟩ | ⟨hforked,-⟩
    · exact timely_of_last (hbefore event hevent)
    · exact absurd (hfork event hevent ▸ hforked) nofun

/-- Once the events of the final chain are delivered, events and tables are those of a new store
that takes the chain once in order. -/
theorem ingest_converges (R : Readers) (policy : TrustPolicy) (chain : Batch)
    (batches : List Batch) (hchain : Canonical R policy chain)
    (hdelivered : ∀ x ∈ (ingestAll R policy (.fresh policy) [chain]).events,
      Delivered R policy x (calls R policy (.fresh policy) batches))
    (hreplaced : Replaced R policy (ingestAll R policy (.fresh policy) [chain]).events
      (calls R policy (.fresh policy) batches))
    (hsmooth : ∀ c ∈ calls R policy (.fresh policy) batches, c.Smooth R policy) :
    (ingestAll R policy (.fresh policy) batches).events =
        (ingestAll R policy (.fresh policy) [chain]).events ∧
      (ingestAll R policy (.fresh policy) batches).tables =
        (ingestAll R policy (.fresh policy) [chain]).tables := by
  have hrun := coherent_of_linked (ingestAll_linked _ batches) hsmooth (coherent_fresh R policy)
  have hfresh := coherent_of_linked (ingestAll_linked _ [chain]) hchain.smooth
    (coherent_fresh R policy)
  have hevents := events_eq (ingestAll_linked _ batches) hrun.order hfresh.order hdelivered
    hreplaced
  exact ⟨hevents,by rw [hrun.tables,hfresh.tables,hevents]⟩

def submitted (ledger : Int) (hash source : String) (price : Int) : Json :=
  envelope ledger hash "price_submitted"
    [("asset", .str "XLM"), ("source", .str source), ("price", .int price)]

def aggregated (ledger : Int) (hash : String) (price : Int) : Json :=
  envelope ledger hash "price_aggregated"
    [("asset", .str "XLM"), ("price", .int price), ("num_sources", .int 2)]

/-- A submission of one source is replayed and that of another comes late, and then its ledger and
the one after it are replaced. -/
def redelivery : List Batch :=
  [⟨[submitted 1 "a" "A" 100, submitted 4 "d" "B" 120], true⟩,
    ⟨[submitted 1 "a" "A" 100, submitted 3 "c" "C" 110], false⟩,
    ⟨[submitted 3 "x" "C" 130, aggregated 4 "y" 115], true⟩]

def replacedChain : Batch :=
  ⟨[submitted 1 "a" "A" 100, submitted 3 "x" "C" 130, aggregated 4 "y" 115], true⟩

theorem redelivery_converges :
    (ingestAll plainReaders {} (.fresh {}) redelivery).events =
        (ingestAll plainReaders {} (.fresh {}) [replacedChain]).events ∧
      (ingestAll plainReaders {} (.fresh {}) redelivery).tables =
        (ingestAll plainReaders {} (.fresh {}) [replacedChain]).tables :=
  ingest_converges plainReaders {} replacedChain redelivery (by decide +kernel)
    (by decide +kernel) (by decide +kernel) (by decide +kernel)

/-- The submission of ledger 2 comes after the aggregate of ledger 3, whose recomputed price stays
that of one source. -/
theorem late_submission_not_recomputed :
    let chain : Batch :=
      ⟨[submitted 1 "a" "A" 100,submitted 2 "b" "B" 200,aggregated 3 "c" 150],true⟩
    let batches : List Batch :=
      [⟨[submitted 1 "a" "A" 100,aggregated 3 "c" 150],true⟩,⟨[submitted 2 "b" "B" 200],false⟩]
    Canonical plainReaders {} chain ∧
      (∀ x ∈ (ingestAll plainReaders {} (.fresh {}) [chain]).events,
        Delivered plainReaders {} x (calls plainReaders {} (.fresh {}) batches)) ∧
      Replaced plainReaders {} (ingestAll plainReaders {} (.fresh {}) [chain]).events
        (calls plainReaders {} (.fresh {}) batches) ∧
      (ingestAll plainReaders {} (.fresh {}) batches).tables.aggregates ≠
        (ingestAll plainReaders {} (.fresh {}) [chain]).tables.aggregates := by
  decide +kernel

end Chain

end PriceOracle.Indexer
