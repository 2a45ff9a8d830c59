import PriceOracle.Aggregation.HardBand
import PriceOracle.Corrections.Calls

/-! # Revision chains over whole runs

Rounds, triggers, corrections, optimistic snapshots and migrations publish; the administrator sets the
scope of corrections, prunes and compacts the history and unregisters assets. Through all of it the
chain of an asset is only appended to, and a correction replaces only what was published
within the window. -/

namespace PriceOracle.Corrections

open Lib.Transaction Lib.Numbering Lib.Run Model Aggregation

inductive RevisionCall
  | priced (call : PriceCall)
  | setCorrectionScope (scope : CorrectionScope)
  | pruneHistory (asset : Address) (targetEntries : Nat)
  | compactHistory (asset : Address)
  | unregisterAsset (asset : Address)

def RevisionCall.body : RevisionCall → Contract Unit
  | priced call => call.body
  | setCorrectionScope scope => Model.setCorrectionScope scope
  | pruneHistory asset targetEntries => do
    let _ ← Model.pruneHistory asset targetEntries
    pure ()
  | compactHistory asset => asAdmin do
    let _ ← Model.compactHistory asset
    pure ()
  | unregisterAsset asset => Model.unregisterAsset asset

theorem RevisionCall.body_moves {asset : Address} (call : RevisionCall) :
    Preserves (Moves asset) call.body := by
  cases call with
  | priced call => exact call.body_preserves moves_respects
  | setCorrectionScope scope => exact setCorrectionScope_moves scope
  | pruneHistory a targetEntries =>
    exact (pruneHistory_moves a targetEntries).bind fun _ => preserves_pure _
  | compactHistory a =>
    exact asAdmin_preserves moves_respects ((compactHistory_moves a).bind fun _ => preserves_pure _)
  | unregisterAsset a => exact unregisterAsset_moves a

/-- A call, or a change elsewhere: of settings, submissions, the stored entries of the history. -/
inductive RevisionAct
  | call (call : RevisionCall)
  | elsewhere (rest : Store)

structure RevisionTx where
  env : Env
  act : RevisionAct

def execRevision (st : Store) (t : RevisionTx) : Store :=
  match t.act with
  | .call call => invoke call.body t.env st
  | .elsewhere rest => { rest with
      aggregate := st.aggregate
      corrections := st.corrections
      history := { rest.history with ledgers := st.history.ledgers }
      config := { rest.config with correctionScope := st.config.correctionScope } }

section Statements

variable (asset : Address)

/-- What the step writes to the aggregate of the asset, dated by its ledger. -/
def publishedBy (x : Store × RevisionTx) : List (Nat × AggregatePrice) :=
  match x.2.act with
  | .call call => ((effects call.body x.2.env x.1).aggregates.filter fun y => y.asset = asset).map
      fun y => (x.2.env.sequence, y.value)
  | .elsewhere _ => []

def publications (past : List (Store × RevisionTx)) : List (Nat × AggregatePrice) :=
  past.flatMap (publishedBy asset)

/-- The chain of the asset is numbered, revision 0 holds the original price, and the corrections are
counted up to the hard maximum. -/
structure ChainSound (st : Store) : Prop where
  numbered : ∀ (i : Nat) (r : PriceRevision), (st.getRevisions asset)[i]? = some r → r.index = i
  original : (st.getRevisions asset)[0]?.map PriceRevision.price = st.corrections.original asset
  counted : (st.getRevisions asset).countP PriceRevision.corrected = st.correctionCount asset
  capped : st.correctionCount asset ≤ maxCorrectionsPerAsset

/-- The later chain begins with the earlier one, and the original price has not changed. -/
structure Extended (st st' : Store) : Prop where
  appended : st.getRevisions asset <+: st'.getRevisions asset
  original : ∀ price, st.corrections.original asset = some price →
    st'.corrections.original asset = some price

def Corrects (newPrice : Int) (st : Store) (t : RevisionTx) : Prop :=
  ∃ reason, t.act = .call (.priced (.correctPrice asset newPrice reason)) ∧
    failure (correctPrice asset newPrice reason) t.env st = none

/-- The step replaces the last publication of the asset, within the window in force. -/
def ReplacesRecent (newPrice : Int) (past : List (Store × RevisionTx)) (st : Store)
    (t : RevisionTx) : Prop :=
  ∃ n value, (publications asset past).getLast? = some (n, value) ∧
    st.aggregate asset = some value ∧ n ≤ t.env.sequence ∧
    t.env.sequence - n ≤ st.getCorrectionScope.windowLedgers ∧
    (execRevision st t).aggregate asset = some (value.corrected newPrice t.env.timestamp)

/-- Nothing has been published or recorded for the asset, and no scope has been set. -/
structure Unpublished (st : Store) : Prop where
  aggregate : st.aggregate asset = none
  index : st.history.ledgerList asset = []
  revisions : st.corrections.revisions asset = none
  original : st.corrections.original asset = none
  count : st.corrections.count asset = none
  scope : st.config.correctionScope = none

/-- In every state of the run the chain is sound and begins with every chain before it; every correction
replaces what was published within the window. -/
structure RevisionsSound (st : Store) (ts : List RevisionTx) : Prop where
  sound : ∀ pre post, ts = pre ++ post → ChainSound asset (run execRevision st pre)
  extended : ∀ pre mid post, ts = pre ++ mid ++ post →
    Extended asset (run execRevision st pre) (run execRevision st (pre ++ mid))
  recent : ∀ pre t post, ts = pre ++ t :: post → ∀ newPrice,
    Corrects asset newPrice (run execRevision st pre) t →
      ReplacesRecent asset newPrice (steps execRevision st pre) (run execRevision st pre) t

end Statements

section Steps

variable {asset : Address} {st : Store} {t : RevisionTx}

theorem invoke_publishes (asset : Address) (call : RevisionCall) (env : Env) (st : Store) :
    Publishes asset (effects call.body env st).aggregates (World.enter env st)
      (commit call.body (World.enter env st)) := by
  obtain ⟨ws,h⟩ : Moves asset (World.enter env st) (commit call.body (World.enter env st)) :=
    commit_of_sat (Std.Refl.refl _) (call.body_moves _)
  have hws : (effects call.body env st).aggregates = ws := h.written
  rw [hws]
  exact h

/-- Under a bounded scope the record is continued, and the scope stays bounded. -/
def Carries (asset : Address) (st st' : Store) : Prop :=
  BoundedScope st → OnRecord asset st.corrections →
    BoundedScope st' ∧ Continues asset st.corrections st'.corrections

theorem carries_refl (st : Store) : Carries asset st st :=
  fun hscope hrecord => ⟨hscope,.refl hrecord⟩

theorem carries_trans (st st' st'' : Store) (h : Carries asset st st')
    (h' : Carries asset st' st'') : Carries asset st st'' := by
  intro hscope hrecord
  obtain ⟨hscope',hfirst⟩ := h hscope hrecord
  obtain ⟨hscope'',hsecond⟩ := h' hscope' hfirst.onRecord
  exact ⟨hscope'',hfirst.trans hsecond⟩

theorem execRevision_carries (st : Store) (t : RevisionTx) :
    Carries asset st (execRevision st t) := by
  unfold execRevision
  cases t.act with
  | call call =>
    have h := invoke_publishes asset call t.env st
    exact fun hscope hrecord => ⟨h.scope hscope,h.record hscope hrecord⟩
  | elsewhere rest => exact fun hscope hrecord => ⟨hscope,.refl hrecord⟩

theorem run_carries {ts pre mid post : List RevisionTx} (hts : ts = pre ++ mid ++ post) :
    Carries asset (run execRevision st pre) (run execRevision st (pre ++ mid)) :=
  (related_iff_steps carries_refl carries_trans).2 (fun _ _ => execRevision_carries _ _)
    pre mid post hts

end Steps

section Publications

variable {asset : Address} {st : Store} {t : RevisionTx} {past : List (Store × RevisionTx)}

/-- The last publication wrote the aggregate, and nothing is indexed after it. -/
structure Accounted (asset : Address) (past : List (Store × RevisionTx)) (st : Store) : Prop where
  current : ∀ v ∈ st.aggregate asset, ∃ n, (publications asset past).getLast? = some (n, v)
  indexed : ∀ l ∈ st.history.ledgerList asset,
    ∃ p, (publications asset past).getLast? = some p ∧ l ≤ p.1

theorem getLast?_publications (call : RevisionCall) (hcall : t.act = .call call) :
    (publications asset (past ++ [(st,t)])).getLast? =
      ((lastWritten asset (effects call.body t.env st).aggregates).map
        (Prod.mk t.env.sequence)).or (publications asset past).getLast? := by
  unfold publications publishedBy lastWritten
  rw [List.flatMap_append,List.flatMap_singleton,List.getLast?_append,hcall]
  rw [List.getLast?_map,Option.map_map]
  rfl

theorem publications_elsewhere {rest : Store} (hact : t.act = .elsewhere rest) :
    publications asset (past ++ [(st,t)]) = publications asset past := by
  unfold publications publishedBy
  rw [List.flatMap_append,List.flatMap_singleton,hact,List.append_nil]

/-- A publication is dated by a step of the past. -/
theorem dated_of_mem {p : Nat × AggregatePrice} (h : p ∈ publications asset past) :
    ∃ y ∈ past, p.1 = y.2.env.sequence := by
  obtain ⟨y,hy,hp⟩ := List.mem_flatMap.1 h
  refine ⟨y,hy,?_⟩
  unfold publishedBy at hp
  split at hp
  · obtain ⟨x,-,rfl⟩ := List.mem_map.1 hp
    rfl
  · cases hp

theorem accounted_step (h : Accounted asset past st)
    (hlater : ∀ y ∈ past, y.2.env.sequence ≤ t.env.sequence) :
    Accounted asset (past ++ [(st,t)]) (execRevision st t) := by
  unfold execRevision
  cases hact : t.act with
  | elsewhere rest =>
    constructor
    · rw [publications_elsewhere hact]
      exact h.current
    · rw [publications_elsewhere hact]
      exact h.indexed
  | call call =>
    have hpublishes := invoke_publishes asset call t.env st
    constructor
    · intro v hv
      rw [getLast?_publications call hact]
      have hlast := hpublishes.aggregate v hv
      cases hwritten : lastWritten asset (effects call.body t.env st).aggregates with
      | some x =>
        rw [hwritten,Option.some_or,Option.some.injEq] at hlast
        exact ⟨t.env.sequence,by rw [hlast]; rfl⟩
      | none =>
        rw [hwritten,Option.none_or] at hlast
        exact h.current v hlast
    · intro l hl
      rw [getLast?_publications call hact]
      cases hwritten : lastWritten asset (effects call.body t.env st).aggregates with
      | some x =>
        refine ⟨(t.env.sequence,x),rfl,?_⟩
        rcases hpublishes.indexed l hl with hold | ⟨-,rfl⟩
        · obtain ⟨p,hp,hle⟩ := h.indexed l hold
          obtain ⟨y,hy,hdated⟩ := dated_of_mem (List.mem_of_getLast? hp)
          exact hle.trans (hdated ▸ hlater y hy)
        · exact le_refl _
      | none =>
        have hold := (hpublishes.indexed l hl).resolve_right fun h => by simp [hwritten] at h
        exact h.indexed l hold

/-- A correction finds the last publication within the window, since the newest indexed ledger is no
later. -/
theorem replacesRecent_of_corrects {newPrice : Int} (h : Accounted asset past st)
    (hlater : ∀ y ∈ past, y.2.env.sequence ≤ t.env.sequence) (hcorrects : Corrects asset newPrice st t) :
    ReplacesRecent asset newPrice past st t := by
  obtain ⟨reason,hact,hsucceeds⟩ := hcorrects
  have hexec : execRevision st t = invoke (correctPrice asset newPrice reason) t.env st := by
    unfold execRevision
    rw [hact]
    exact invoke_discard _
  rcases invoke_cases (correctPrice_replaces asset newPrice reason (World.enter t.env st)) with
    ⟨hfails,-⟩ | ⟨-,w,⟨value,hreplaces⟩,hstore,-⟩
  · exact absurd hsucceeds hfails
  obtain ⟨n,hlast⟩ := h.current value hreplaces.stored
  have hpast : n ≤ t.env.sequence := by
    obtain ⟨y,hy,hdated⟩ := dated_of_mem (List.mem_of_getLast? hlast)
    dsimp only at hdated
    rw [hdated]
    exact hlater y hy
  have hindexed : st.historyLedger asset ≤ n := by
    unfold Store.historyLedger
    cases hnewest : (st.history.ledgerList asset).getLast? with
    | none => exact Nat.zero_le n
    | some l =>
      obtain ⟨p,hp,hle⟩ := h.indexed l (List.mem_of_getLast? hnewest)
      rw [hlast,Option.some.injEq] at hp
      subst hp
      exact hle
  have hrecent : t.env.sequence - st.historyLedger asset ≤ st.getCorrectionScope.windowLedgers :=
    hreplaces.recent
  refine ⟨n,value,hlast,hreplaces.stored,hpast,by omega,?_⟩
  rw [hexec,← hstore,hreplaces.aggregate,Function.update_self]
  rfl

end Publications

section Runs

variable {asset : Address} {st : Store} {ts : List RevisionTx}

theorem chainSound_of_onRecord (h : OnRecord asset st.corrections) : ChainSound asset st where
  numbered := h.numbered
  original := by
    rw [← List.head?_eq_getElem?]
    exact h.original
  counted := h.counted
  capped := h.capped

theorem onRecord_of_unpublished (h : Unpublished asset st) : OnRecord asset st.corrections := by
  have hchain : chain st.corrections asset = [] := by rw [chain,h.revisions]; rfl
  constructor
  · rw [h.revisions]
    exact Option.some_ne_none _ |>.symm
  · rw [hchain]
    exact numbered_nil
  · rw [hchain,h.original]
    rfl
  · rw [hchain,h.count]
    rfl
  · rw [h.count]
    exact Nat.zero_le _

theorem boundedScope_of_unpublished (h : Unpublished asset st) : BoundedScope st := by
  unfold BoundedScope Store.getCorrectionScope
  rw [h.scope]
  exact le_refl _

theorem accounted_of_unpublished (h : Unpublished asset st) : Accounted asset [] st where
  current v hv := by
    rw [h.aggregate] at hv
    cases hv
  indexed l hl := by
    rw [h.index] at hl
    cases hl

theorem accounted_run (h : Unpublished asset st) {pre post : List RevisionTx}
    (hledgers : (pre ++ post).Pairwise fun t u => t.env.sequence ≤ u.env.sequence) :
    Accounted asset (steps execRevision st pre) (run execRevision st pre) :=
  past_keeps (fun _ _ _ hI hC => accounted_step hI hC) (accounted_of_unpublished h)
    (past_ordered (List.pairwise_append.1 hledgers).1)

/-- From a state in which nothing is published for the asset, along ledgers that do not decrease. -/
theorem revisions_sound (asset : Address) (st : Store) (ts : List RevisionTx)
    (hst : Unpublished asset st)
    (hledgers : ts.Pairwise fun t u => t.env.sequence ≤ u.env.sequence) :
    RevisionsSound asset st ts := by
  have hrecord {pre post : List RevisionTx} (hts : ts = pre ++ post) :
      BoundedScope (run execRevision st pre) ∧
        OnRecord asset (run execRevision st pre).corrections := by
    have hsplit : ts = [] ++ pre ++ post := hts
    have hcarries : Carries asset st (run execRevision st pre) := run_carries hsplit
    obtain ⟨hscope,hcontinues⟩ :=
      hcarries (boundedScope_of_unpublished hst) (onRecord_of_unpublished hst)
    exact ⟨hscope,hcontinues.onRecord⟩
  constructor
  · exact fun pre post hts => chainSound_of_onRecord (hrecord hts).2
  · intro pre mid post hts
    obtain ⟨hscope,honRecord⟩ := hrecord (hts.trans (List.append_assoc pre mid post))
    have hcontinues := (run_carries hts hscope honRecord).2
    exact ⟨hcontinues.appended,fun price hprice => hcontinues.original honRecord hprice⟩
  · rintro pre t post rfl newPrice hcorrects
    refine replacesRecent_of_corrects (accounted_run hst hledgers) ?_ hcorrects
    exact past_ordered hledgers pre t post rfl

/-- A round publishes the price of asset `10`, and the administrator corrects it twice within the scope
that was set before. -/
def revisedRun : List RevisionTx :=
  [⟨.concrete 1 5 [9], .call (.setCorrectionScope ⟨some [10], 3, 40⟩)⟩,
    ⟨.concrete 2 6 [], .call (.priced (.aggregate (.recomputeAssetPrice 10)))⟩,
    ⟨.concrete 4 7 [9], .call (.priced (.correctPrice 10 130 "adapter typo"))⟩,
    ⟨.concrete 5 8 [9], .call (.priced (.correctPrice 10 125 "late data"))⟩,
    ⟨.concrete 6 9 [9], .call (.priced (.correctPrice 10 120 "too late"))⟩]

theorem revisedRun_sound :
    RevisionsSound 10 (pricedStore 140) revisedRun ∧
      ((run execRevision (pricedStore 140) revisedRun).getRevisions 10).map PriceRevision.price =
        [140, 130, 125] :=
  ⟨revisions_sound 10 (pricedStore 140) revisedRun ⟨rfl,rfl,rfl,rfl,rfl,rfl⟩ (by decide),by decide⟩

end Runs

end PriceOracle.Corrections
