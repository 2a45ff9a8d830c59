import PriceOracle.Aggregation.Writers

/-! # Effects of the optimistic oracle

Every call begins by settling what it finds expired, so a read can write. `settlements` lists, from
the storage before a call, the snapshots a successful call makes and the proposals it makes them
for; `ProposalEffect` lists what it does to the records. -/

namespace PriceOracle.Proposals

open Lib.Transaction Lib.Footprint Lib.MachineInt Model Aggregation

inductive OptimisticCall
  | proposePrice (proposer asset : Address) (price : Int) (timestamp : Nat) (bondAmount : Int)
  | disputeProposal (disputer : Address) (id : Nat)
  | resolveDispute (id : Nat) (resolution : Bool)
  | resolveViaExternalData (id : Nat) (externalPrice : Int) (proof : ExternalDataProof)
  | getProposal (id : Nat)
  | getActiveProposals

/-- The optimistic calls among the calls that can write an aggregate. -/
def OptimisticCall.priced : OptimisticCall → PriceCall
  | proposePrice proposer asset price timestamp bondAmount =>
    .proposePrice proposer asset price timestamp bondAmount
  | disputeProposal disputer id => .disputeProposal disputer id
  | resolveDispute id resolution => .resolveDispute id resolution
  | resolveViaExternalData id externalPrice proof =>
    .resolveViaExternalData id externalPrice proof
  | getProposal id => .getProposal id
  | getActiveProposals => .getActiveProposals

def OptimisticCall.body (call : OptimisticCall) : Contract Unit := call.priced.body

/-- A snapshot of the price of an asset, made on account of a proposal. -/
structure Settlement where
  id : Nat
  asset : Address
  price : Int
  timestamp : Nat

def ownPrice (p : OptimisticProposal) : Settlement := ⟨p.id, p.asset, p.price, p.timestamp⟩

/-- The proposal's dispute has outlasted its bound. -/
def lapsed (p : OptimisticProposal) (sequence : Nat) : Bool :=
  p.status = .disputed ∧ satAdd32 p.expiresAtLedger maxDisputeDuration ≤ sequence

/-- What `finalize_if_expired` leaves in place of a proposal. -/
def settled (sequence : Nat) (p : OptimisticProposal) : OptimisticProposal :=
  if lapsed p sequence then { p with status := .resolved, resolved := true, resolution := 2 }
  else if p.due sequence then { p with status := .finalized, resolved := true, resolution := 1 }
  else p

/-- The snapshots of a read of the proposals `ids`. -/
def dueSettlements (sequence : Nat) (proposal : Map Nat OptimisticProposal) (ids : List Nat) :
    List Settlement :=
  ((ids.filterMap proposal).filter (·.due sequence)).map ownPrice

def contestedAt (env : Env) (st : Store) (id : Nat) : List OptimisticProposal :=
  (st.optimistic.proposal id).toList.filter (contested · env.sequence)

/-- The snapshots a successful call makes. -/
def settlements (env : Env) (st : Store) : OptimisticCall → List Settlement
  | .resolveDispute id resolution =>
    if resolution then (contestedAt env st id).map ownPrice else []
  | .resolveViaExternalData id externalPrice proof =>
    (contestedAt env st id).map fun p => ⟨p.id, p.asset, externalPrice, proof.timestamp⟩
  | .getProposal id => dueSettlements env.sequence st.optimistic.proposal [id]
  | .getActiveProposals =>
    dueSettlements env.sequence st.optimistic.proposal (List.range' 1 st.readProposalCount)
  | _ => []

/-- The checks of `propose_price`. -/
def Proposable (env : Env) (st : Store) (proposer asset : Address) (price : Int) (timestamp : Nat)
    (bondAmount : Int) : Prop :=
  st.isRegisteredAsset asset = true ∧ 0 < price ∧ st.fromFuture env timestamp = false ∧
    st.readMinBond ≤ bondAmount ∧ env.authorized proposer = true

/-- The record of a new proposal. -/
def newProposal (env : Env) (st : Store) (proposer asset : Address) (price : Int) (timestamp : Nat)
    (bondAmount : Int) : OptimisticProposal where
  id := wrap32 (st.readProposalCount + 1)
  asset := asset
  proposer := proposer
  price := price
  timestamp := timestamp
  bondAmount := bondAmount
  disputeWindow := st.readDisputeWindow
  expiresAtLedger := satAdd32 env.sequence st.readDisputeWindow
  status := .pending
  disputed := false
  resolved := false
  resolution := 0
  disputer := none

def ByAdmin (env : Env) (st : Store) : Prop :=
  ∃ admin, st.config.admin = some admin ∧ env.authorized admin = true

/-- Stores a record in place of the one it updates. -/
def putProposal (o : Optimistic) (p : OptimisticProposal) : Optimistic :=
  { o with proposal := Function.update o.proposal p.id (some p) }

/-- The records after a read of the proposals `ids`. -/
def settleAll (o : Optimistic) (sequence : Nat) (ids : List Nat) : Optimistic :=
  { o with proposal := fun i =>
      if i ∈ ids then (o.proposal i).map (settled sequence) else o.proposal i }

/-- What a successful call leaves in place of the proposals. -/
inductive ProposalEffect (env : Env) (st : Store) : OptimisticCall → Optimistic → Prop
  | proposed {proposer a price ts bond} (hp : Proposable env st proposer a price ts bond) :
    ProposalEffect env st (.proposePrice proposer a price ts bond)
      { putProposal st.optimistic (newProposal env st proposer a price ts bond) with
        proposalCount := some (wrap32 (st.readProposalCount + 1)) }
  | disputed {d id p} (hp : st.optimistic.proposal id = some p) (hstatus : p.status = .pending)
      (hseq : env.sequence < p.expiresAtLedger) :
    ProposalEffect env st (.disputeProposal d id) (putProposal st.optimistic
      { p with status := .disputed, disputed := true, disputer := some d })
  | resolved {id resolution p} (hp : st.optimistic.proposal id = some p)
      (hopen : contested p env.sequence = true) (hadmin : ByAdmin env st) :
    ProposalEffect env st (.resolveDispute id resolution) (putProposal st.optimistic
      { p with status := .resolved, resolved := true, resolution := if resolution then 1 else 2 })
  | resolvedExternally {id price proof p} (hp : st.optimistic.proposal id = some p)
      (hopen : contested p env.sequence = true) (hadmin : ByAdmin env st) :
    ProposalEffect env st (.resolveViaExternalData id price proof) (putProposal st.optimistic
      { p with status := .resolved, resolved := true, resolution := 1 })
  | read {id} : ProposalEffect env st (.getProposal id)
      (settleAll st.optimistic env.sequence [id])
  | swept : ProposalEffect env st .getActiveProposals
      (settleAll st.optimistic env.sequence (List.range' 1 st.readProposalCount))

/-- The writes `as` record the snapshots `S` one after the other, from the aggregates `agg` on. -/
inductive Records : Map Address AggregatePrice → List Settlement → List AggregateWrite →
    Map Address AggregatePrice → Prop
  | nil (agg : Map Address AggregatePrice) : Records agg [] [] agg
  | cons {agg agg' : Map Address AggregatePrice} {s : Settlement} {a : AggregateWrite}
      {S : List Settlement} {as : List AggregateWrite} (hbefore : a.before.aggregate = agg)
      (hasset : a.asset = s.asset) (hprice : a.value.price = s.price)
      (htimestamp : a.value.timestamp = s.timestamp)
      (hrest : Records (Function.update agg a.asset (some a.value)) S as agg') :
    Records agg (s :: S) (a :: as) agg'

theorem Records.append {agg agg' agg'' : Map Address AggregatePrice} {S S' : List Settlement}
    {as as' : List AggregateWrite} (h : Records agg S as agg') (h' : Records agg' S' as' agg'') :
    Records agg (S ++ S') (as ++ as') agg'' := by
  induction h with
  | nil => exact h'
  | cons hbefore hasset hprice htimestamp _ ih =>
    exact .cons hbefore hasset hprice htimestamp (ih h')

/-- The transaction makes the snapshots `S` and changes no setting. -/
structure Snapshots (S : List Settlement) (w w' : World) : Prop where
  writes : ∃ as, w'.log.aggregates = w.log.aggregates ++ as ∧
    Records w.store.aggregate S as w'.store.aggregate
  rest : layout.agreeOff [.aggregates, .history, .optimistic, .auths] w w'

section Snapshots

variable {w t u : World} {S S' : List Settlement}

theorem Snapshots.trans (h : Snapshots S w t) (h' : Snapshots S' t u) :
    Snapshots (S ++ S') w u := by
  obtain ⟨as,hlog,hrec⟩ := h.writes
  obtain ⟨as',hlog',hrec'⟩ := h'.writes
  refine ⟨⟨as ++ as',?_,hrec.append hrec'⟩,IsTrans.trans w t u h.rest h'.rest⟩
  rw [hlog',hlog,List.append_assoc]

theorem snapshots_nil (h : layout.agreeOff [.history,.optimistic,.auths] w t) :
    Snapshots [] w t := by
  have haggregates : (t.store.aggregate,t.log.aggregates) =
      (w.store.aggregate,w.log.aggregates) := h .aggregates (by decide)
  obtain ⟨haggregate,hlog⟩ := Prod.mk.inj haggregates
  refine ⟨⟨[],by simp [hlog],?_⟩,fun r hr => h r fun hr' => hr (List.mem_cons_of_mem _ hr')⟩
  rw [haggregate]
  exact .nil _

theorem Snapshots.env_eq (h : Snapshots S w t) : t.env = w.env := h.rest .env (by decide)

theorem writePriceSnapshot_snapshots (id : Nat) (asset : Address) (price : Int)
    (timestamp numSources ledger : Nat) (w : World) :
    Sat (writePriceSnapshot asset price timestamp numSources ledger) w fun _ w' =>
      Snapshots [⟨id,asset,price,timestamp⟩] w w' ∧
        w'.store.optimistic = w.store.optimistic := by
  refine ((writePriceSnapshot_frame asset price timestamp numSources ledger w).and (R := fun _ w' =>
    ∃ as, w'.log.aggregates = w.log.aggregates ++ as ∧
      Records w.store.aggregate [⟨id,asset,price,timestamp⟩] as w'.store.aggregate) ?_).mono
    fun _ w' hw => ?_
  · unfold writePriceSnapshot
    simp only [sat_bind,sat_readStore,sat_writeAggregate,modifyHistory,sat_update]
    exact ⟨_,rfl,.cons rfl rfl rfl rfl (.nil _)⟩
  · refine ⟨⟨hw.2,fun r hr => hw.1 r fun h => hr ?_⟩,hw.1 .optimistic (by decide)⟩
    revert h
    cases r <;> decide

end Snapshots

/-- Records are stored under their own identifiers. -/
def Keyed (o : Optimistic) : Prop := ∀ i p, o.proposal i = some p → p.id = i

section Records

variable {o : Optimistic} {p : OptimisticProposal} {sequence : Nat}

theorem settled_of_current (hlapsed : lapsed p sequence = false) (hdue : p.due sequence = false) :
    settled sequence p = p := by
  unfold settled
  simp [hlapsed,hdue]

theorem putProposal_self (hp : o.proposal p.id = some p) : putProposal o p = o := by
  unfold putProposal
  rw [← hp,Function.update_eq_self]

theorem stored_putProposal {i : Nat} {q : OptimisticProposal}
    (h : (putProposal o p).proposal i = some q) : i = p.id ∧ q = p ∨ o.proposal i = some q := by
  exact stored_of_update h

theorem keyed_putProposal (h : Keyed o) : Keyed (putProposal o p) := by
  intro i q hq
  rcases stored_putProposal hq with ⟨hi,rfl⟩ | hq
  · exact hi.symm
  · exact h i q hq

@[simp] theorem settled_id : (settled sequence p).id = p.id := by
  unfold settled
  split_ifs <;> rfl

theorem settleAll_nil : settleAll o sequence [] = o := by
  unfold settleAll
  simp

theorem settleAll_cons_none {id : Nat} (ids : List Nat) (hnone : o.proposal id = none) :
    settleAll o sequence (id :: ids) = settleAll o sequence ids := by
  unfold settleAll
  congr 1
  funext i
  by_cases hi : i = id
  · subst hi
    simp [hnone]
  · simp [hi]

/-- Reading one proposal and then the others is reading them all. -/
theorem settleAll_cons_some {ids : List Nat} (hp : o.proposal p.id = some p)
    (hnot : p.id ∉ ids) :
    settleAll o sequence (p.id :: ids) =
      settleAll (putProposal o (settled sequence p)) sequence ids := by
  unfold settleAll putProposal
  congr 1
  funext i
  by_cases hi : i = p.id
  · subst hi
    simp [hp,hnot]
  · simp [hi]

theorem dueSettlements_congr {proposal : Map Nat OptimisticProposal} {ids : List Nat}
    (h : ∀ i ∈ ids, proposal i = o.proposal i) :
    dueSettlements sequence proposal ids = dueSettlements sequence o.proposal ids := by
  unfold dueSettlements
  rw [List.filterMap_congr h]

theorem dueSettlements_cons (proposal : Map Nat OptimisticProposal) (id : Nat) (ids : List Nat) :
    dueSettlements sequence proposal (id :: ids) =
      dueSettlements sequence proposal [id] ++ dueSettlements sequence proposal ids := by
  unfold dueSettlements
  cases hp : proposal id with
  | none => simp [hp]
  | some p => by_cases hdue : p.due sequence = true <;> simp [hp,hdue]

end Records

section Specs

variable {w : World} {p : OptimisticProposal}

theorem writeProposal_effect (p : OptimisticProposal) (w : World) :
    Sat (writeProposal p) w fun _ w' =>
      w'.store.optimistic = putProposal w.store.optimistic p ∧ Snapshots [] w w' := by
  refine Sat.and ?_ (((writeProposal_frame p).mono (by simp) w).mono fun _ _ hw => snapshots_nil hw)
  unfold writeProposal modifyOptimistic
  rw [sat_update]
  rfl

/-- Reading a stored proposal settles its record and makes its snapshot if it has fallen due. -/
theorem finalizeIfExpired_effect (hp : w.store.optimistic.proposal p.id = some p) :
    Sat (finalizeIfExpired p) w fun q w' => q = settled w.env.sequence p ∧
      w'.store.optimistic = putProposal w.store.optimistic (settled w.env.sequence p) ∧
      Snapshots (dueSettlements w.env.sequence w.store.optimistic.proposal [p.id]) w w' := by
  have hsettlements : dueSettlements w.env.sequence w.store.optimistic.proposal [p.id] =
      if p.due w.env.sequence then [ownPrice p] else [] := by
    unfold dueSettlements
    by_cases hdue : p.due w.env.sequence = true <;> simp [hp,hdue]
  have hkept (hlapsed : lapsed p w.env.sequence = false) (hdue : p.due w.env.sequence = false) :
      Sat (pure p : Contract OptimisticProposal) w fun q w' => q = settled w.env.sequence p ∧
        w'.store.optimistic = putProposal w.store.optimistic (settled w.env.sequence p) ∧
        Snapshots (if p.due w.env.sequence then [ownPrice p] else []) w w' := by
    rw [sat_pure,settled_of_current hlapsed hdue,putProposal_self hp,hdue]
    exact ⟨rfl,rfl,snapshots_nil (Std.Refl.refl w)⟩
  rw [hsettlements]
  unfold finalizeIfExpired
  rw [sat_bind,sat_getSequence]
  by_cases hdisputed : p.status = .disputed
  · have hdue : p.due w.env.sequence = false := by simp [OptimisticProposal.due,hdisputed]
    rw [if_pos hdisputed]
    apply sat_ite
    · intro hopen
      exact hkept (by simp [lapsed,hopen]) hdue
    · intro hover
      have hlapsed : lapsed p w.env.sequence = true := by
        exact decide_eq_true ⟨hdisputed,Nat.le_of_not_lt hover⟩
      have hsettled : settled w.env.sequence p =
          { p with status := .resolved, resolved := true, resolution := 2 } := by
        unfold settled
        rw [if_pos hlapsed]
      rw [hdue,hsettled]
      refine (writeProposal_effect _ w).andThen fun _ w' hw => (sat_pure _).2 ?_
      exact ⟨rfl,hw⟩
  · have hlapsed : lapsed p w.env.sequence = false := by simp [lapsed,hdisputed]
    rw [if_neg hdisputed]
    apply sat_ite
    · intro hdue
      exact hkept hlapsed hdue
    · intro hdue
      rw [Bool.not_eq_false] at hdue
      have hsettled : settled w.env.sequence p =
          { p with status := .finalized, resolved := true, resolution := 1 } := by
        unfold settled
        rw [if_neg (by simp [hlapsed]),if_pos hdue]
      rw [hdue,hsettled]
      refine (writeProposal_effect _ w).andThen fun _ t ht => ?_
      obtain ⟨hrecord,hnothing⟩ := ht
      refine (writePriceSnapshot_snapshots p.id p.asset p.price p.timestamp 1 _ t).andThen
        fun _ u hu => (sat_pure _).2 ?_
      exact ⟨rfl,hu.2.trans hrecord,hnothing.trans hu.1⟩

/-- A sweep over distinct proposals settles the records of all of them. -/
theorem collectActive_effect {ids : List Nat} (hnodup : ids.Nodup)
    (hkeyed : Keyed w.store.optimistic) (active : List OptimisticProposal) :
    Sat (ids.foldlM collectActive active) w fun _ w' =>
      w'.store.optimistic = settleAll w.store.optimistic w.env.sequence ids ∧
      Snapshots (dueSettlements w.env.sequence w.store.optimistic.proposal ids) w w' := by
  induction ids generalizing w active with
  | nil =>
    rw [List.foldlM_nil,sat_pure,settleAll_nil]
    exact ⟨rfl,snapshots_nil (Std.Refl.refl w)⟩
  | cons id ids ih =>
    rw [List.nodup_cons] at hnodup
    rw [List.foldlM_cons,dueSettlements_cons]
    unfold collectActive
    rw [sat_bind,sat_bind,sat_readStore]
    cases hp : w.store.optimistic.proposal id with
    | none =>
      have hnothing : dueSettlements w.env.sequence w.store.optimistic.proposal [id] = [] := by
        simp [dueSettlements,hp]
      rw [hnothing,settleAll_cons_none ids hp,List.nil_append]
      exact (sat_pure _).2 (ih hnodup.2 hkeyed active)
    | some p =>
      obtain rfl := hkeyed id p hp
      rw [sat_bind]
      refine (finalizeIfExpired_effect hp).mono fun q t ht => (sat_pure _).2 ?_
      obtain ⟨-,hrecord,hsnapshots⟩ := ht
      have henv : t.env = w.env := hsnapshots.env_eq
      have hothers : ∀ i ∈ ids, t.store.optimistic.proposal i = w.store.optimistic.proposal i := by
        intro i hi
        rw [hrecord]
        refine Function.update_of_ne ?_ _ _
        rw [settled_id]
        rintro rfl
        exact hnodup.1 hi
      have hkeyed' : Keyed t.store.optimistic := by
        rw [hrecord]
        exact keyed_putProposal hkeyed
      refine (ih hnodup.2 hkeyed' _).mono fun _ u hu => ?_
      obtain ⟨hrecords,hrest⟩ := hu
      rw [henv,hrecord,← settleAll_cons_some hp hnodup.1] at hrecords
      rw [henv,dueSettlements_congr hothers] at hrest
      exact ⟨hrecords,hsnapshots.trans hrest⟩

theorem getActiveProposals_effect (hkeyed : Keyed w.store.optimistic) :
    Sat getActiveProposals w fun _ w' =>
      w'.store.optimistic = settleAll w.store.optimistic w.env.sequence
        (List.range' 1 w.store.readProposalCount) ∧
      Snapshots (settlements w.env w.store .getActiveProposals) w w' := by
  exact collectActive_effect List.nodup_range' hkeyed []

theorem getProposal_effect (id : Nat) (hkeyed : Keyed w.store.optimistic) :
    Sat (getProposal id) w fun _ w' =>
      w'.store.optimistic = settleAll w.store.optimistic w.env.sequence [id] ∧
      Snapshots (settlements w.env w.store (.getProposal id)) w w' := by
  unfold getProposal
  rw [sat_bind,sat_readStore]
  change Sat _ w fun _ w' => _ ∧
    Snapshots (dueSettlements w.env.sequence w.store.optimistic.proposal [id]) w w'
  cases hp : w.store.optimistic.proposal id with
  | none =>
    have hnothing : dueSettlements w.env.sequence w.store.optimistic.proposal [id] = [] := by
      simp [dueSettlements,hp]
    rw [hnothing,settleAll_cons_none [] hp,settleAll_nil]
    exact (sat_pure _).2 ⟨rfl,snapshots_nil (Std.Refl.refl w)⟩
  | some p =>
    obtain rfl := hkeyed id p hp
    refine (finalizeIfExpired_effect hp).andThen fun q w' hw => (sat_pure _).2 ?_
    rw [settleAll_cons_some hp (by simp),settleAll_nil]
    exact hw.2

theorem proposePrice_effect (proposer asset : Address) (price : Int) (timestamp : Nat)
    (bondAmount : Int) (w : World) :
    Sat (proposePrice proposer asset price timestamp bondAmount) w fun _ w' =>
      ProposalEffect w.env w.store (.proposePrice proposer asset price timestamp bondAmount)
        w'.store.optimistic ∧ Snapshots [] w w' := by
  have hframe : Frame [.history,.optimistic,.auths]
      (proposePrice proposer asset price timestamp bondAmount) :=
    (proposePrice_frame proposer asset price timestamp bondAmount).mono (by simp)
  refine Sat.and ?_ ((hframe w).mono fun _ _ hw => snapshots_nil hw)
  refine (checkRegisteredAsset_sat asset w).andThen fun _ t ht => ?_
  obtain ⟨hreg,hsame⟩ := ht
  have henv : t.env = w.env := hsame .env (by simp)
  have hconfig : t.store.config = w.store.config := hsame .config (by simp)
  have hflags : t.store.flags = w.store.flags := hsame .flags (by simp)
  have hoptimistic : t.store.optimistic = w.store.optimistic := hsame .optimistic (by simp)
  unfold writeProposal modifyOptimistic
  simp only [sat_bind,sat_ensure,sat_readStore,sat_requireAuth,sat_getSequence,sat_update,sat_pure]
  intro hprice hlate hbond hauth
  have hproposable : Proposable w.env w.store proposer asset price timestamp bondAmount := by
    unfold Store.fromFuture Store.getTimestampThreshold Store.on at hlate
    unfold Store.readMinBond at hbond
    rw [henv,hflags,hconfig] at hlate
    rw [hconfig] at hbond
    rw [henv] at hauth
    exact ⟨hreg,hprice,hlate,hbond,hauth⟩
  unfold Store.readProposalCount Store.readDisputeWindow
  rw [hoptimistic,hconfig,henv]
  exact .proposed hproposable

/-- The transaction continues from a world that differs in its authorizations only. -/
structure Opens (w t : World) : Prop where
  env : t.env = w.env
  store : t.store = w.store
  quiet : Snapshots [] w t

theorem requireAuth_opens (a : Address) (w : World) :
    Sat (requireAuth a) w fun _ t => w.env.authorized a = true ∧ Opens w t := by
  refine ((requireAuth_frame a w).and (R := fun _ t =>
    w.env.authorized a = true ∧ t.env = w.env ∧ t.store = w.store) ?_).mono fun _ t ht => ?_
  · rw [sat_requireAuth]
    intro hauth
    exact ⟨hauth,rfl,rfl⟩
  · obtain ⟨hframe,hauth,henv,hst⟩ := ht
    refine ⟨hauth,henv,hst,snapshots_nil fun r hr => hframe r fun h => hr ?_⟩
    rw [List.mem_singleton.1 h]
    decide

theorem asAdmin_opens {α : Type} {body : Contract α} {Q : α → World → Prop}
    (hbody : ∀ t, ByAdmin w.env w.store → Opens w t → Sat body t Q) : Sat (asAdmin body) w Q := by
  unfold asAdmin getAdmin
  rw [sat_bind,sat_consult]
  intro admin hadmin
  have hstored : w.store.config.admin = some admin := by
    cases hconfig : w.store.config.admin with
    | none => simp [hconfig] at hadmin
    | some a =>
      rw [hconfig] at hadmin
      cases hadmin
      rfl
  refine (requireAuth_opens admin w).andThen fun _ t ht => ?_
  exact hbody t ⟨admin,hstored,ht.1⟩ ht.2

theorem disputeProposal_effect (d : Address) (id : Nat) (w : World) :
    Sat (disputeProposal d id) w fun _ w' =>
      ProposalEffect w.env w.store (.disputeProposal d id) w'.store.optimistic ∧
        Snapshots [] w w' := by
  refine (requireAuth_opens d w).andThen fun _ t ht => ?_
  obtain ⟨-,henv,hst,hquiet⟩ := ht
  refine (readProposal_sat id t).andThen fun p t' ht' => ?_
  obtain ⟨hp,rfl⟩ := ht'
  refine (finalizeIfExpired_open p t').andThen fun q u hu => ?_
  simp only [sat_bind,sat_ensure,sat_getSequence,sat_readStore]
  rintro hdisputed ⟨hresolved,hfinalized⟩ hseq -
  rcases hu with hu | hu | ⟨rfl,rfl,-,-⟩
  · exact absurd hu hresolved
  · exact absurd hu hfinalized
  · have hpending : q.status = .pending := by
      cases hstatus : q.status <;> simp_all
    rw [hst] at hp
    rw [henv] at hseq
    refine (writeProposal_effect _ u).mono fun _ w' hw => ?_
    rw [hw.1,hst]
    exact ⟨.disputed hp hpending hseq,hquiet.trans hw.2⟩

theorem contestedAt_eq {env : Env} {st : Store} {id : Nat}
    (hp : st.optimistic.proposal id = some p) (hopen : contested p env.sequence = true) :
    contestedAt env st id = [p] := by
  unfold contestedAt
  simp [hp,hopen]

theorem resolveDispute_effect (id : Nat) (resolution : Bool) (w : World) :
    Sat (resolveDispute id resolution) w fun _ w' =>
      ProposalEffect w.env w.store (.resolveDispute id resolution) w'.store.optimistic ∧
        Snapshots (settlements w.env w.store (.resolveDispute id resolution)) w w' := by
  refine asAdmin_opens fun t hadmin ht => ?_
  obtain ⟨henv,hst,hquiet⟩ := ht
  refine (openDispute_sat id t).andThen fun p t' ht' => ?_
  obtain ⟨hp,hopen,rfl⟩ := ht'
  rw [hst] at hp
  rw [henv] at hopen
  have huphold : Sat (upholdProposal p resolution) t' fun _ u =>
      Snapshots (if resolution then [ownPrice p] else []) t' u ∧
        u.store.optimistic = w.store.optimistic := by
    unfold upholdProposal
    rw [sat_bind,sat_getSequence]
    split_ifs with hres
    · refine (writePriceSnapshot_snapshots p.id p.asset p.price p.timestamp 1 _ t').mono
        fun _ u hu => ?_
      rw [hu.2,hst]
      exact ⟨hu.1,rfl⟩
    · rw [sat_pure,hst]
      exact ⟨snapshots_nil (Std.Refl.refl t'),rfl⟩
  refine huphold.andThen fun _ u hu => ?_
  refine (writeProposal_effect _ u).mono fun _ w' hw => ?_
  have hsnapshots := hquiet.trans (hu.1.trans hw.2)
  rw [List.nil_append,List.append_nil] at hsnapshots
  rw [hw.1,hu.2]
  change ProposalEffect _ _ _ _ ∧ Snapshots
    (if resolution then (contestedAt w.env w.store id).map ownPrice else []) w w'
  rw [contestedAt_eq hp hopen]
  exact ⟨.resolved hp hopen hadmin,hsnapshots⟩

theorem resolveViaExternalData_effect (id : Nat) (price : Int) (proof : ExternalDataProof)
    (w : World) :
    Sat (resolveViaExternalData id price proof) w fun _ w' =>
      ProposalEffect w.env w.store (.resolveViaExternalData id price proof) w'.store.optimistic ∧
        Snapshots (settlements w.env w.store (.resolveViaExternalData id price proof)) w w' := by
  refine asAdmin_opens fun t hadmin ht => ?_
  obtain ⟨henv,hst,hquiet⟩ := ht
  refine (openDispute_sat id t).andThen fun p t' ht' => ?_
  obtain ⟨hp,hopen,rfl⟩ := ht'
  rw [hst] at hp
  rw [henv] at hopen
  refine (checkExternalProof_frame price proof t').andThen fun _ u hu => ?_
  have hchecked : Snapshots [] t' u := snapshots_nil fun r _ => hu r (by simp)
  have hoptimistic : u.store.optimistic = w.store.optimistic := by
    rw [← hst]
    exact hu .optimistic (by simp)
  rw [sat_bind,sat_getSequence]
  refine (writePriceSnapshot_snapshots p.id p.asset price proof.timestamp 1 _ u).andThen
    fun _ v hv => ?_
  refine (writeProposal_effect _ v).mono fun _ w' hw => ?_
  have hsnapshots := hquiet.trans (hchecked.trans (hv.1.trans hw.2))
  rw [hw.1,hv.2,hoptimistic]
  change ProposalEffect _ _ _ _ ∧ Snapshots ((contestedAt w.env w.store id).map
    fun p => ⟨p.id,p.asset,price,proof.timestamp⟩) w w'
  rw [contestedAt_eq hp hopen]
  exact ⟨.resolvedExternally hp hopen hadmin,hsnapshots⟩

end Specs

/-- A successful call changes the records as its effect says, and makes its settlements. -/
theorem OptimisticCall.body_effect (call : OptimisticCall) {w : World}
    (hkeyed : Keyed w.store.optimistic) :
    Sat call.body w fun _ w' => ProposalEffect w.env w.store call w'.store.optimistic ∧
      Snapshots (settlements w.env w.store call) w w' := by
  cases call with
  | proposePrice proposer asset price timestamp bondAmount =>
    exact (proposePrice_effect proposer asset price timestamp bondAmount w).andThen
      fun _ w' hw => (sat_pure _).2 hw
  | disputeProposal d id => exact disputeProposal_effect d id w
  | resolveDispute id resolution => exact resolveDispute_effect id resolution w
  | resolveViaExternalData id price proof => exact resolveViaExternalData_effect id price proof w
  | getProposal id =>
    refine (getProposal_effect id hkeyed).andThen fun _ w' hw => (sat_pure _).2 ?_
    rw [hw.1]
    exact ⟨.read,hw.2⟩
  | getActiveProposals =>
    refine (getActiveProposals_effect hkeyed).andThen fun _ w' hw => (sat_pure _).2 ?_
    rw [hw.1]
    exact ⟨.swept,hw.2⟩

end PriceOracle.Proposals
