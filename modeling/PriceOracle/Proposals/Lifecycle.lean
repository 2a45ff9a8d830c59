import PriceOracle.Lib.Run
import PriceOracle.Proposals.Effects

/-! # The life of a proposal

A proposal is open until a read finds it expired or the administrator resolves it, and its record is
final from then on, as long as identifiers are fresh. The counter that issues them is a plain 32-bit
sum: once it wraps, a new proposal takes the place of an old record. -/

namespace PriceOracle.Proposals

open Lib.Transaction Lib.MachineInt Lib.Run Model Aggregation

/-- One call of the optimistic oracle with the environment it is made in. -/
structure OptimisticTx where
  env : Env
  call : OptimisticCall

def execOptimistic (st : Store) (t : OptimisticTx) : Store := invoke t.call.body t.env st

def OptimisticTx.failure (t : OptimisticTx) (st : Store) : Option ErrorCode :=
  Model.failure t.call.body t.env st

def OptimisticTx.writes (t : OptimisticTx) (st : Store) : List AggregateWrite :=
  (effects t.call.body t.env st).aggregates

def Closed (p : OptimisticProposal) : Prop := p.status = .finalized ∨ p.status = .resolved

/-- The call closes an open proposal `i` in favour of a price. -/
def Settles (st : Store) (t : OptimisticTx) (i : Nat) : Prop :=
  ∃ p q, st.optimistic.proposal i = some p ∧ ¬Closed p ∧
    (execOptimistic st t).optimistic.proposal i = some q ∧ Closed q ∧ q.resolution = 1

/-- The write is made for proposal `i`: of its own price, or of the external price that settles
it. -/
def WrittenFor (st : Store) (t : OptimisticTx) (i : Nat) (a : AggregateWrite) : Prop :=
  ∃ p, st.optimistic.proposal i = some p ∧ a.asset = p.asset ∧
    (a.value.price = p.price ∧ a.value.timestamp = p.timestamp ∨
      ∃ price proof, t.call = .resolveViaExternalData i price proof ∧ a.value.price = price ∧
        a.value.timestamp = proof.timestamp)

/-- The writes of a call are made one each for the proposals it settles. -/
def OneWritePerProposal (st : Store) (t : OptimisticTx) : Prop :=
  ∃ ids : List Nat, ids.Nodup ∧ (∀ i, i ∈ ids ↔ Settles st t i) ∧
    List.Forall₂ (WrittenFor st t) ids (t.writes st)

/-- The administrator upholds proposal `i` before its dispute lapses. -/
def UpheldInTime (st : Store) (t : OptimisticTx) (i : Nat) : Prop :=
  t.call = .resolveDispute i true ∧ ByAdmin t.env st ∧
    ∃ p, st.optimistic.proposal i = some p ∧
      t.env.sequence < p.expiresAtLedger + maxDisputeDuration

/-- The administrator settles proposal `i` by external data. -/
def SettledExternally (t : OptimisticTx) (i : Nat) : Prop :=
  ∃ price proof, t.call = .resolveViaExternalData i price proof

def Disputes (st : Store) (t : OptimisticTx) (i : Nat) : Prop :=
  (∃ d, t.call = .disputeProposal d i) ∧ t.failure st = none

/-- Over a run every proposal causes at most one write, a disputed one its own price only if the
administrator upholds it in time, and a closed record is final. -/
structure ProposalsSettleOnce (st : Store) (ts : List OptimisticTx) : Prop where
  oneWrite : ∀ x ∈ steps execOptimistic st ts, OneWritePerProposal x.1 x.2
  once : (steps execOptimistic st ts).Pairwise fun x y =>
    ∀ i, Settles x.1 x.2 i → ¬Settles y.1 y.2 i
  upheld : (steps execOptimistic st ts).Pairwise fun x y =>
    ∀ i, Disputes x.1 x.2 i → Settles y.1 y.2 i → UpheldInTime y.1 y.2 i ∨ SettledExternally y.2 i
  final : ∀ x ∈ steps execOptimistic st ts, ∀ i p, x.1.optimistic.proposal i = some p → Closed p →
    (execOptimistic x.1 x.2).optimistic.proposal i = some p

/-- A proposal that is accepted finds the counter below its maximum. -/
def NumbersBelowMax (st : Store) (t : OptimisticTx) : Prop :=
  ∀ proposer a price ts bond, t.call = .proposePrice proposer a price ts bond →
    Proposable t.env st proposer a price ts bond → st.readProposalCount < u32Max

/-- Records are keyed by identifiers that have been issued, and a pending proposal is
undisputed. -/
structure RecordsSound (st : Store) : Prop where
  keyed : Keyed st.optimistic
  issued : ∀ i p, st.optimistic.proposal i = some p → i ≤ st.readProposalCount
  undisputed : ∀ i p, st.optimistic.proposal i = some p → p.status = .pending → p.disputed = false

/-- No record is lost, disputed proposals stay disputed, and closed ones stay as they are. -/
def Evolves (st st' : Store) : Prop :=
  ∀ i p, st.optimistic.proposal i = some p → ∃ q, st'.optimistic.proposal i = some q ∧
    (p.disputed = true → q.disputed = true) ∧ (Closed p → q = p)

theorem evolves_refl (st : Store) : Evolves st st :=
  fun _ p hp => ⟨p,hp,id,fun _ => rfl⟩

theorem evolves_trans (st st' st'' : Store) (h : Evolves st st') (h' : Evolves st' st'') :
    Evolves st st'' := by
  intro i p hp
  obtain ⟨q,hq,hdisputed,hclosed⟩ := h i p hp
  obtain ⟨r,hr,hdisputed',hclosed'⟩ := h' i q hq
  refine ⟨r,hr,fun h => hdisputed' (hdisputed h),fun hp => ?_⟩
  rw [hclosed hp] at hclosed'
  exact hclosed' hp

section Records

variable {p : OptimisticProposal} {sequence : Nat}

theorem settled_disputed : (settled sequence p).disputed = p.disputed := by
  unfold settled
  split_ifs <;> rfl

theorem settled_of_closed (h : Closed p) : settled sequence p = p := by
  apply settled_of_current
  · unfold lapsed
    rcases h with h | h <;> simp [h]
  · unfold OptimisticProposal.due
    rcases h with h | h <;> simp [h]

/-- Reading a proposal closes it in favour of its price exactly if it has fallen due. -/
theorem settled_settles_iff :
    ¬Closed p ∧ Closed (settled sequence p) ∧ (settled sequence p).resolution = 1 ↔
      p.due sequence = true := by
  by_cases hlapsed : lapsed p sequence = true
  · have hstatus : p.status = .disputed := (of_decide_eq_true hlapsed).1
    have hdue : p.due sequence = false := by simp [OptimisticProposal.due,hstatus]
    unfold settled
    simp [hlapsed,hdue]
  · by_cases hdue : p.due sequence = true
    · have hstatus : p.status = .pending := (of_decide_eq_true hdue).1
      unfold settled Closed
      simp [hlapsed,hdue,hstatus]
    · rw [settled_of_current (Bool.not_eq_true _ ▸ hlapsed) (Bool.not_eq_true _ ▸ hdue)]
      constructor
      · rintro ⟨hopen,hclosed,-⟩
        exact absurd hclosed hopen
      · intro h
        exact absurd h hdue

theorem settled_pending (h : (settled sequence p).status = .pending) : settled sequence p = p := by
  unfold settled at h ⊢
  split_ifs at h ⊢
  rfl

theorem contested_in_time (hopen : contested p sequence = true)
    (hundisputed : p.status = .pending → p.disputed = false) :
    sequence < p.expiresAtLedger + maxDisputeDuration := by
  obtain ⟨hdisputed,hresolved,hfinalized,-,hlapsed⟩ := of_decide_eq_true hopen
  have hstatus : p.status = .disputed := by
    cases hs : p.status with
    | pending => simp [hundisputed hs] at hdisputed
    | disputed => rfl
    | resolved => exact absurd hs hresolved
    | finalized => exact absurd hs hfinalized
  unfold satAdd32 at hlapsed
  rw [not_and] at hlapsed
  have := hlapsed hstatus
  omega

theorem not_closed_of_contested (hopen : contested p sequence = true) : ¬Closed p := by
  obtain ⟨-,hresolved,hfinalized,-,-⟩ := of_decide_eq_true hopen
  rintro (h | h)
  · exact hfinalized h
  · exact hresolved h

end Records

/-- Between the two sets of records, `i` is closed in favour of a price. -/
def SettlesIn (o o' : Optimistic) (i : Nat) : Prop :=
  ∃ p q, o.proposal i = some p ∧ ¬Closed p ∧ o'.proposal i = some q ∧ Closed q ∧ q.resolution = 1

section Settling

variable {o : Optimistic} {p q : OptimisticProposal} {sequence i : Nat} {ids : List Nat}

theorem not_settlesIn_self : ¬SettlesIn o o i := by
  rintro ⟨p,q,hp,hopen,hq,hclosed,-⟩
  rw [hp,Option.some.injEq] at hq
  subst hq
  exact hopen hclosed

theorem not_settlesIn_put (hq : ¬Closed q) : ¬SettlesIn o (putProposal o q) i := by
  rintro ⟨p,r,hp,hopen,hr,hclosed,-⟩
  rcases stored_putProposal hr with ⟨-,rfl⟩ | hr
  · exact hq hclosed
  · rw [hp,Option.some.injEq] at hr
    subst hr
    exact hopen hclosed

theorem settlesIn_put_iff (hp : o.proposal q.id = some p) (hopen : ¬Closed p) (hq : Closed q) :
    SettlesIn o (putProposal o q) i ↔ i = q.id ∧ q.resolution = 1 := by
  constructor
  · rintro ⟨p',r,hp',hopen',hr,hclosed,hres⟩
    rcases stored_putProposal hr with ⟨hi,rfl⟩ | hr
    · exact ⟨hi,hres⟩
    · rw [hp',Option.some.injEq] at hr
      subst hr
      exact absurd hclosed hopen'
  · rintro ⟨rfl,hres⟩
    exact ⟨p,q,hp,hopen,Function.update_self _ _ _,hq,hres⟩

theorem settlesIn_settleAll_iff :
    SettlesIn o (settleAll o sequence ids) i ↔
      i ∈ ids ∧ ∃ p, o.proposal i = some p ∧ p.due sequence = true := by
  have hread : (settleAll o sequence ids).proposal i =
      if i ∈ ids then (o.proposal i).map (settled sequence) else o.proposal i := rfl
  constructor
  · rintro ⟨p,q,hp,hopen,hq,hclosed,hres⟩
    rw [hread,hp] at hq
    by_cases hi : i ∈ ids
    · rw [if_pos hi,Option.map_some,Option.some.injEq] at hq
      subst hq
      exact ⟨hi,p,hp,settled_settles_iff.1 ⟨hopen,hclosed,hres⟩⟩
    · rw [if_neg hi,Option.some.injEq] at hq
      subst hq
      exact absurd hclosed hopen
  · rintro ⟨hi,p,hp,hdue⟩
    obtain ⟨hopen,hclosed,hres⟩ := settled_settles_iff.2 hdue
    refine ⟨p,settled sequence p,hp,hopen,?_,hclosed,hres⟩
    rw [hread,if_pos hi,hp,Option.map_some]

theorem mem_dueSettlements_iff (hkeyed : Keyed o) :
    i ∈ (dueSettlements sequence o.proposal ids).map Settlement.id ↔
      i ∈ ids ∧ ∃ p, o.proposal i = some p ∧ p.due sequence = true := by
  simp only [dueSettlements,List.map_map,List.mem_map,List.mem_filter,List.mem_filterMap]
  constructor
  · rintro ⟨p,⟨⟨k,hk,hp⟩,hdue⟩,rfl⟩
    obtain rfl := hkeyed k p hp
    exact ⟨hk,p,hp,hdue⟩
  · rintro ⟨hi,p,hp,hdue⟩
    exact ⟨p,⟨⟨i,hi,hp⟩,hdue⟩,hkeyed i p hp⟩

/-- The proposals a read settles are among those it reads, in their order. -/
theorem dueSettlements_sublist (hkeyed : Keyed o) :
    ((dueSettlements sequence o.proposal ids).map Settlement.id).Sublist ids := by
  induction ids with
  | nil => exact List.Sublist.refl _
  | cons k ids ih =>
    cases hp : o.proposal k with
    | none => simpa [dueSettlements,hp] using ih.cons k
    | some p =>
      obtain rfl := hkeyed k p hp
      by_cases hdue : p.due sequence = true
      · simpa [dueSettlements,hp,hdue,ownPrice] using ih
      · simpa [dueSettlements,hp,hdue] using ih.cons p.id

end Settling

section Steps

variable {env : Env} {st : Store} {call : OptimisticCall} {o : Optimistic} {i : Nat} {st' : Store}
  {ids : List Nat} {sequence : Nat}

/-- A call settles exactly the proposals of its settlements. -/
theorem ProposalEffect.settles_iff (heff : ProposalEffect env st call o) (hs : RecordsSound st) :
    i ∈ (settlements env st call).map Settlement.id ↔ SettlesIn st.optimistic o i := by
  have hclosed {p : OptimisticProposal} {id : Nat} (res : Nat)
      (hp : st.optimistic.proposal id = some p) (hopen : contested p env.sequence = true) :
      SettlesIn st.optimistic (putProposal st.optimistic
        { p with status := .resolved, resolved := true, resolution := res }) i ↔
        i = p.id ∧ res = 1 := by
    apply settlesIn_put_iff _ (not_closed_of_contested hopen) (.inr rfl)
    rw [hs.keyed id p hp,hp]
  cases heff with
  | proposed =>
    change i ∈ [] ↔ SettlesIn _ (putProposal _ _) i
    simp [not_settlesIn_put,Closed,newProposal]
  | disputed =>
    change i ∈ [] ↔ _
    simp [not_settlesIn_put,Closed]
  | @resolved id resolution p hp hopen =>
    rw [hclosed _ hp hopen]
    change i ∈ (if resolution then (contestedAt env st id).map ownPrice else []).map _ ↔ _
    rw [contestedAt_eq hp hopen]
    cases resolution <;> simp [ownPrice]
  | @resolvedExternally id price proof p hp hopen =>
    rw [hclosed _ hp hopen]
    change i ∈ ((contestedAt env st id).map fun p => (⟨p.id,p.asset,price,proof.timestamp⟩ :
      Settlement)).map _ ↔ _
    rw [contestedAt_eq hp hopen]
    simp
  | read =>
    rw [settlesIn_settleAll_iff]
    exact mem_dueSettlements_iff hs.keyed
  | swept =>
    rw [settlesIn_settleAll_iff]
    exact mem_dueSettlements_iff hs.keyed

theorem settlements_nodup (hs : RecordsSound st) :
    ((settlements env st call).map Settlement.id).Nodup := by
  have hone (id : Nat) (f : OptimisticProposal → Settlement) :
      (((contestedAt env st id).map f).map Settlement.id).Nodup := by
    unfold contestedAt
    cases st.optimistic.proposal id with
    | none => simp
    | some p => by_cases hopen : contested p env.sequence = true <;> simp [hopen]
  cases call with
  | resolveDispute id resolution =>
    cases resolution
    · exact List.nodup_nil
    · exact hone id ownPrice
  | resolveViaExternalData id price proof => exact hone id _
  | getProposal id => exact (dueSettlements_sublist hs.keyed).nodup (List.nodup_singleton id)
  | getActiveProposals => exact (dueSettlements_sublist hs.keyed).nodup List.nodup_range'
  | _ => exact List.nodup_nil

/-- Every settlement names a stored proposal and its asset, and its own price unless external data
settles it. -/
theorem settlement_sound (hs : RecordsSound st) {s : Settlement}
    (h : s ∈ settlements env st call) :
    ∃ p, st.optimistic.proposal s.id = some p ∧ s.asset = p.asset ∧
      (s.price = p.price ∧ s.timestamp = p.timestamp ∨
        ∃ price proof, call = .resolveViaExternalData s.id price proof ∧ s.price = price ∧
          s.timestamp = proof.timestamp) := by
  have hread {ids : List Nat}
      (h : s ∈ dueSettlements env.sequence st.optimistic.proposal ids) :
      ∃ p, st.optimistic.proposal s.id = some p ∧ s.asset = p.asset ∧
        s.price = p.price ∧ s.timestamp = p.timestamp := by
    simp only [dueSettlements,List.mem_map,List.mem_filter,List.mem_filterMap] at h
    obtain ⟨p,⟨⟨k,-,hp⟩,-⟩,rfl⟩ := h
    exact ⟨p,by rw [ownPrice,hs.keyed k p hp,hp],rfl,rfl,rfl⟩
  have hcontested {id : Nat} {p : OptimisticProposal} (hp : p ∈ contestedAt env st id) :
      p.id = id ∧ st.optimistic.proposal id = some p := by
    unfold contestedAt at hp
    rw [List.mem_filter,Option.mem_toList] at hp
    exact ⟨hs.keyed id p hp.1,hp.1⟩
  cases call with
  | resolveDispute id resolution =>
    change s ∈ (if resolution then (contestedAt env st id).map ownPrice else []) at h
    split_ifs at h
    · obtain ⟨p,hp,rfl⟩ := List.mem_map.1 h
      obtain ⟨rfl,hstored⟩ := hcontested hp
      exact ⟨p,hstored,rfl,.inl ⟨rfl,rfl⟩⟩
    · cases h
  | resolveViaExternalData id price proof =>
    obtain ⟨p,hp,rfl⟩ := List.mem_map.1 h
    obtain ⟨rfl,hstored⟩ := hcontested hp
    exact ⟨p,hstored,rfl,.inr ⟨price,proof,rfl,rfl,rfl⟩⟩
  | getProposal id =>
    obtain ⟨p,hp,hasset,hprice⟩ := hread h
    exact ⟨p,hp,hasset,.inl hprice⟩
  | getActiveProposals =>
    obtain ⟨p,hp,hasset,hprice⟩ := hread h
    exact ⟨p,hp,hasset,.inl hprice⟩
  | _ => cases h

/-- What an update of a stored record keeps of it. -/
theorem evolves_put {p q : OptimisticProposal}
    (ho : st'.optimistic = putProposal st.optimistic q) (hp : st.optimistic.proposal i = some p)
    (hid : q.id = i) (hdisputed : p.disputed = true → q.disputed = true) (hopen : ¬Closed p) :
    Evolves st st' := by
  intro k r hr
  rw [ho]
  by_cases hk : k = q.id
  · rw [hk,hid,hp,Option.some.injEq] at hr
    subst hr
    exact ⟨q,by rw [hk]; exact Function.update_self _ _ _,hdisputed,fun h => absurd h hopen⟩
  · exact ⟨r,(Function.update_of_ne hk _ _).trans hr,id,fun _ => rfl⟩

theorem evolves_settleAll
    (ho : st'.optimistic = settleAll st.optimistic sequence ids) : Evolves st st' := by
  intro k p hp
  have hread : st'.optimistic.proposal k =
      if k ∈ ids then some (settled sequence p) else some p := by
    rw [ho]
    change (if k ∈ ids then (st.optimistic.proposal k).map (settled sequence)
      else st.optimistic.proposal k) = _
    rw [hp,Option.map_some]
  by_cases hk : k ∈ ids
  · refine ⟨settled sequence p,by rw [hread,if_pos hk],fun h => ?_,settled_of_closed⟩
    rw [settled_disputed,h]
  · exact ⟨p,by rw [hread,if_neg hk],id,fun _ => rfl⟩

theorem ProposalEffect.evolves (heff : ProposalEffect env st call st'.optimistic)
    (hs : RecordsSound st)
    (hmax : ∀ proposer a price ts bond, call = .proposePrice proposer a price ts bond →
      Proposable env st proposer a price ts bond → st.readProposalCount < u32Max) :
    Evolves st st' := by
  generalize ho : st'.optimistic = o at heff
  cases heff with
  | @proposed proposer a price ts bond hp =>
    have hfresh := wrap32_succ (hmax _ _ _ _ _ rfl hp)
    intro k p hk
    have hle := hs.issued k p hk
    have hne : k ≠ (newProposal env st proposer a price ts bond).id := by
      change k ≠ wrap32 (st.readProposalCount+1)
      omega
    refine ⟨p,?_,id,fun _ => rfl⟩
    rw [ho]
    exact (Function.update_of_ne hne _ _).trans hk
  | @disputed d id p hp hstatus =>
    exact evolves_put ho hp (hs.keyed id p hp) (fun _ => rfl) (by simp [Closed,hstatus])
  | @resolved id resolution p hp hopen =>
    exact evolves_put ho hp (hs.keyed id p hp) (fun h => h) (not_closed_of_contested hopen)
  | @resolvedExternally id price proof p hp hopen =>
    exact evolves_put ho hp (hs.keyed id p hp) (fun h => h) (not_closed_of_contested hopen)
  | read => exact evolves_settleAll ho
  | swept => exact evolves_settleAll ho

theorem recordsSound_put {q : OptimisticProposal}
    (ho : st'.optimistic.proposal = (putProposal st.optimistic q).proposal) (hs : RecordsSound st)
    (hid : q.id ≤ st'.readProposalCount) (hcount : st.readProposalCount ≤ st'.readProposalCount)
    (hq : q.status = .pending → q.disputed = false) : RecordsSound st' := by
  have hstored {k : Nat} {r : OptimisticProposal} (hr : st'.optimistic.proposal k = some r) :
      k = q.id ∧ r = q ∨ st.optimistic.proposal k = some r := by
    rw [ho] at hr
    exact stored_putProposal hr
  refine ⟨fun k r hr => ?_,fun k r hr => ?_,fun k r hr hpending => ?_⟩
  · rcases hstored hr with ⟨rfl,rfl⟩ | hr
    · rfl
    · exact hs.keyed k r hr
  · rcases hstored hr with ⟨rfl,rfl⟩ | hr
    · exact hid
    · exact (hs.issued k r hr).trans hcount
  · rcases hstored hr with ⟨rfl,rfl⟩ | hr
    · exact hq hpending
    · exact hs.undisputed k r hr hpending

theorem recordsSound_settleAll
    (hs : RecordsSound st) (ho : st'.optimistic = settleAll st.optimistic sequence ids) :
    RecordsSound st' := by
  have hcount : st'.readProposalCount = st.readProposalCount := by
    unfold Store.readProposalCount
    rw [ho]
    rfl
  have hstored {k : Nat} {r : OptimisticProposal} (hr : st'.optimistic.proposal k = some r) :
      ∃ p, st.optimistic.proposal k = some p ∧ (r = p ∨ r = settled sequence p) := by
    rw [ho] at hr
    change (if k ∈ ids then (st.optimistic.proposal k).map (settled sequence)
      else st.optimistic.proposal k) = some r at hr
    split_ifs at hr
    · obtain ⟨p,hp,rfl⟩ := Option.map_eq_some_iff.1 hr
      exact ⟨p,hp,.inr rfl⟩
    · exact ⟨r,hr,.inl rfl⟩
  refine ⟨fun k r hr => ?_,fun k r hr => ?_,fun k r hr hpending => ?_⟩
  · obtain ⟨p,hp,rfl | rfl⟩ := hstored hr
    · exact hs.keyed k r hp
    · rw [settled_id]
      exact hs.keyed k p hp
  · obtain ⟨p,hp,-⟩ := hstored hr
    rw [hcount]
    exact hs.issued k p hp
  · obtain ⟨p,hp,rfl | rfl⟩ := hstored hr
    · exact hs.undisputed k r hp hpending
    · have heq := settled_pending hpending
      rw [heq] at hpending ⊢
      exact hs.undisputed k p hp hpending

theorem ProposalEffect.sound (heff : ProposalEffect env st call st'.optimistic)
    (hs : RecordsSound st)
    (hmax : ∀ proposer a price ts bond, call = .proposePrice proposer a price ts bond →
      Proposable env st proposer a price ts bond → st.readProposalCount < u32Max) :
    RecordsSound st' := by
  have hput {id : Nat} {p q : OptimisticProposal} (ho : st'.optimistic = putProposal st.optimistic q)
      (hp : st.optimistic.proposal id = some p) (hid : q.id = p.id)
      (hq : q.status = .pending → q.disputed = false) : RecordsSound st' := by
    have hcount : st'.readProposalCount = st.readProposalCount := by
      unfold Store.readProposalCount
      rw [ho]
      rfl
    apply recordsSound_put (congrArg Optimistic.proposal ho) hs
    · rw [hcount,hid,hs.keyed id p hp]
      exact hs.issued id p hp
    · exact Nat.le_of_eq hcount.symm
    · exact hq
  generalize ho : st'.optimistic = o at heff
  cases heff with
  | @proposed proposer a price ts bond hp =>
    have hfresh := wrap32_succ (hmax _ _ _ _ _ rfl hp)
    have hcount : st'.readProposalCount = st.readProposalCount+1 := by
      unfold Store.readProposalCount at hfresh ⊢
      rw [ho]
      exact hfresh
    have hstored : st'.optimistic.proposal =
        (putProposal st.optimistic (newProposal env st proposer a price ts bond)).proposal := by
      rw [ho]
    apply recordsSound_put hstored hs
    · rw [hcount]
      exact Nat.le_of_eq hfresh
    · omega
    · exact fun _ => rfl
  | @disputed d id p hp hstatus =>
    exact hput ho hp rfl (by simp)
  | @resolved id resolution p hp hopen => exact hput ho hp rfl (by simp)
  | @resolvedExternally id price proof p hp hopen => exact hput ho hp rfl (by simp)
  | read => exact recordsSound_settleAll hs ho
  | swept => exact recordsSound_settleAll hs ho

end Steps

section Runs

variable {st : Store} {t : OptimisticTx} {i : Nat} {p : OptimisticProposal}

theorem execOptimistic_failed {e : ErrorCode} (h : t.failure st = some e) :
    execOptimistic st t = st ∧ t.writes st = [] := by
  refine ⟨invoke_of_failure h,?_⟩
  unfold OptimisticTx.failure Model.failure at h
  unfold OptimisticTx.writes effects commit
  cases hrun : t.call.body (World.enter t.env st) with
  | ok a w => simp [hrun] at h
  | error e' w => rfl

theorem execOptimistic_effect (hs : RecordsSound st) (h : t.failure st = none) :
    ProposalEffect t.env st t.call (execOptimistic st t).optimistic ∧
      ∃ agg, Records st.aggregate (settlements t.env st t.call) (t.writes st) agg := by
  unfold OptimisticTx.failure Model.failure at h
  unfold execOptimistic OptimisticTx.writes invoke effects commit
  cases hrun : t.call.body (World.enter t.env st) with
  | error e w => simp [hrun] at h
  | ok a w =>
    have heff := t.call.body_effect (w := World.enter t.env st) hs.keyed a w hrun
    obtain ⟨as,hlog,hrec⟩ := heff.2.writes
    rw [hlog]
    exact ⟨heff.1,_,hrec⟩

theorem execOptimistic_evolves (hs : RecordsSound st) (hmax : NumbersBelowMax st t) :
    Evolves st (execOptimistic st t) ∧ RecordsSound (execOptimistic st t) := by
  cases hf : t.failure st with
  | none =>
    have heff := (execOptimistic_effect hs hf).1
    exact ⟨heff.evolves hs hmax,heff.sound hs hmax⟩
  | some e =>
    rw [(execOptimistic_failed hf).1]
    exact ⟨evolves_refl st,hs⟩

theorem records_writtenFor {agg agg' : Map Address AggregatePrice} {S : List Settlement}
    {as : List AggregateWrite} (hs : RecordsSound st) (h : Records agg S as agg')
    (hS : ∀ s ∈ S, s ∈ settlements t.env st t.call) :
    List.Forall₂ (WrittenFor st t) (S.map Settlement.id) as := by
  induction h with
  | nil => exact .nil
  | cons _ hasset hprice htimestamp _ ih =>
    rw [List.forall_mem_cons] at hS
    obtain ⟨p,hp,hsame,howned⟩ := settlement_sound hs hS.1
    refine .cons ⟨p,hp,hasset.trans hsame,?_⟩ (ih hS.2)
    rw [hprice,htimestamp]
    exact howned

theorem execOptimistic_oneWrite (hs : RecordsSound st) : OneWritePerProposal st t := by
  cases hf : t.failure st with
  | none =>
    obtain ⟨heff,agg,hrec⟩ := execOptimistic_effect hs hf
    exact ⟨_,settlements_nodup hs,fun i => heff.settles_iff hs,
      records_writtenFor hs hrec fun s hs => hs⟩
  | some e =>
    obtain ⟨hst,hnone⟩ := execOptimistic_failed hf
    refine ⟨[],List.nodup_nil,fun i => ?_,by rw [hnone]; exact .nil⟩
    change i ∈ [] ↔ SettlesIn st.optimistic (execOptimistic st t).optimistic i
    rw [hst]
    simp [not_settlesIn_self]

/-- A disputed proposal is settled by the administrator only. -/
theorem settles_disputed (hs : RecordsSound st)
    (hp : st.optimistic.proposal i = some p) (hdisputed : p.disputed = true)
    (hsettles : Settles st t i) : UpheldInTime st t i ∨ SettledExternally t i := by
  cases hf : t.failure st with
  | some e =>
    change SettlesIn st.optimistic (execOptimistic st t).optimistic i at hsettles
    rw [(execOptimistic_failed hf).1] at hsettles
    exact absurd hsettles not_settlesIn_self
  | none =>
    have heff := (execOptimistic_effect hs hf).1
    have hmem := (heff.settles_iff hs).2 hsettles
    have hnotDue : ¬∃ q, st.optimistic.proposal i = some q ∧ q.due t.env.sequence = true := by
      rintro ⟨q,hq,hdue⟩
      have hundisputed := hs.undisputed i q hq (of_decide_eq_true hdue).1
      rw [hp,Option.some.injEq] at hq
      rw [← hq,hdisputed] at hundisputed
      cases hundisputed
    obtain ⟨env,call⟩ := t
    generalize (execOptimistic st ⟨env,call⟩).optimistic = o at heff
    cases heff with
    | proposed => cases hmem
    | disputed => cases hmem
    | @resolved id resolution q hq hopen hadmin =>
      change i ∈ (if resolution then (contestedAt env st id).map ownPrice else []).map _ at hmem
      rw [contestedAt_eq hq hopen] at hmem
      cases resolution with
      | false => cases hmem
      | true =>
        obtain rfl : i = q.id := by simpa [ownPrice] using hmem
        obtain rfl := hs.keyed id q hq
        exact .inl ⟨rfl,hadmin,q,hq,contested_in_time hopen (hs.undisputed q.id q hq)⟩
    | @resolvedExternally id price proof q hq hopen hadmin =>
      change i ∈ ((contestedAt env st id).map fun p => (⟨p.id,p.asset,price,proof.timestamp⟩ :
        Settlement)).map _ at hmem
      rw [contestedAt_eq hq hopen] at hmem
      obtain rfl : i = q.id := by simpa using hmem
      obtain rfl := hs.keyed id q hq
      exact .inr ⟨price,proof,rfl⟩
    | read => exact absurd ((mem_dueSettlements_iff hs.keyed).1 hmem).2 hnotDue
    | swept => exact absurd ((mem_dueSettlements_iff hs.keyed).1 hmem).2 hnotDue

theorem disputes_disputed (hs : RecordsSound st) (h : Disputes st t i) :
    ∃ p, (execOptimistic st t).optimistic.proposal i = some p ∧ p.disputed = true := by
  obtain ⟨⟨d,hcall⟩,hf⟩ := h
  have heff := (execOptimistic_effect hs hf).1
  rw [hcall] at heff
  generalize (execOptimistic st t).optimistic = o at heff
  cases heff with
  | @disputed _ _ p hp =>
    refine ⟨{ p with status := .disputed, disputed := true, disputer := some d },?_,rfl⟩
    have hid := hs.keyed i p hp
    subst hid
    exact Function.update_self _ _ _

theorem settles_closed (h : Settles st t i) :
    ∃ q, (execOptimistic st t).optimistic.proposal i = some q ∧ Closed q := by
  obtain ⟨p,q,-,-,hq,hclosed,-⟩ := h
  exact ⟨q,hq,hclosed⟩

theorem not_settles_closed (hp : st.optimistic.proposal i = some p)
    (hclosed : Closed p) : ¬Settles st t i := by
  rintro ⟨q,-,hq,hopen,-⟩
  rw [hp,Option.some.injEq] at hq
  subst hq
  exact hopen hclosed

end Runs

theorem recordsSound_unused {st : Store} (h : st.optimistic = {}) : RecordsSound st := by
  have hnone : ∀ i, st.optimistic.proposal i = none := by
    intro i
    rw [h]
  refine ⟨fun i p hp => ?_,fun i p hp => ?_,fun i p hp => ?_⟩ <;>
  · rw [hnone i] at hp
    cases hp

/-- In every run of the optimistic oracle from its first use, by any callers and at any ledgers,
every proposal causes at most one write of an aggregate, a disputed one has its own price written
only if the administrator upholds it before the dispute lapses, and a closed record never changes,
as long as every accepted proposal finds the counter below its maximum. -/
theorem proposals_settle_once (st : Store) (ts : List OptimisticTx) (hst : st.optimistic = {})
    (hmax : ∀ x ∈ steps execOptimistic st ts, NumbersBelowMax x.1 x.2) :
    ProposalsSettleOnce st ts := by
  have hsound : ∀ x ∈ steps execOptimistic st ts, RecordsSound x.1 :=
    (steps_satisfy (P := fun s _ => RecordsSound s)
      (fun _ _ hs ht => ⟨hs,(execOptimistic_evolves hs ht).2⟩) (recordsSound_unused hst) hmax).1
  have hC : ∀ x ∈ steps execOptimistic st ts, RecordsSound x.1 ∧ NumbersBelowMax x.1 x.2 :=
    fun x hx => ⟨hsound x hx,hmax x hx⟩
  have hstep (s : Store) (t : OptimisticTx) (h : RecordsSound s ∧ NumbersBelowMax s t) :
      Evolves s (execOptimistic s t) := (execOptimistic_evolves h.1 h.2).1
  refine ⟨fun x hx => execOptimistic_oneWrite (hsound x hx),?_,?_,fun x hx i p hp hclosed => ?_⟩
  · apply steps_pairwise evolves_refl evolves_trans hstep _ hC
    intro s t y _ hevolves _ i hfirst
    obtain ⟨p,hp,hclosed⟩ := settles_closed hfirst
    obtain ⟨q,hq,-,hsame⟩ := hevolves i p hp
    exact not_settles_closed hq (hsame hclosed ▸ hclosed)
  · apply steps_pairwise evolves_refl evolves_trans hstep _ hC
    intro s t y hs hevolves hy i hdisputes hsettles
    obtain ⟨p,hp,hdisputed⟩ := disputes_disputed hs.1 hdisputes
    obtain ⟨q,hq,hkept,-⟩ := hevolves i p hp
    exact settles_disputed hy.1 hq (hkept hdisputed) hsettles
  · obtain ⟨q,hq,-,hsame⟩ := hstep x.1 x.2 (hC x hx) i p hp
    rw [hq,hsame hclosed]

/-- Asset `10` is registered and `9` is the administrator. -/
def oracleStore : Store where
  config := { admin := some 9 }
  registry := { assetIndex := fun a => if a = 10 then some true else none }

/-- Address `7` proposes the price `500` for asset `10`. -/
def proposeAt (sequence : Nat) : OptimisticTx :=
  ⟨.concrete sequence 5 [7], .proposePrice 7 10 500 5 100000000⟩

/-- What the acceptance of these proposals rests on. -/
structure Accepting (st : Store) : Prop where
  flags : st.flags = oracleStore.flags
  config : st.config = oracleStore.config
  registry : st.registry = oracleStore.registry

/-- The storage after one more proposal. -/
def proposedStore (st : Store) (sequence : Nat) : Store :=
  { st with optimistic :=
    { putProposal st.optimistic
        (newProposal (.concrete sequence 5 [7]) st 7 10 500 5 100000000) with
      proposalCount := some (wrap32 (st.readProposalCount + 1)) } }

theorem proposeAt_run {st : Store} (sequence : Nat) (h : Accepting st) :
    execOptimistic st (proposeAt sequence) = proposedStore st sequence := by
  obtain ⟨hflags,hconfig,hregistry⟩ := h
  cases st
  subst hflags hconfig hregistry
  rfl

theorem proposeAt_repeat {st : Store} (sequence n : Nat) (h : Accepting st)
    (hcount : st.readProposalCount < 2 ^ 32) :
    Accepting (run execOptimistic st (List.replicate n (proposeAt sequence))) ∧
      (run execOptimistic st (List.replicate n (proposeAt sequence))).readProposalCount =
        wrap32 (st.readProposalCount + n) := by
  induction n generalizing st with
  | zero =>
    refine ⟨h,?_⟩
    change st.readProposalCount = st.readProposalCount % 2 ^ 32
    omega
  | succ n ih =>
    rw [List.replicate_succ,run_cons,proposeAt_run sequence h]
    have hnext : (proposedStore st sequence).readProposalCount < 2 ^ 32 :=
      Nat.mod_lt _ (by decide)
    obtain ⟨haccepting,hn⟩ := ih (show Accepting (proposedStore st sequence) from
      ⟨h.flags,h.config,h.registry⟩) hnext
    refine ⟨haccepting,hn.trans ?_⟩
    change wrap32 (wrap32 (st.readProposalCount+1) + n) = _
    unfold wrap32
    omega

/-- The first proposal is finalized by a read, and `n` and one more are made. -/
def reusingRun (n : Nat) : List OptimisticTx :=
  [proposeAt 1, ⟨.concrete 200 5 [], .getProposal 1⟩] ++
    (List.replicate n (proposeAt 300) ++ [proposeAt 300])

def finalizedStore : Store :=
  run execOptimistic oracleStore [proposeAt 1, ⟨.concrete 200 5 [], .getProposal 1⟩]

theorem reusingRun_overwrites {n : Nat} (hn : wrap32 (1 + n) = 0) :
    ¬ProposalsSettleOnce oracleStore (reusingRun n) := by
  intro h
  have hfinal := h.final
  rw [reusingRun,steps_append,List.forall_mem_append] at hfinal
  have hkept : ∀ i p, finalizedStore.optimistic.proposal i = some p → Closed p →
      (run execOptimistic finalizedStore (List.replicate n (proposeAt 300) ++
        [proposeAt 300])).optimistic.proposal i = some p :=
    run_related (R := fun s s' : Store => ∀ i p, s.optimistic.proposal i = some p →
      Closed p → s'.optimistic.proposal i = some p) (fun _ _ _ hp _ => hp)
      (fun _ _ _ h h' i p hp hclosed => h' i p (h i p hp hclosed) hclosed) (fun _ _ hx => hx)
      hfinal.2
  have hready : Accepting finalizedStore := ⟨rfl,rfl,rfl⟩
  have hone : finalizedStore.readProposalCount = 1 := rfl
  obtain ⟨haccepting,hcount⟩ := proposeAt_repeat 300 n hready (by rw [hone]; decide)
  rw [hone,hn] at hcount
  rw [run_append,run_cons,run_nil,proposeAt_run 300 haccepting] at hkept
  have hlast := hkept 1 _ rfl (.inl rfl)
  -- the counter is back at zero, so the last proposal is stored under the identifier one
  unfold proposedStore putProposal newProposal at hlast
  dsimp only at hlast
  rw [hcount,show wrap32 (0 + 1) = 1 from rfl,Function.update_self,Option.some.injEq] at hlast
  have hstatus := congrArg OptimisticProposal.status hlast
  cases hstatus

/-- The proposal after `2 ^ 32` others takes the place of the finalized record. -/
theorem reused_identifier_overwrites :
    ¬ProposalsSettleOnce oracleStore (reusingRun (2 ^ 32 - 1)) :=
  reusingRun_overwrites (by decide)

/-- One proposal is finalized by a sweep, another disputed and upheld. -/
def disputedRun : List OptimisticTx :=
  [proposeAt 1, proposeAt 2, ⟨.concrete 50 5 [8], .disputeProposal 8 2⟩,
    ⟨.concrete 130 5 [], .getActiveProposals⟩, ⟨.concrete 140 5 [9], .resolveDispute 2 true⟩]

theorem disputed_run_settles_once : ProposalsSettleOnce oracleStore disputedRun := by
  apply proposals_settle_once oracleStore disputedRun rfl
  simp only [disputedRun,steps_cons,steps_nil,List.forall_mem_cons]
  refine ⟨?_,?_,?_,?_,?_,by simp⟩ <;> intro proposer a price ts bond _ _ <;> decide

end PriceOracle.Proposals
