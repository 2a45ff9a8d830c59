import PriceOracle.Model.Finality
import PriceOracle.Model.Invocation
import PriceOracle.Lib.Run

/-! # The life of a finality record

What each call does to the records, the invariant that ties a finalized price to its settled
entry, and the history every finalized price has: it was marked, it stayed pending for the
window of that moment, and it was promoted. -/

namespace PriceOracle.Finality

open Model Lib.Transaction Lib.Footprint Lib.MachineInt Lib.Run

inductive FinalityCall
  | markPricePending (asset : Address)
  | tryFinalizePrice (asset : Address) (committedLedger : Nat)
  | retractPrice (asset : Address) (committedLedger : Nat)
  | setFinalityLedgers (ledgers : Nat)

def FinalityCall.body : FinalityCall → Contract Unit
  | markPricePending asset => Model.markPricePending asset
  | tryFinalizePrice asset committedLedger => do
    let _ ← Model.tryFinalizePrice asset committedLedger
    pure ()
  | retractPrice asset committedLedger => Model.retractPrice asset committedLedger
  | setFinalityLedgers ledgers => Model.setFinalityLedgers ledgers

/-- The host grants the lifetimes that a mark at ledger `current` asks for. -/
def Granted (current window : Nat) : Prop :=
  current + hashTtl window ≤ u32Max ∧ wrap32 (window + ledgerThreshold) ≤ ledgerBump ∧
    current + ledgerBump ≤ u32Max

deriving instance Decidable for Granted

/-- The asset can be marked now: nothing of it is settled at this ledger, and the host grants the
lifetimes the window asks for. -/
def Markable (env : Env) (st : Store) (asset : Address) : Prop :=
  st.isRegisteredAsset asset = true ∧
    ((st.finality.pending (asset, env.sequence)).all fun e => e.status = .pending) = true ∧
    Granted env.sequence st.getFinalityLedgers

deriving instance Decidable for Markable

/-- The records a successful call leaves behind. -/
def FinalityCall.Effect : FinalityCall → Env → Store → Model.Finality → Prop
  | markPricePending asset, env, st, f =>
    ∃ aggregate hash, Markable env st asset ∧ st.aggregate asset = some aggregate ∧
      f = st.finality.place asset env.sequence
        (pendingEntry env.sequence st.getFinalityLedgers hash aggregate)
  | tryFinalizePrice asset l, env, st, f =>
    ∃ e, st.finality.pending (asset, l) = some e ∧ e.status = .pending ∧
      (env.sequence < e.finalityLedger ∨ env.sequence + ledgerBump ≤ u32Max) ∧
      f = if env.sequence < e.finalityLedger then st.finality
        else st.finality.promote asset l env.sequence e
  | retractPrice asset l, _, st, f =>
    ∃ e, st.finality.pending (asset, l) = some e ∧ e.status = .pending ∧
      f = st.finality.retract asset l e
  | setFinalityLedgers ledgers, _, st, f => f = { st.finality with ledgers := some ledgers }

section Lifetimes

variable {w : World} (threshold target : Nat)

theorem sat_extendTtl (Q : Unit → World → Prop) : Sat (extendTtl threshold target) w Q ↔
    (threshold ≤ target ∧ w.env.sequence + target ≤ u32Max → Q () w) := by
  simp only [extendTtl,sat_bind,sat_getSequence,sat_ensure]

theorem fails_extendTtl {E : ErrorCode → World → Prop} :
    Fails (extendTtl threshold target) w E ↔
      (¬(threshold ≤ target ∧ w.env.sequence + target ≤ u32Max) → E .hostTrap w) := by
  simp only [extendTtl,fails_bind,fails_getSequence,sat_getSequence,fails_ensure,true_and]

theorem extendTtl_frame {T : List Region} : Frame T (extendTtl threshold target) :=
  .read fun _ => preserves_ensure _ _

end Lifetimes

section Calls

variable {w : World} (asset : Address)

theorem requirePending_sat (status : FinalityStatus) :
    Sat (requirePending status) w fun _ w' => status = .pending ∧ w' = w := by
  cases status with
  | pending => exact (sat_pure ()).2 ⟨rfl,rfl⟩
  | finalized => exact sat_abort _
  | retracted => exact sat_abort _

theorem requireUnsettled_sat (existing : Option PendingFinalityEntry) :
    Sat (requireUnsettled existing) w fun _ w' =>
      (existing.all fun e => e.status = .pending) = true ∧ w' = w := by
  cases existing with
  | none => exact (sat_pure ()).2 ⟨rfl,rfl⟩
  | some e =>
    refine (requirePending_sat e.status).mono fun _ _ h => ⟨?_,h.2⟩
    simp [h.1]

theorem getPendingFinality_sat (l : Nat) : Sat (getPendingFinality asset l) w fun e w' =>
      w.store.finality.pending (asset,l) = some e ∧ w' = w := by
  exact sat_lookup (by cases w.store.finality.pending (asset,l) <;> rfl)

theorem markPricePending_sat : Sat (Model.markPricePending asset) w fun _ w' =>
      (FinalityCall.markPricePending asset).Effect w.env w.store w'.store.finality := by
  unfold Model.markPricePending
  rw [sat_bind]
  refine (checkRegisteredAsset_sat asset w).mono ?_
  rintro _ v ⟨hreg,hoff⟩
  have henv : v.env = w.env := hoff .env (by simp)
  have hfin : v.store.finality = w.store.finality := hoff .finality (by simp)
  have hagg : v.store.aggregate = w.store.aggregate :=
    congrArg Prod.fst (hoff .aggregates (by simp))
  simp only [sat_bind,sat_consult,placePricePending,sat_getSequence,sat_readStore,
    modifyFinality,sat_update,sat_extendTtl]
  intro aggregate hread
  refine (requireUnsettled_sat _).mono ?_
  rintro _ u ⟨hfree,hu⟩
  rw [hu]
  intro hhash hentry
  have hlife : Granted v.env.sequence v.store.getFinalityLedgers := ⟨hhash.2,hentry⟩
  have hstored : w.store.aggregate asset = some aggregate := by
    rw [← hagg]
    exact found_of_ok (by cases v.store.aggregate asset <;> rfl) hread
  have hledgers : v.store.getFinalityLedgers = w.store.getFinalityLedgers := by
    unfold Store.getFinalityLedgers
    rw [hfin]
  rw [henv,hfin] at hfree
  rw [henv,hledgers] at hlife
  refine ⟨aggregate,v.env.host.sha256 (leBytes 4 v.env.sequence),⟨hreg,hfree,hlife⟩,hstored,?_⟩
  rw [hfin,hledgers,henv]

theorem tryFinalizePrice_sat (l : Nat) : Sat (Model.tryFinalizePrice asset l) w fun _ w' =>
      (FinalityCall.tryFinalizePrice asset l).Effect w.env w.store w'.store.finality := by
  unfold Model.tryFinalizePrice
  rw [sat_bind]
  refine (getPendingFinality_sat asset l).mono ?_
  rintro e v ⟨he,hv⟩
  subst hv
  rw [sat_bind]
  refine (requirePending_sat e.status).mono ?_
  rintro _ u ⟨hstatus,hu⟩
  subst hu
  apply sat_ite
  · intro hearly
    exact (sat_pure _).2 ⟨e,he,hstatus,.inl hearly,(if_pos hearly).symm⟩
  · intro hready
    simp only [sat_bind,modifyFinality,sat_update,sat_extendTtl,sat_pure]
    intro hlife
    exact ⟨e,he,hstatus,.inr hlife.2,(if_neg hready).symm⟩

theorem retractPrice_sat (l : Nat) : Sat (Model.retractPrice asset l) w fun _ w' =>
      (FinalityCall.retractPrice asset l).Effect w.env w.store w'.store.finality := by
  refine (sat_asAdmin _).2 fun admin _ _ => ?_
  rw [sat_bind]
  refine (getPendingFinality_sat asset l).mono ?_
  rintro e v ⟨he,hv⟩
  subst hv
  rw [sat_bind]
  refine (requirePending_sat e.status).mono ?_
  rintro _ u ⟨hstatus,hu⟩
  subst hu
  exact (sat_update _ _).2 ⟨e,he,hstatus,rfl⟩

theorem setFinalityLedgers_sat (ledgers : Nat) :
    Sat (Model.setFinalityLedgers ledgers) w fun _ w' =>
      (FinalityCall.setFinalityLedgers ledgers).Effect w.env w.store w'.store.finality := by
  refine (sat_asAdmin _).2 fun admin _ _ => ?_
  simp only [sat_bind,sat_ensure,modifyFinality,sat_update]
  intro _
  rfl

theorem FinalityCall.body_sat (call : FinalityCall) :
    Sat call.body w fun _ w' => call.Effect w.env w.store w'.store.finality := by
  cases call with
  | markPricePending asset => exact markPricePending_sat asset
  | tryFinalizePrice asset l =>
    refine (sat_bind _ _).2 ((tryFinalizePrice_sat asset l).mono fun _ _ h => ?_)
    exact (sat_pure _).2 h
  | retractPrice asset l => exact retractPrice_sat asset l
  | setFinalityLedgers ledgers => exact setFinalityLedgers_sat ledgers

end Calls

/-- A call, or a change of storage that leaves the finality records as they are. -/
inductive FinalityAct
  | call (call : FinalityCall)
  | elsewhere (rest : Store)

structure FinalityTx where
  env : Env
  act : FinalityAct

def execFinality (st : Store) (t : FinalityTx) : Store :=
  match t.act with
  | .call call => invoke call.body t.env st
  | .elsewhere rest => { rest with finality := st.finality }

/-- A step leaves the records alone, or has the effect of its call. -/
theorem execFinality_cases (st : Store) (t : FinalityTx) :
    (execFinality st t).finality = st.finality ∨
      ∃ call, t.act = .call call ∧ call.Effect t.env st (execFinality st t).finality := by
  unfold execFinality
  cases ht : t.act with
  | elsewhere rest => exact .inl rfl
  | call call =>
    dsimp only
    rcases invoke_cases (call.body_sat (w := World.enter t.env st)) with h | ⟨_,w,hw,hst,_⟩
    · exact .inl (by rw [h.2.1])
    · refine .inr ⟨call,rfl,?_⟩
      rw [← hst]
      exact hw

section Success

variable {env : Env} {st : Store}

theorem markPricePending_fails (asset : Address) (w : World) :
    Fails (Model.markPricePending asset) w fun _ _ =>
      ¬(Markable w.env w.store asset ∧ (w.store.aggregate asset).isSome = true) := by
  unfold Model.markPricePending
  rw [fails_bind]
  refine ⟨(checkRegisteredAsset_fails asset w).mono fun _ _ h hok => ?_,?_⟩
  · simp [hok.1.1] at h
  · refine (checkRegisteredAsset_sat asset w).mono ?_
    rintro _ v ⟨_,hoff⟩
    have henv : v.env = w.env := hoff .env (by simp)
    have hfin : v.store.finality = w.store.finality := hoff .finality (by simp)
    have hagg : v.store.aggregate = w.store.aggregate :=
      congrArg Prod.fst (hoff .aggregates (by simp))
    have hledgers : v.store.getFinalityLedgers = w.store.getFinalityLedgers := by
      unfold Store.getFinalityLedgers
      rw [hfin]
    simp only [fails_bind,fails_consult,sat_consult,placePricePending,fails_getSequence,
      sat_getSequence,fails_readStore,sat_readStore,modifyFinality,fails_update,sat_update,
      fails_extendTtl,sat_extendTtl,true_and]
    refine ⟨fun e hread hok => ?_,fun a _ => ⟨?_,?_⟩⟩
    · rw [hagg] at hread
      obtain ⟨a,ha⟩ := Option.isSome_iff_exists.1 hok.2
      simp [ha] at hread
    · intro e u herr hok
      have hfree := hok.1.2.1
      rw [henv,hfin] at herr
      cases hp : w.store.finality.pending (asset,w.env.sequence) with
      | none =>
        rw [hp] at herr
        cases herr
      | some d =>
        simp only [hp,Option.all_some,decide_eq_true_eq] at hfree
        simp only [hp,requireUnsettled,hfree] at herr
        cases herr
    · refine (requireUnsettled_sat _).mono fun _ u hu => ?_
      rw [hu.2]
      rw [henv,hledgers]
      exact ⟨fun hno hok => hno ⟨Nat.le_refl _,hok.1.2.2.1⟩,fun _ hno hok => hno hok.1.2.2.2⟩

/-- A mark of a published asset takes effect when the asset can be marked. -/
theorem mark_effect {asset : Address} {a : AggregatePrice} (hmark : Markable env st asset)
    (ha : st.aggregate asset = some a) :
    (FinalityCall.markPricePending asset).Effect env st
      (invoke (Model.markPricePending asset) env st).finality := by
  rcases invoke_cases (markPricePending_sat (w := World.enter env st) asset) with
    h | ⟨_,w,hw,hst,_⟩
  · obtain ⟨e,he⟩ := Option.ne_none_iff_exists'.1 h.1
    exact (failure_of_fails he (markPricePending_fails asset _) ⟨hmark,by
      change (st.aggregate asset).isSome = true
      rw [ha]
      rfl⟩).elim
  · rw [← hst]
    exact hw

theorem tryFinalizePrice_fails (asset : Address) (l : Nat) (w : World) :
    Fails (Model.tryFinalizePrice asset l) w fun _ _ =>
      w.env.sequence + ledgerBump ≤ u32Max →
        ∀ e, w.store.finality.pending (asset,l) = some e → e.status ≠ .pending := by
  unfold Model.tryFinalizePrice
  rw [fails_bind]
  refine ⟨fun _ _ herr _ e he => ?_,(getPendingFinality_sat asset l).mono fun e v ⟨he,hv⟩ => ?_⟩
  · simp [getPendingFinality,consult,he] at herr
  · rw [hv,fails_bind]
    refine ⟨fun _ _ herr _ d hd hpending => ?_,(requirePending_sat _).mono fun _ u ⟨_,hu⟩ => ?_⟩
    · rw [he,Option.some.injEq] at hd
      rw [hd,hpending] at herr
      cases herr
    · rw [hu]
      simp only [fails_bind,fails_getSequence,sat_getSequence,true_and]
      by_cases hready : w.env.sequence < e.finalityLedger
      · rw [if_pos hready]
        exact fails_pure _
      · rw [if_neg hready]
        simp only [fails_bind,modifyFinality,fails_update,sat_update,fails_extendTtl,sat_extendTtl,
          fails_pure,implies_true,and_true,true_and]
        exact fun hno hledger => (hno ⟨by decide,hledger⟩).elim

/-- An attempt to finalize a pending entry takes effect. -/
theorem finalize_effect {asset : Address} {l : Nat} {e : PendingFinalityEntry}
    (hledger : env.sequence + ledgerBump ≤ u32Max)
    (he : st.finality.pending (asset,l) = some e) (hpending : e.status = .pending) :
    (FinalityCall.tryFinalizePrice asset l).Effect env st
      (invoke (FinalityCall.tryFinalizePrice asset l).body env st).finality := by
  have hsat : Sat (FinalityCall.tryFinalizePrice asset l).body (World.enter env st) fun _ w' =>
      (FinalityCall.tryFinalizePrice asset l).Effect env st w'.store.finality :=
    (FinalityCall.tryFinalizePrice asset l).body_sat
  rcases invoke_cases hsat with h | ⟨_,w,hw,hst,_⟩
  · obtain ⟨err,herr⟩ := Option.ne_none_iff_exists'.1 h.1
    have hfails : Fails (FinalityCall.tryFinalizePrice asset l).body (World.enter env st)
        fun _ _ => env.sequence + ledgerBump ≤ u32Max →
          ∀ e, st.finality.pending (asset,l) = some e → e.status ≠ .pending :=
      (fails_bind _).2 ⟨tryFinalizePrice_fails asset l _,fun _ _ _ => fails_pure _⟩
    exact (failure_of_fails herr hfails hledger e he hpending).elim
  · rw [← hst]
    exact hw

end Success

section Records

variable {env : Env} {st : Store} {f : Model.Finality} {call : FinalityCall} {t : FinalityTx}
  {asset : Address} {l : Nat}

/-- A call rewrites at most one entry, and only one that is not settled. -/
theorem FinalityCall.Effect.pending_eq (h : call.Effect env st f) :
    f.pending = st.finality.pending ∨
      ∃ k e, f.pending = Function.update st.finality.pending k (some e) ∧
        ∀ d, st.finality.pending k = some d → d.status = .pending := by
  cases call with
  | markPricePending a =>
    obtain ⟨aggregate,hash,⟨_,hfree,_⟩,_,rfl⟩ := h
    refine .inr ⟨(a,env.sequence),_,rfl,fun d hd => ?_⟩
    simpa [hd] using hfree
  | tryFinalizePrice a n =>
    obtain ⟨e,he,hstatus,hledger,rfl⟩ := h
    split_ifs
    · exact .inl rfl
    · refine .inr ⟨(a,n),_,rfl,fun d hd => ?_⟩
      rw [he,Option.some.injEq] at hd
      rw [← hd,hstatus]
  | retractPrice a n =>
    obtain ⟨e,he,hstatus,rfl⟩ := h
    refine .inr ⟨(a,n),_,rfl,fun d hd => ?_⟩
    rw [he,Option.some.injEq] at hd
    rw [← hd,hstatus]
  | setFinalityLedgers ledgers =>
    subst h
    exact .inl rfl

/-- No step touches a settled entry. -/
theorem settled_step {e : PendingFinalityEntry} (he : st.finality.pending (asset,l) = some e)
    (hsettled : e.status ≠ .pending) :
    (execFinality st t).finality.pending (asset,l) = some e := by
  rcases execFinality_cases st t with h | ⟨call,_,heff⟩
  · rw [h,he]
  · rcases heff.pending_eq with h | ⟨k,d,h,hfree⟩
    · rw [h,he]
    · have hk : (asset,l) ≠ k := by
        intro hk
        subst hk
        exact hsettled (hfree e he)
      rw [h,Function.update_of_ne hk,he]

/-- A finalized price stands on a finalized entry, and every deadline is a 32-bit ledger. -/
structure Sound (f : Model.Finality) : Prop where
  finalized : ∀ asset p, f.finalized asset = some p →
    ∃ e, f.pending (asset, p.committedLedger) = some e ∧ e.status = .finalized
  deadline : ∀ k e, f.pending k = some e → e.finalityLedger ≤ u32Max

def NoFinality (f : Model.Finality) : Prop :=
  f.pending = (fun _ => none) ∧ f.finalized = fun _ => none

theorem sound_of_noFinality (h : NoFinality f) : Sound f := by
  constructor
  · intro asset p hp
    simp [h.2] at hp
  · intro k e he
    simp [h.1] at he

/-- What a call does to the finalized prices, once they stand on finalized entries. -/
theorem FinalityCall.Effect.finalized_eq (hs : Sound st.finality) (h : call.Effect env st f) :
    f.finalized = st.finality.finalized ∨
      ∃ a n e, call = .tryFinalizePrice a n ∧ st.finality.pending (a,n) = some e ∧
        e.status = .pending ∧ e.finalityLedger ≤ env.sequence ∧
        env.sequence + ledgerBump ≤ u32Max ∧ st.finality.newerFinalized a n = false ∧
        f.finalized = Function.update st.finality.finalized a (some (e.promoted n env.sequence)) ∧
        f.pending =
          Function.update st.finality.pending (a,n) (some { e with status := .finalized }) := by
  cases call with
  | markPricePending a =>
    obtain ⟨aggregate,hash,_,_,rfl⟩ := h
    exact .inl rfl
  | tryFinalizePrice a n =>
    obtain ⟨e,he,hstatus,hledger,rfl⟩ := h
    split_ifs with hready
    · exact .inl rfl
    · cases hnewer : st.finality.newerFinalized a n with
      | true => exact .inl (by simp [Model.Finality.promote,hnewer])
      | false =>
        refine .inr ⟨a,n,e,rfl,he,hstatus,Nat.not_lt.1 hready,hledger.resolve_left hready,hnewer,?_,rfl⟩
        simp [Model.Finality.promote,hnewer]
  | retractPrice a n =>
    obtain ⟨e,he,hstatus,rfl⟩ := h
    -- the entry being retracted is pending, so no finalized price stands on it
    have hnone : ((st.finality.finalized a).any fun p => p.committedLedger = n) = false := by
      rw [Option.any_eq_false]
      intro p hp
      rw [decide_eq_false_iff_not]
      intro hn
      obtain ⟨d,hd,hfinal⟩ := hs.finalized a p hp
      rw [hn,he,Option.some.injEq] at hd
      rw [← hd,hstatus] at hfinal
      cases hfinal
    simp [Model.Finality.retract,hnone]
  | setFinalityLedgers ledgers =>
    subst h
    exact .inl rfl

theorem FinalityCall.Effect.sound (hs : Sound st.finality) (h : call.Effect env st f) :
    Sound f := by
  constructor
  · intro asset p hp
    rcases h.finalized_eq hs with hfin | ⟨a,n,e,_,_,_,_,_,_,hfin,hpend⟩
    · rw [hfin] at hp
      obtain ⟨d,hd,hfinal⟩ := hs.finalized asset p hp
      rcases h.pending_eq with hpend | ⟨k,e,hpend,hfree⟩
      · exact ⟨d,by rw [hpend,hd],hfinal⟩
      · have hk : (asset,p.committedLedger) ≠ k := by
          intro hk
          subst hk
          rw [hfree d hd] at hfinal
          cases hfinal
        exact ⟨d,by rw [hpend,Function.update_of_ne hk,hd],hfinal⟩
    · by_cases ha : asset = a
      · subst ha
        rw [hfin,Function.update_self,Option.some.injEq] at hp
        subst hp
        exact ⟨_,by rw [hpend]; exact Function.update_self ..,rfl⟩
      · rw [hfin,Function.update_of_ne ha] at hp
        obtain ⟨d,hd,hfinal⟩ := hs.finalized asset p hp
        have hk : (asset,p.committedLedger) ≠ (a,n) := fun hk => ha (congrArg Prod.fst hk)
        exact ⟨d,by rw [hpend,Function.update_of_ne hk,hd],hfinal⟩
  · intro k d hd
    have hbound (e : PendingFinalityEntry) (k' : Address × Nat) (he : e.finalityLedger ≤ u32Max)
        (hpend : f.pending = Function.update st.finality.pending k' (some e)) :
        d.finalityLedger ≤ u32Max := by
      rw [hpend,Function.update_apply] at hd
      split_ifs at hd
      · rw [Option.some.injEq] at hd
        rw [← hd]
        exact he
      · exact hs.deadline k d hd
    cases call with
    | markPricePending a =>
      obtain ⟨aggregate,hash,_,_,rfl⟩ := h
      refine hbound _ _ ?_ rfl
      unfold pendingEntry wrap32 u32Max
      dsimp only
      omega
    | tryFinalizePrice a n =>
      obtain ⟨e,he,_,_,rfl⟩ := h
      split_ifs at hd hbound
      · exact hs.deadline k d hd
      · exact hbound { e with status := .finalized } _ (hs.deadline _ e he) rfl
    | retractPrice a n =>
      obtain ⟨e,he,_,rfl⟩ := h
      exact hbound { e with status := .retracted } _ (hs.deadline _ e he) rfl
    | setFinalityLedgers ledgers =>
      subst h
      exact hs.deadline k d hd

theorem execFinality_sound (hs : Sound st.finality) : Sound (execFinality st t).finality := by
  rcases execFinality_cases st t with h | ⟨call,_,heff⟩
  · rw [h]
    exact hs
  · exact heff.sound hs

/-- A finalized price is replaced only by one that was committed no earlier. -/
theorem newest_step {p : FinalizedPrice} (hs : Sound st.finality)
    (hp : st.finality.finalized asset = some p) :
    ∃ q, (execFinality st t).finality.finalized asset = some q ∧
      p.committedLedger ≤ q.committedLedger := by
  rcases execFinality_cases st t with h | ⟨call,_,heff⟩
  · exact ⟨p,by rw [h,hp],Nat.le_refl _⟩
  · rcases heff.finalized_eq hs with h | ⟨a,n,e,_,_,_,_,_,hnewer,hfin,_⟩
    · exact ⟨p,by rw [h,hp],Nat.le_refl _⟩
    · by_cases ha : asset = a
      · subst ha
        refine ⟨e.promoted n t.env.sequence,by rw [hfin,Function.update_self],?_⟩
        simpa [Model.Finality.newerFinalized,hp,PendingFinalityEntry.promoted] using hnewer
      · exact ⟨p,by rw [hfin,Function.update_of_ne ha,hp],Nat.le_refl _⟩

end Records

section Runs

variable {st : Store} {ts : List FinalityTx} {asset : Address} {l : Nat} {e : PendingFinalityEntry}
  {p : FinalizedPrice} (post : List FinalityTx)

theorem run_sound (hclean : NoFinality st.finality) :
    Sound (run execFinality st ts).finality := by
  induction ts using List.reverseRecOn with
  | nil => exact sound_of_noFinality hclean
  | append_singleton ts t ih =>
    rw [run_concat]
    exact execFinality_sound ih

theorem settled_run (he : (run execFinality st ts).finality.pending (asset,l) = some e)
    (hsettled : e.status ≠ .pending) :
    (run execFinality st (ts ++ post)).finality.pending (asset,l) = some e := by
  induction post using List.reverseRecOn with
  | nil => rwa [List.append_nil]
  | append_singleton post t ih =>
    rw [← List.append_assoc,run_concat]
    exact settled_step ih hsettled

theorem newest_run (hclean : NoFinality st.finality)
    (hp : (run execFinality st ts).finality.finalized asset = some p) :
    ∃ q, (run execFinality st (ts ++ post)).finality.finalized asset = some q ∧
      p.committedLedger ≤ q.committedLedger := by
  induction post using List.reverseRecOn with
  | nil => exact ⟨p,by rwa [List.append_nil],Nat.le_refl _⟩
  | append_singleton post t ih =>
    obtain ⟨q,hq,hle⟩ := ih
    obtain ⟨r,hr,hle'⟩ := newest_step (t := t) (run_sound hclean) hq
    exact ⟨r,by rw [← List.append_assoc,run_concat,hr],Nat.le_trans hle hle'⟩

/-- The step marks the stored aggregate of the asset at ledger `l`, as the entry `e`. -/
def Marks (asset : Address) (l : Nat) (e : PendingFinalityEntry) (s : Store) (t : FinalityTx) :
    Prop :=
  t.act = .call (.markPricePending asset) ∧ t.env.sequence = l ∧ Markable t.env s asset ∧
    ∃ aggregate hash, s.aggregate asset = some aggregate ∧
      e = pendingEntry l s.getFinalityLedgers hash aggregate

/-- The step promotes the entry `e` of ledger `p.committedLedger` to the final price `p`. -/
def Promotes (asset : Address) (p : FinalizedPrice) (s : Store) (t : FinalityTx) : Prop :=
  t.act = .call (.tryFinalizePrice asset p.committedLedger) ∧ t.env.sequence = p.finalizedLedger ∧
    ∃ e, s.finality.pending (asset, p.committedLedger) = some e ∧ e.status = .pending ∧
      e.finalityLedger ≤ p.finalizedLedger ∧ p = e.promoted p.committedLedger p.finalizedLedger

/-- An entry that is pending after a step was so before it, or the step marked it. -/
theorem pending_step {t : FinalityTx}
    (he : (execFinality st t).finality.pending (asset,l) = some e)
    (hpending : e.status = .pending) :
    st.finality.pending (asset,l) = some e ∨ Marks asset l e st t := by
  rcases execFinality_cases st t with h | ⟨call,hact,heff⟩
  · exact .inl (by rw [← h,he])
  · cases call with
    | markPricePending a =>
      obtain ⟨aggregate,hash,hmark,hagg,hf⟩ := heff
      rw [hf] at he
      rcases stored_of_update he with ⟨hk,hnew⟩ | hold
      · obtain ⟨rfl,rfl⟩ := Prod.mk.inj hk
        exact .inr ⟨hact,rfl,hmark,aggregate,hash,hagg,hnew⟩
      · exact .inl hold
    | tryFinalizePrice a n =>
      obtain ⟨d,_,_,_,hf⟩ := heff
      split_ifs at hf
      · exact .inl (by rw [← hf,he])
      · rw [hf] at he
        rcases stored_of_update he with ⟨-,rfl⟩ | he
        · cases hpending
        · exact .inl he
    | retractPrice a n =>
      obtain ⟨d,_,_,hf⟩ := heff
      rw [hf] at he
      rcases stored_of_update he with ⟨-,rfl⟩ | he
      · cases hpending
      · exact .inl he
    | setFinalityLedgers ledgers =>
      rw [heff] at he
      exact .inl he

theorem pending_since (hclean : NoFinality st.finality)
    (he : (run execFinality st ts).finality.pending (asset,l) = some e)
    (hpending : e.status = .pending) : Since execFinality st (Marks asset l e)
      (fun s => s.finality.pending (asset,l) = some e) ts := by
  induction ts using List.reverseRecOn with
  | nil => simp [hclean.1] at he
  | append_singleton ts t ih =>
    rw [run_concat] at he
    rcases pending_step he hpending with h | h
    · exact (ih h).extend he
    · exact since_begin h he

theorem finalized_since (hclean : NoFinality st.finality)
    (hp : (run execFinality st ts).finality.finalized asset = some p) :
    Since execFinality st (Promotes asset p) (fun s => s.finality.finalized asset = some p) ts := by
  induction ts using List.reverseRecOn with
  | nil => simp [hclean.2] at hp
  | append_singleton ts t ih =>
    rw [run_concat] at hp
    have hkept (h : (execFinality (run execFinality st ts) t).finality.finalized asset =
        (run execFinality st ts).finality.finalized asset) :
        Since execFinality st (Promotes asset p)
          (fun s => s.finality.finalized asset = some p) (ts ++ [t]) :=
      (ih (by rw [← h,hp])).extend hp
    rcases execFinality_cases (run execFinality st ts) t with h | ⟨call,hact,heff⟩
    · exact hkept (by rw [h])
    · rcases heff.finalized_eq (run_sound hclean) with
        h | ⟨a,n,e,rfl,he,hstatus,hready,_,_,hfin,_⟩
      · exact hkept (by rw [h])
      · by_cases ha : asset = a
        · subst ha
          rw [hfin,Function.update_self,Option.some.injEq] at hp
          subst hp
          exact since_begin ⟨hact,rfl,e,he,hstatus,hready,rfl⟩
            (by rw [hfin,Function.update_self])
        · exact hkept (by rw [hfin,Function.update_of_ne ha])

/-- The price was marked, then pending under the window of that moment until it was promoted. -/
def Awaited (st : Store) (ts : List FinalityTx) (asset : Address) (p : FinalizedPrice) : Prop :=
  ∃ pre mark mid final post e, ts = pre ++ mark :: mid ++ final :: post ∧
    mark.act = .call (.markPricePending asset) ∧ mark.env.sequence = p.committedLedger ∧
    final.act = .call (.tryFinalizePrice asset p.committedLedger) ∧
    final.env.sequence = p.finalizedLedger ∧
    p = e.promoted p.committedLedger p.finalizedLedger ∧ e.status = .pending ∧
    (∀ part, part <+: mid →
      (run execFinality st (pre ++ mark :: part)).finality.pending (asset, p.committedLedger) =
        some e) ∧
    p.committedLedger + (run execFinality st pre).getFinalityLedgers ≤ p.finalizedLedger

/-- The finality records after the run `ts`, and on the way there. -/
structure Lifecycle (st : Store) (ts : List FinalityTx) : Prop where
  settled : ∀ pre post asset l e, ts = pre ++ post →
    (run execFinality st pre).finality.pending (asset, l) = some e → e.status ≠ .pending →
    ∃ d, (run execFinality st ts).finality.pending (asset, l) = some d ∧ d.status = e.status
  newest : ∀ pre post asset p, ts = pre ++ post →
    (run execFinality st pre).finality.finalized asset = some p →
    ∃ q, (run execFinality st ts).finality.finalized asset = some q ∧
      p.committedLedger ≤ q.committedLedger
  awaited : ∀ asset p, (run execFinality st ts).finality.finalized asset = some p →
    Awaited st ts asset p
  unretracted : ∀ asset p, (run execFinality st ts).finality.finalized asset = some p →
    ∀ pre post e, ts = pre ++ post →
      (run execFinality st pre).finality.pending (asset, p.committedLedger) = some e →
      e.status ≠ .retracted

/-- A mark that takes effect has a deadline that fits 32 bits. -/
def WindowFits (s : Store) (t : FinalityTx) : Prop :=
  match t.act with
  | .call (.markPricePending asset) =>
    Markable t.env s asset → t.env.sequence + s.getFinalityLedgers < 2 ^ 32
  | _ => True

theorem awaited_of_since (hclean : NoFinality st.finality)
    (hfits : ∀ x ∈ steps execFinality st ts, WindowFits x.1 x.2)
    (hp : (run execFinality st ts).finality.finalized asset = some p) : Awaited st ts asset p := by
  obtain ⟨before,final,post,rfl,⟨hcall,hseq,e,he,hpending,hready,hpe⟩,_⟩ :=
    finalized_since hclean hp
  obtain ⟨pre,mark,mid,rfl,⟨hmark,hledger,hmarkable,aggregate,hash,_,hentry⟩,hheld⟩ :=
    pending_since hclean he hpending
  refine ⟨pre,mark,mid,final,post,e,rfl,hmark,hledger,hcall,hseq,hpe,hpending,hheld,?_⟩
  have hfit : WindowFits (run execFinality st pre) mark := by
    refine hfits (run execFinality st pre,mark) ?_
    rw [List.append_assoc,steps_append,List.cons_append,steps_cons]
    simp
  unfold WindowFits at hfit
  simp only [hmark] at hfit
  have hsum := hfit hmarkable
  rw [hentry] at hready
  unfold pendingEntry wrap32 at hready
  rw [hledger] at hsum
  rwa [Nat.mod_eq_of_lt hsum] at hready

/-- In every run whose marks have a deadline that fits 32 bits, settled entries stay settled, a
finalized price only gives way to a newer one, and each was pending for its whole window. -/
theorem finality_lifecycle (st : Store) (ts : List FinalityTx) (hclean : NoFinality st.finality)
    (hfits : ∀ x ∈ steps execFinality st ts, WindowFits x.1 x.2) : Lifecycle st ts where
  settled pre post asset l e hts he hsettled := by
    subst hts
    exact ⟨e,settled_run post he hsettled,rfl⟩
  newest pre post asset p hts hp := by
    subst hts
    exact newest_run post hclean hp
  awaited asset p hp := awaited_of_since hclean hfits hp
  unretracted asset p hp pre post e hts he := by
    intro hretracted
    obtain ⟨d,hd,hfinal⟩ := (run_sound hclean).finalized asset p hp
    subst hts
    have hlast := settled_run post he (by simp [hretracted])
    rw [hd,Option.some.injEq] at hlast
    rw [hlast,hretracted] at hfinal
    cases hfinal

/-- Asset `10` has an aggregate; its administrator is `9`. -/
def publishedStore : Store :=
  { config := { admin := some 9 }
    registry := { assetRegistered := Function.update (fun _ => none) 10 (some true) }
    aggregate := Function.update (fun _ => none) 10 (some ⟨500, 5, 3, 7, false, 1⟩) }

/-- The price is marked, tried too early, and finalized once its window has passed. -/
def awaitedRun : List FinalityTx :=
  [⟨.concrete 5 5 [9], .call (.setFinalityLedgers 20)⟩,
    ⟨.concrete 10 5 [], .call (.markPricePending 10)⟩,
    ⟨.concrete 29 5 [], .call (.tryFinalizePrice 10 10)⟩,
    ⟨.concrete 31 5 [], .call (.tryFinalizePrice 10 10)⟩,
    ⟨.concrete 32 5 [9], .call (.retractPrice 10 10)⟩]

theorem awaited_run_lifecycle :
    Lifecycle publishedStore awaitedRun ∧
      (run execFinality publishedStore awaitedRun).finality.finalized 10 =
        some ⟨500, 5, 3, 7, 10, 31⟩ :=
  ⟨finality_lifecycle publishedStore awaitedRun ⟨rfl,rfl⟩ (by simp [awaitedRun,WindowFits]; decide),
    by decide⟩

/-- At ledger 10 the deadline of this window is ledger 0. -/
def instantRun : List FinalityTx :=
  [⟨.concrete 5 5 [9], .call (.setFinalityLedgers (2 ^ 32 - 10))⟩,
    ⟨.concrete 10 5 [], .call (.markPricePending 10)⟩,
    ⟨.concrete 10 5 [], .call (.tryFinalizePrice 10 10)⟩]

/-- The price is final in the ledger it was marked in. -/
theorem instant_run_not_lifecycle : ¬Lifecycle publishedStore instantRun := by
  intro h
  have hfinal : (run execFinality publishedStore instantRun).finality.finalized 10 =
      some ⟨500,5,3,7,10,10⟩ := by decide
  obtain ⟨pre,mark,mid,final,post,e,hts,hmark,_,_,_,_,_,_,hwindow⟩ :=
    h.awaited 10 _ hfinal
  -- the second step is the only mark
  rcases pre with _ | ⟨first,_ | ⟨second,pre⟩⟩
  · simp only [List.nil_append,instantRun,List.cons_append,List.cons.injEq] at hts
    rw [← hts.1] at hmark
    cases hmark
  · simp only [instantRun,List.cons_append,List.cons.injEq] at hts
    rw [← hts.1] at hwindow
    revert hwindow
    decide
  · simp only [instantRun,List.cons_append,List.cons.injEq] at hts
    have hlen := congrArg List.length hts.2.2
    simp only [List.length_append,List.length_cons,List.length_nil] at hlen
    omega

end Runs

end PriceOracle.Finality
