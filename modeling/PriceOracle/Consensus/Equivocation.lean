import PriceOracle.Consensus.Effects

/-! # Equivocation reports

A refused second vote is rolled back and leaves no trace in storage, so a report can only see that
some vote is stored. Runs are therefore recorded together with their past, and the penalties of a
run are compared with the observations its sources really submitted. -/

namespace PriceOracle.Consensus

open Lib.Transaction Lib.Footprint Lib.Run Model

/-- Storage together with the steps that led to it. -/
structure Recorded where
  store : Store
  past : List (Store × RoundTx)

def execRecorded (x : Recorded) (t : RoundTx) : Recorded :=
  ⟨execRound x.store t, x.past ++ [(x.store, t)]⟩

/-- A vote of `s` with the given observation ended with the given outcome. -/
def VoteEnded (past : List (Store × RoundTx)) (s a : Address) (r : Nat) (p : Int) (ts : Nat)
    (outcome : Option ErrorCode) : Prop :=
  ∃ y ∈ past, y.2.call = .submitRoundVote s a r p ts ∧ y.2.failure y.1 = outcome

/-- `s` submitted the observation in round `r`: it was accepted, or refused as equivocation. -/
def Submitted (past : List (Store × RoundTx)) (s a : Address) (r : Nat) (p : Int) (ts : Nat) :
    Prop :=
  VoteEnded past s a r p ts none ∨ VoteEnded past s a r p ts (some .roundEquivocation)

/-- `s` submitted two different observations in round `r`. -/
def Equivocated (past : List (Store × RoundTx)) (s a : Address) (r : Nat) : Prop :=
  ∃ p ts p' ts', Submitted past s a r p ts ∧ Submitted past s a r p' ts' ∧ (p, ts) ≠ (p', ts')

def Bars (st st' : Store) (s a : Address) (r : Nat) : Prop :=
  st.isBarredFromRound s a r = false ∧ st'.isBarredFromRound s a r = true

/-- The step bars, and counts against, only sources that equivocated in the round. -/
def PenalisesEquivocatorsOnly (x : Recorded) (t : RoundTx) : Prop :=
  (∀ s a r, Bars x.store (execRound x.store t) s a r → Equivocated x.past s a r) ∧
    ∀ s a, (execRound x.store t).getEquivocationCount s a ≠ x.store.getEquivocationCount s a →
      ∃ r, Bars x.store (execRound x.store t) s a r ∧ Equivocated x.past s a r

/-- A report that takes effect follows a vote of the source that the round refused. -/
def ReportsRefusedVotesOnly (x : Recorded) (t : RoundTx) : Prop :=
  ∀ s a r, t.call = .reportEquivocation s a r → x.store.isRegisteredAsset a = true →
    (x.store.consensus.vote (a, r, s)).isSome = true →
    x.store.isBarredFromRound s a r = false →
    ∃ p ts, VoteEnded x.past s a r p ts (some .roundEquivocation)

/-- The stored votes and bars account for the past. -/
structure Accounts (x : Recorded) : Prop where
  stored : ∀ s a r v, x.store.consensus.vote (a, r, s) = some v →
    VoteEnded x.past s a r v.price v.timestamp none
  accepted : ∀ s a r p ts, VoteEnded x.past s a r p ts none →
    ∃ v, x.store.consensus.vote (a, r, s) = some v ∧ v.price = p ∧ v.timestamp = ts
  refused : ∀ s a r p ts, VoteEnded x.past s a r p ts (some .roundEquivocation) →
    x.store.isBarredFromRound s a r = true ∨
      ∃ v, x.store.consensus.vote (a, r, s) = some v ∧ ¬(v.price = p ∧ v.timestamp = ts)

section Steps

variable {env : Env} {st : Store} {call : RoundCall} {con : Model.Consensus}
  {k : Address × Nat × Address} {v : RoundVote} {s a : Address} {r : Nat}

/-- A stored vote is never replaced. -/
theorem RoundEffect.vote_kept (h : RoundEffect env st call con)
    (hv : st.consensus.vote k = some v) : con.vote k = some v := by
  have hcast : ∀ {s a r u}, st.consensus.vote (a,r,s) = none → u.source = s →
      Function.update st.consensus.vote (a,r,u.source) (some u) k = some v := by
    intro s a r u hnone hs
    rw [hs,Function.update_of_ne,hv]
    rintro rfl
    rw [hv] at hnone
    cases hnone
  cases h with
  | voted _ hnone hs => exact hcast hnone hs
  | tallied _ hnone hs => exact hcast hnone hs
  | _ => exact hv

theorem RoundEffect.vote_new (h : RoundEffect env st call con) (hv : con.vote (a,r,s) = some v) :
    st.consensus.vote (a,r,s) = some v ∨ call = .submitRoundVote s a r v.price v.timestamp := by
  have hcast : ∀ {s' a' r' p ts u}, u.source = s' → u.price = p → u.timestamp = ts →
      Function.update st.consensus.vote (a',r',u.source) (some u) (a,r,s) = some v →
      st.consensus.vote (a,r,s) = some v ∨
        RoundCall.submitRoundVote s' a' r' p ts = .submitRoundVote s a r v.price v.timestamp := by
    intro s' a' r' p ts u hs hp hts hu
    rcases stored_of_update hu with ⟨hk,rfl⟩ | hu
    · obtain ⟨rfl,rfl,rfl⟩ := hk
      exact .inr (by rw [hs,hp,hts])
    · exact .inl hu
  cases h with
  | voted _ _ hs hp hts => exact hcast hs hp hts hv
  | tallied _ _ hs hp hts => exact hcast hs hp hts hv
  | _ => exact .inl hv

theorem RoundEffect.vote_accepted {p : Int} {ts : Nat}
    (h : RoundEffect env st (.submitRoundVote s a r p ts) con) :
    ∃ v, con.vote (a,r,s) = some v ∧ v.price = p ∧ v.timestamp = ts := by
  cases h with
  | repeated _ hvote hp hts => exact ⟨_,hvote,hp,hts⟩
  | voted _ _ hs hp hts =>
    exact ⟨_,by subst hs; exact Function.update_self _ _ _,hp,hts⟩
  | tallied _ _ hs hp hts =>
    exact ⟨_,by subst hs; exact Function.update_self _ _ _,hp,hts⟩

theorem RoundEffect.barred_kept (h : RoundEffect env st call con)
    (hk : st.consensus.barred k = true) : con.barred k = true := by
  cases h with
  | penalised =>
    rename_i s a r v _ _ _
    change Function.update st.consensus.barred (a,r,s) true k = true
    by_cases hkey : k = (a,r,s)
    · rw [hkey,Function.update_self]
    · rw [Function.update_of_ne hkey,hk]
  | _ => exact hk

/-- A penalty is the effect of a report on a stored vote, of that source in that round. -/
theorem RoundEffect.penalty (h : RoundEffect env st call con) :
    (con.barred = st.consensus.barred ∧
        con.equivocationCount = st.consensus.equivocationCount) ∨
      ∃ s a r, call = .reportEquivocation s a r ∧ st.isRegisteredAsset a = true ∧
        (st.consensus.vote (a,r,s)).isSome = true ∧ st.isBarredFromRound s a r = false ∧
        con = st.consensus.penalise s a r := by
  cases h with
  | penalised hreg hvote hbar => exact .inr ⟨_,_,_,rfl,hreg,by rw [hvote]; rfl,hbar,rfl⟩
  | _ => exact .inl ⟨rfl,rfl⟩

end Steps

theorem VoteEnded.mono {past : List (Store × RoundTx)} {y : Store × RoundTx} {s a : Address}
    {r : Nat} {p : Int} {ts : Nat} {o : Option ErrorCode} (h : VoteEnded past s a r p ts o) :
    VoteEnded (past ++ [y]) s a r p ts o := by
  obtain ⟨z,hz,hcall,hend⟩ := h
  exact ⟨z,List.mem_append_left _ hz,hcall,hend⟩

theorem voteEnded_snoc {past : List (Store × RoundTx)} {y : Store × RoundTx} {s a : Address}
    {r : Nat} {p : Int} {ts : Nat} {o : Option ErrorCode} (h : VoteEnded (past ++ [y]) s a r p ts o) :
    VoteEnded past s a r p ts o ∨
      (y.2.call = .submitRoundVote s a r p ts ∧ y.2.failure y.1 = o) := by
  obtain ⟨z,hz,hcall,hend⟩ := h
  rcases List.mem_append.1 hz with hz | hz
  · exact .inl ⟨z,hz,hcall,hend⟩
  · rw [List.mem_singleton] at hz
    subst hz
    exact .inr ⟨hcall,hend⟩

theorem failure_roundEquivocation (st : Store) (t : RoundTx) {s a : Address} {r : Nat} {p : Int}
    {ts : Nat} (hcall : t.call = .submitRoundVote s a r p ts)
    (hf : t.failure st = some .roundEquivocation) :
    st.isBarredFromRound s a r = true ∨
      ∃ v, st.consensus.vote (a,r,s) = some v ∧ ¬(v.price = p ∧ v.timestamp = ts) := by
  obtain ⟨env,call⟩ := t
  subst hcall
  exact failure_of_fails hf (submitRoundVote_refused s a r p ts _) rfl

/-- Every step keeps the account of the past. -/
theorem accounts_step (x : Recorded) (t : RoundTx) (h : Accounts x) :
    Accounts (execRecorded x t) := by
  cases hf : t.failure x.store with
  | some e =>
    have hst : execRound x.store t = x.store := execRound_failed x.store t hf
    refine ⟨fun s a r v hv => ?_,fun s a r p ts hend => ?_,fun s a r p ts hend => ?_⟩
    · change (execRound x.store t).consensus.vote (a,r,s) = some v at hv
      rw [hst] at hv
      exact (h.stored s a r v hv).mono
    · change ∃ v, (execRound x.store t).consensus.vote (a,r,s) = some v ∧ _
      rw [hst]
      rcases voteEnded_snoc hend with hend | ⟨-,hnone⟩
      · exact h.accepted s a r p ts hend
      · rw [hf] at hnone
        cases hnone
    · change (execRound x.store t).isBarredFromRound s a r = true ∨
        ∃ v, (execRound x.store t).consensus.vote (a,r,s) = some v ∧ _
      rw [hst]
      rcases voteEnded_snoc hend with hend | ⟨hcall,hrefused⟩
      · exact h.refused s a r p ts hend
      · exact failure_roundEquivocation x.store t hcall hrefused
  | none =>
    have heff := execRound_effect x.store t hf
    refine ⟨fun s a r v hv => ?_,fun s a r p ts hend => ?_,fun s a r p ts hend => ?_⟩
    · rcases heff.vote_new hv with hold | hcall
      · exact (h.stored s a r v hold).mono
      · exact ⟨_,List.mem_append_right _ (List.mem_singleton.2 rfl),hcall,hf⟩
    · rcases voteEnded_snoc hend with hend | ⟨hcall,-⟩
      · obtain ⟨v,hv,hobs⟩ := h.accepted s a r p ts hend
        exact ⟨v,heff.vote_kept hv,hobs⟩
      · rw [hcall] at heff
        exact heff.vote_accepted
    · rcases voteEnded_snoc hend with hend | ⟨-,hrefused⟩
      · rcases h.refused s a r p ts hend with hbar | ⟨v,hv,hne⟩
        · exact .inl (heff.barred_kept hbar)
        · exact .inr ⟨v,heff.vote_kept hv,hne⟩
      · rw [hf] at hrefused
        cases hrefused

/-- Under the account of the past, an unbarred source equivocated exactly when one of its votes was
refused. -/
theorem equivocated_iff_refused {x : Recorded} (h : Accounts x) {s a : Address} {r : Nat}
    (hbar : x.store.isBarredFromRound s a r = false) :
    Equivocated x.past s a r ↔ ∃ p ts, VoteEnded x.past s a r p ts (some .roundEquivocation) := by
  constructor
  · rintro ⟨p,ts,p',ts',hone | hone,hother | hother,hne⟩
    · obtain ⟨u,hu,hp,hts⟩ := h.accepted s a r p ts hone
      obtain ⟨u',hu',hp',hts'⟩ := h.accepted s a r p' ts' hother
      rw [hu,Option.some.injEq] at hu'
      subst hu'
      exact absurd (by rw [← hp,← hts,← hp',← hts']) hne
    · exact ⟨p',ts',hother⟩
    · exact ⟨p,ts,hone⟩
    · exact ⟨p,ts,hone⟩
  · rintro ⟨p,ts,hrefused⟩
    rcases h.refused s a r p ts hrefused with hyes | ⟨u,hu,hne⟩
    · rw [hbar] at hyes
      cases hyes
    · refine ⟨u.price,u.timestamp,p,ts,.inl (h.stored s a r u hu),.inr hrefused,?_⟩
      intro heq
      exact hne (by simpa using heq)

theorem bars_penalise_iff (st : Store) {s a s' a' : Address} {r r' : Nat} {st' : Store}
    (hbar : st.isBarredFromRound s a r = false)
    (hcon : st'.consensus = st.consensus.penalise s a r) :
    Bars st st' s' a' r' ↔ s' = s ∧ a' = a ∧ r' = r := by
  have hval : st'.isBarredFromRound s' a' r' =
      Function.update st.consensus.barred (a,r,s) true (a',r',s') := by
    change st'.consensus.barred _ = _
    rw [hcon]
    rfl
  unfold Bars
  rw [hval]
  by_cases hk : (a',r',s') = (a,r,s)
  · obtain ⟨rfl,rfl,rfl⟩ := hk
    simp [hbar]
  · rw [Function.update_of_ne hk]
    simp only [Prod.mk.injEq] at hk
    constructor
    · rintro ⟨hno,hyes⟩
      change st.consensus.barred _ = false at hno
      rw [hno] at hyes
      cases hyes
    · rintro ⟨rfl,rfl,rfl⟩
      exact absurd ⟨rfl,rfl,rfl⟩ hk

theorem count_penalise (st : Store) {s a s' a' : Address} {r : Nat} {st' : Store}
    (hcon : st'.consensus = st.consensus.penalise s a r)
    (hne : st'.getEquivocationCount s' a' ≠ st.getEquivocationCount s' a') :
    s' = s ∧ a' = a := by
  by_contra hk
  apply hne
  unfold Store.getEquivocationCount
  rw [hcon]
  refine congrArg (Option.getD · 0) (Function.update_of_ne ?_ _ _)
  rintro h
  simp only [Prod.mk.injEq] at h
  exact hk ⟨h.2,h.1⟩

/-- Storage without a new bar and with the old counts meets every penalty condition. -/
theorem penalisesEquivocatorsOnly_of_same {x : Recorded} {t : RoundTx}
    (hbar : (execRound x.store t).consensus.barred = x.store.consensus.barred)
    (hcount : (execRound x.store t).consensus.equivocationCount =
      x.store.consensus.equivocationCount) : PenalisesEquivocatorsOnly x t := by
  refine ⟨fun s a r hb => ?_,fun s a hne => ?_⟩
  · obtain ⟨hno,hyes⟩ := hb
    unfold Store.isBarredFromRound at hno hyes
    rw [hbar,hno] at hyes
    cases hyes
  · unfold Store.getEquivocationCount at hne
    rw [hcount] at hne
    exact absurd rfl hne

/-- One step penalises equivocators only, exactly when it reports refused votes only. -/
theorem penalisesEquivocatorsOnly_iff (x : Recorded) (t : RoundTx) (h : Accounts x) :
    PenalisesEquivocatorsOnly x t ↔ ReportsRefusedVotesOnly x t := by
  constructor
  · rintro ⟨hbars,-⟩ s a r hcall hreg hvote hbar
    refine (equivocated_iff_refused h hbar).1 (hbars s a r ?_)
    have hok : t.failure x.store = none := by
      cases hf : t.failure x.store with
      | none => rfl
      | some e =>
        obtain ⟨env,call⟩ := t
        subst hcall
        exact (failure_of_fails (E := fun _ => False) hf
          (reportEquivocation_succeeds s a r _ hreg hvote)).elim
    have heff := execRound_effect x.store t hok
    rw [hcall] at heff
    generalize hcon : (execRound x.store t).consensus = con at heff
    cases heff with
    | reported hyes =>
      rw [hbar] at hyes
      cases hyes
    | penalised => exact (bars_penalise_iff x.store hbar hcon).2 ⟨rfl,rfl,rfl⟩
  · intro hback
    cases hf : t.failure x.store with
    | some e =>
      have hst : execRound x.store t = x.store := execRound_failed x.store t hf
      exact penalisesEquivocatorsOnly_of_same (by rw [hst]) (by rw [hst])
    | none =>
      rcases (execRound_effect x.store t hf).penalty with
        ⟨hbar,hcount⟩ | ⟨s,a,r,hcall,hreg,hvote,hbar,hcon⟩
      · exact penalisesEquivocatorsOnly_of_same hbar hcount
      · have hguilty : Equivocated x.past s a r :=
          (equivocated_iff_refused h hbar).2 (hback s a r hcall hreg hvote hbar)
        refine ⟨fun s' a' r' hb => ?_,fun s' a' hne => ?_⟩
        · obtain ⟨rfl,rfl,rfl⟩ := (bars_penalise_iff x.store hbar hcon).1 hb
          exact hguilty
        · obtain ⟨rfl,rfl⟩ := count_penalise x.store hcon hne
          exact ⟨r,(bars_penalise_iff x.store hbar hcon).2 ⟨rfl,rfl,rfl⟩,hguilty⟩

/-- Storage whose round protocol has not been used yet. -/
def freshRounds (st : Store) : Recorded := ⟨{ st with consensus := {} }, []⟩

theorem accounts_fresh (st : Store) : Accounts (freshRounds st) where
  stored _ _ _ _ hv := by cases hv
  accepted := by
    rintro _ _ _ _ _ ⟨_,hy,_⟩
    cases hy
  refused := by
    rintro _ _ _ _ _ ⟨_,hy,_⟩
    cases hy

/-- In every run of the round protocol from unused rounds, by any callers, bars and counts fall on
equivocating sources only, exactly when every report that takes effect names a source one of whose
votes in that round was refused. -/
theorem penalties_fall_on_equivocators_iff (st : Store) (ts : List RoundTx) :
    (∀ x ∈ steps execRecorded (freshRounds st) ts, PenalisesEquivocatorsOnly x.1 x.2) ↔
      ∀ x ∈ steps execRecorded (freshRounds st) ts, ReportsRefusedVotesOnly x.1 x.2 :=
  steps_iff (I := Accounts) (fun x t h => accounts_step x t h)
    (fun x t h => penalisesEquivocatorsOnly_iff x t h) (accounts_fresh st)

/-- One registered asset `1` and one active source `7`. -/
def oneSourceStore : Store :=
  { registry := {
      assetIndex := fun a => if a = 1 then some true else none
      srcActive := fun s => if s = 7 then some true else none } }

/-- A source that voted exactly once is barred by a report of anyone. -/
theorem single_vote_penalised :
    ¬∀ x ∈ steps execRecorded (freshRounds oneSourceStore)
        [⟨.concrete 10 100 [7], .submitRoundVote 7 1 0 500 100⟩,
          ⟨.concrete 10 100 [], .reportEquivocation 7 1 0⟩],
      PenalisesEquivocatorsOnly x.1 x.2 := by
  rw [steps_cons,List.forall_mem_cons,steps_cons,List.forall_mem_cons]
  rintro ⟨-,⟨hreport,-⟩,-⟩
  obtain ⟨p,ts,p',ts',hone,hother,hne⟩ := hreport 7 1 0 (by
    constructor <;> decide +kernel)
  have honly : ∀ {q u o}, VoteEnded (execRecorded (freshRounds oneSourceStore)
      ⟨.concrete 10 100 [7],.submitRoundVote 7 1 0 500 100⟩).past 7 1 0 q u o →
      q = 500 ∧ u = 100 := by
    rintro q u o ⟨y,hy,hcall,-⟩
    simp only [execRecorded,freshRounds,List.nil_append,List.mem_singleton] at hy
    subst hy
    simp only [RoundCall.submitRoundVote.injEq,true_and] at hcall
    exact ⟨hcall.1.symm,hcall.2.symm⟩
  have h₁ : p = 500 ∧ ts = 100 := hone.elim honly honly
  have h₂ : p' = 500 ∧ ts' = 100 := hother.elim honly honly
  exact hne (by rw [h₁.1,h₁.2,h₂.1,h₂.2])

end PriceOracle.Consensus
