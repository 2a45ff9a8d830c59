import PriceOracle.Challenges.Accounts

/-! # What challenges pay

A challenge is resolved at most once, and nobody claims more than the valid challenges earned. Whether
the accounts stay right in between is decided step by step. -/

namespace PriceOracle.Challenges

open Model Lib.Transaction Lib.MachineInt Lib.Run

section Totals

/-- What a call returns; nothing if it panics. -/
def returned (m : Contract Int) (env : Env) (st : Store) : Int :=
  match m (World.enter env st) with
  | .ok amount _ => amount
  | .error _ _ => 0

/-- What `c` claims in one step. -/
def claimedBy (c : Address) (st : Store) (t : ChallengeTx) : Int :=
  match t.act with
  | .call (.claim claimer) => if claimer = c then returned (claimRewards claimer) t.env st else 0
  | _ => 0

/-- The reward of a stored challenge, if it is one of `c` that was resolved as valid. -/
def rewardOf (c : Address) : Option Challenge → Int
  | some ch => if ch.isResolved = true ∧ ch.isValid = true ∧ ch.challenger = c then ch.rewardAmount
    else 0
  | none => 0

/-- What `c` earns in one step: the reward of the challenge that it resolves. -/
def earnedBy (c : Address) (st : Store) (t : ChallengeTx) : Int :=
  match t.act with
  | .call (.resolve id isValid) =>
    if failure (resolveChallenge id isValid) t.env st = none then
      rewardOf c ((execChallenge st t).challenges.challenge id)
    else 0
  | _ => 0

variable {st : Store} {t : ChallengeTx} {c : Address}

theorem returned_of_claimed (env : Env) (st : Store) (claimer : Address) :
    returned (claimRewards claimer) env st = 0 ∨
      returned (claimRewards claimer) env st = st.challengerRewards claimer := by
  unfold returned
  cases hrun : claimRewards claimer (World.enter env st) with
  | ok amount w => exact .inr (claimRewards_sat amount w hrun).1
  | error e w => exact .inl rfl

theorem returned_of_failure {env : Env} {claimer : Address}
    (h : failure (ChallengeCall.claim claimer).body env st ≠ none) :
    returned (claimRewards claimer) env st = 0 := by
  unfold returned
  cases hrun : claimRewards claimer (World.enter env st) with
  | ok amount w =>
    refine absurd (failure_eq_none_iff.2 ⟨(),w,?_⟩) h
    change (claimRewards claimer >>= fun _ => pure ()) (World.enter env st) = _
    simp [bind,EStateM.bind,hrun,pure,EStateM.pure]
  | error e w => rfl

theorem claimedBy_idle
    (hidle : ∀ call, t.act = .call call → failure call.body t.env st ≠ none) :
    claimedBy c st t = 0 := by
  unfold claimedBy
  cases hact : t.act with
  | elsewhere rest => rfl
  | call call =>
    cases call with
    | challenge => rfl
    | resolve => rfl
    | claim claimer =>
      dsimp only
      split_ifs
      · exact returned_of_failure (hidle _ hact)
      · rfl

theorem earnedBy_idle
    (hidle : ∀ call, t.act = .call call → failure call.body t.env st ≠ none) :
    earnedBy c st t = 0 := by
  unfold earnedBy
  cases hact : t.act with
  | elsewhere rest => rfl
  | call call =>
    cases call with
    | challenge => rfl
    | claim => rfl
    | resolve id isValid => exact if_neg (hidle _ hact)

theorem rewardOf_resolved (ch : Challenge) (isValid : Bool) :
    rewardOf c (some (resolved ch isValid)) =
      if ch.challenger = c then if isValid then ch.reward else 0 else 0 := by
  cases isValid <;> simp [rewardOf,resolved]

/-- What is claimed and what the rewards are worth afterwards come from what they were worth before
and what is earned. -/
theorem claimed_add_worth_le (htyped : Typed st) :
    claimedBy c st t + worth ((execChallenge st t).challengerRewards c) ≤
      worth (st.challengerRewards c) + earnedBy c st t := by
  cases execChallenge_effect st t with
  | idle hbook hrewards _ hidle =>
    rw [claimedBy_idle hidle,earnedBy_idle hidle,hrewards]
    omega
  | opened challenger asset expectedPrice proofData hact hchecks hbook hrewards =>
    unfold claimedBy earnedBy
    rw [hact,hrewards]
    dsimp only
    omega
  | resolved id isValid ch hact hchecks hbook hrewards =>
    obtain ⟨hpos,hprice⟩ := htyped.prices id ch hchecks.stored
    have hearned : earnedBy c st t =
        if ch.challenger = c then if isValid then ch.reward else 0 else 0 := by
      rw [← rewardOf_resolved,earnedBy,hact]
      dsimp only
      rw [if_pos (resolveChallenge_succeeds hchecks),hbook,withResolution_challenge,
        Function.update_self]
    have hclaimed : claimedBy c st t = 0 := by rw [claimedBy,hact]
    rw [hclaimed,hearned,hrewards c]
    by_cases hc : ch.challenger = c
    · subst hc
      rw [if_pos rfl,if_pos rfl]
      have hworth := worth_rewardsAfter isValid (htyped.rewards ch.challenger) hpos hprice
      omega
    · rw [if_neg (Ne.symm hc),if_neg hc]
      omega
  | claimed claimer hact hbook hrewards =>
    have hearned : earnedBy c st t = 0 := by rw [earnedBy,hact]
    have hclaimed : claimedBy c st t =
        if claimer = c then returned (claimRewards claimer) t.env st else 0 := by
      rw [claimedBy,hact]
    have hworth := worth_nonneg (htyped.rewards c)
    rw [hclaimed,hearned,hrewards c]
    by_cases hc : claimer = c
    · subst hc
      unfold worth at hworth ⊢
      rcases returned_of_claimed t.env st claimer with h | h
      · split_ifs at hworth ⊢ <;> omega
      · split_ifs at hworth ⊢ <;> omega
    · rw [if_neg hc,if_neg (Ne.symm hc)]
      omega

end Totals

section Once

variable {st : Store} {t : ChallengeTx} {id : Nat}

def Resolves (id : Nat) (st : Store) (t : ChallengeTx) : Prop :=
  ∃ isValid, t.act = .call (.resolve id isValid) ∧ ∃ ch, Resolvable t.env st id ch

/-- The step stores a new challenge under `id`. -/
def Stores (id : Nat) (st : Store) (t : ChallengeTx) : Prop :=
  ∃ challenger asset expectedPrice proofData,
    t.act = .call (.challenge challenger asset expectedPrice proofData) ∧
      Challengeable t.env st challenger asset expectedPrice ∧ st.challenges.nextId = id

/-- Between two resolutions under one number a new challenge is stored there. -/
def ResolvedOnce (st : Store) (ts : List ChallengeTx) : Prop :=
  ∀ id pre t mid u post, ts = pre ++ t :: (mid ++ u :: post) →
    Resolves id (run execChallenge st pre) t →
    Resolves id (run execChallenge st (pre ++ t :: mid)) u →
      ∃ x ∈ steps execChallenge (run execChallenge st (pre ++ [t])) mid, Stores id x.1 x.2

/-- A resolved challenge is stored under the number. -/
def Settled (id : Nat) (st : Store) : Prop :=
  ∃ ch, st.challenges.challenge id = some ch ∧ ch.isResolved = true

theorem Resolves.settled (h : Resolves id st t) : Settled id (execChallenge st t) := by
  obtain ⟨isValid,hact,ch,hchecks⟩ := h
  cases execChallenge_effect st t with
  | idle _ _ _ hidle => exact (hidle _ hact (resolveChallenge_succeeds hchecks)).elim
  | opened _ _ _ _ hact' => rw [hact] at hact'; cases hact'
  | claimed _ hact' => rw [hact] at hact'; cases hact'
  | resolved id' isValid' ch' hact' _ hbook _ =>
    rw [hact] at hact'
    cases hact'
    refine ⟨resolved ch' isValid,?_,rfl⟩
    rw [hbook,withResolution_challenge,Function.update_self]

theorem Settled.step (h : Settled id st) (hno : ¬Stores id st t) :
    Settled id (execChallenge st t) := by
  obtain ⟨ch,hch,hresolved⟩ := h
  cases execChallenge_effect st t with
  | idle hbook => exact ⟨ch,by rw [hbook,hch],hresolved⟩
  | claimed _ _ hbook => exact ⟨ch,by rw [hbook,hch],hresolved⟩
  | opened challenger asset expectedPrice proofData hact hchecks hbook =>
    have hne : id ≠ st.challenges.nextId := by
      rintro rfl
      exact hno ⟨challenger,asset,expectedPrice,proofData,hact,hchecks,rfl⟩
    refine ⟨ch,?_,hresolved⟩
    rw [hbook,withChallenge_challenge,Function.update_of_ne hne,hch]
  | resolved id' isValid ch' _ _ hbook =>
    by_cases hid : id = id'
    · subst hid
      refine ⟨resolved ch' isValid,?_,rfl⟩
      rw [hbook,withResolution_challenge,Function.update_self]
    · refine ⟨ch,?_,hresolved⟩
      rw [hbook,withResolution_challenge,Function.update_of_ne hid,hch]

theorem Resolves.not_settled (h : Resolves id st t) : ¬Settled id st := by
  obtain ⟨_,_,ch,hchecks⟩ := h
  rintro ⟨ch',hch',hresolved⟩
  rw [hchecks.stored,Option.some.injEq] at hch'
  subst hch'
  exact absurd (hchecks.unresolved.symm.trans hresolved) (by decide)

theorem resolved_once (st : Store) (ts : List ChallengeTx) : ResolvedOnce st ts := by
  rintro id pre t mid u post rfl hfirst hsecond
  by_contra hnone
  have hstart : Settled id (run execChallenge st (pre ++ [t])) := by
    rw [run_concat]
    exact hfirst.settled
  have hend := (steps_satisfy (P := fun _ _ => True) (C := fun s t => ¬Stores id s t)
    (fun s t hs ht => ⟨trivial,hs.step ht⟩) hstart fun x hx hstores => hnone ⟨x,hx,hstores⟩).2
  rw [← run_append,List.append_assoc,List.singleton_append] at hend
  exact hsecond.not_settled hend

end Once

section Runs

/-- Nobody has challenged anything yet. -/
structure Fresh (st : Store) : Prop where
  challenge : ∀ id, st.challenges.challenge id = none
  challengerOpen : ∀ c, st.challenges.challengerOpenCount c = none
  assetOpen : ∀ a, st.challenges.assetOpenChallenges a = none
  rewards : ∀ c, st.custody.challengerRewards c = none

variable {st : Store}

theorem Fresh.sound (h : Fresh st) : Sound st := by
  refine ⟨counted_empty h.challengerOpen h.challenge,counted_empty h.assetOpen h.challenge,
    fun c => ?_,fun a => ?_,fun c => ?_⟩
  · rw [readU32,h.challengerOpen c]
    exact Nat.zero_le _
  · rw [readU32,h.assetOpen a]
    exact Nat.zero_le _
  · rw [Store.challengerRewards,h.rewards c]
    exact le_refl 0

theorem Fresh.typed (h : Fresh st) : Typed st := by
  refine ⟨fun c => ?_,fun id ch hch => ?_⟩
  · rw [Store.challengerRewards,h.rewards c]
    exact ⟨by decide,by decide⟩
  · rw [h.challenge id] at hch
    cases hch

theorem claimed_le_earned (ts : List ChallengeTx) (c : Address) (hst : Fresh st)
    (htyped : ∀ t ∈ ts, t.Typed) :
    total execChallenge (claimedBy c) st ts ≤ total execChallenge (earnedBy c) st ts := by
  have hpotential : total execChallenge (claimedBy c) st ts +
      worth ((run execChallenge st ts).challengerRewards c) ≤
        worth (st.challengerRewards c) + total execChallenge (earnedBy c) st ts :=
    total_le_of_potential (I := Typed) (C := fun _ t => t.Typed)
      (V := fun s => worth (s.challengerRewards c))
      (fun s t hs ht => ⟨hs.step ht,claimed_add_worth_le hs⟩) hst.typed
      fun x hx => htyped x.2 (snd_mem_of_mem_steps hx)
  have hend : Typed (run execChallenge st ts) :=
    (steps_satisfy (P := fun _ _ => True) (C := fun _ t => t.Typed)
      (fun s t hs ht => ⟨trivial,hs.step ht⟩) hst.typed
      fun x hx => htyped x.2 (snd_mem_of_mem_steps hx)).2
  have hnonneg := worth_nonneg (hend.rewards c)
  have hzero : worth (st.challengerRewards c) = 0 := by
    rw [Store.challengerRewards,hst.rewards c]
    rfl
  omega

/-- From a contract without challenges, a run keeps the counters and the rewards right in every state,
resolves each challenge once and pays each challenger no more than was earned, exactly if each of its
steps is clean. -/
theorem challenges_sound_iff (ts : List ChallengeTx) (hst : Fresh st)
    (htyped : ∀ t ∈ ts, t.Typed) :
    (∀ x ∈ steps execChallenge st ts, Sound (execChallenge x.1 x.2)) ∧ ResolvedOnce st ts ∧
      (∀ c, total execChallenge (claimedBy c) st ts ≤ total execChallenge (earnedBy c) st ts) ↔
      ∀ x ∈ steps execChallenge st ts, Clean x.1 x.2 := by
  have hsteps : (∀ x ∈ steps execChallenge st ts, Sound (execChallenge x.1 x.2)) ↔
      ∀ x ∈ steps execChallenge st ts, Clean x.1 x.2 :=
    steps_iff_while (I := fun s => Sound s ∧ Typed s) (P := fun s t => Sound (execChallenge s t))
      (fun t ht s hs hP => ⟨hP,hs.2.step (htyped t ht)⟩)
      (fun t _ s hs => execChallenge_sound_iff hs.1 hs.2) ⟨hst.sound,hst.typed⟩
  rw [hsteps]
  exact and_iff_left ⟨resolved_once st ts,fun c => claimed_le_earned ts c hst htyped⟩

end Runs

section Overflow

/-- A challenge of asset 10 by 5, at the highest price there is. -/
def greedy : ChallengeTx := ⟨.concrete 100 5 [5], .call (.challenge 5 10 i128Max [])⟩

def accepted (id : Nat) : ChallengeTx := ⟨.concrete 100 5 [9], .call (.resolve id true)⟩

/-- Challenges that are resolved as valid one after the other. -/
def rounds : Nat → List ChallengeTx
  | 0 => []
  | n + 1 => rounds n ++ [greedy, accepted (n + 1)]

def challengeStore : Store where
  config := { admin := some 9 }
  registry := { assetRegistered := fun a => if a = 10 then some true else none }

theorem challengeStore_fresh : Fresh challengeStore :=
  ⟨fun _ => rfl,fun _ => rfl,fun _ => rfl,fun _ => rfl⟩

theorem greedy_typed : greedy.Typed := by
  rintro _ _ _ _ ⟨⟩
  exact le_refl i128Max

theorem accepted_typed (id : Nat) : (accepted id).Typed := by
  rintro _ _ _ _ ⟨⟩

theorem rounds_typed (n : Nat) : ∀ t ∈ rounds n, t.Typed := by
  induction n with
  | zero => simp [rounds]
  | succ n ih =>
    rw [rounds,List.forall_mem_append]
    simp only [List.forall_mem_cons]
    exact ⟨ih,greedy_typed,accepted_typed (n+1),by simp⟩

/-- Nothing is open after `n` rounds. -/
structure Ready (n : Nat) (st : Store) : Prop where
  admin : st.config.admin = some 9
  registered : st.isRegisteredAsset 10 = true
  strikes : readU32 st.challenges.challengerStrikes 5 = 0
  challengerOpen : readU32 st.challenges.challengerOpenCount 5 = 0
  assetOpen : readU32 st.challenges.assetOpenChallenges 10 = 0
  count : st.challenges.count.getD 0 = n

def greedyRecord (n : Nat) : Challenge := .opened (n + 1) 10 5 i128Max [] 100

variable {n : Nat} {st : Store}

theorem Ready.nextId (h : Ready n st) (hn : n < u32Max) : st.challenges.nextId = n+1 := by
  rw [Challenges.nextId,h.count,wrap32_succ hn]

theorem Ready.challenge (h : Ready n st) (hn : n < u32Max) :
    let st' := execChallenge st greedy
    st'.config.admin = some 9 ∧ st'.isRegisteredAsset 10 = true ∧
      st'.challengerRewards 5 = st.challengerRewards 5 ∧
      st'.challenges = withChallenge st.challenges greedy.env 5 10 i128Max [] ∧
      st'.challenges.challenge (n+1) = some (greedyRecord n) := by
  intro st'
  have hchecks : Challengeable greedy.env st 5 10 i128Max :=
    ⟨rfl,h.registered,by decide,by rw [h.strikes]; decide,by rw [h.challengerOpen]; decide,
      by rw [h.assetOpen]; decide⟩
  have hsat : Sat (challengePrice 5 10 i128Max []) (World.enter greedy.env st) fun _ w =>
      w.store.config.admin = some 9 ∧ w.store.isRegisteredAsset 10 = true ∧
        w.store.challengerRewards 5 = st.challengerRewards 5 ∧
        w.store.challenges = withChallenge st.challenges greedy.env 5 10 i128Max [] := by
    refine challengePrice_sat.mono ?_
    rintro _ w ⟨_,hbook,hframe⟩
    have hconfig : w.store.config = st.config := hframe .config (by simp)
    have hregistry : w.store.isRegisteredAsset = st.isRegisteredAsset :=
      congrArg Prod.fst (hframe .registry (by simp))
    have hcustody : w.store.custody = st.custody := hframe .custody (by simp)
    refine ⟨hconfig ▸ h.admin,hregistry ▸ h.registered,?_,hbook⟩
    rw [Store.challengerRewards,hcustody,Store.challengerRewards]
  obtain ⟨hadmin,hregistered,hrewards,hbook⟩ := invoke_of_success
    (Q := fun u => u.config.admin = some 9 ∧ u.isRegisteredAsset 10 = true ∧
      u.challengerRewards 5 = st.challengerRewards 5 ∧
      u.challenges = withChallenge st.challenges greedy.env 5 10 i128Max [])
    (challengePrice_succeeds hchecks) hsat
  change st'.challenges = _ at hbook
  refine ⟨hadmin,hregistered,hrewards,hbook,?_⟩
  rw [hbook,withChallenge_challenge,h.nextId hn,Function.update_self]
  rfl

theorem Ready.round (h : Ready n st) (hn : n < u32Max) :
    let st' := execChallenge (execChallenge st greedy) (accepted (n+1))
    Ready (n+1) st' ∧
      st'.challengerRewards 5 = wrapAdd (st.challengerRewards 5) (greedyRecord n).reward := by
  intro st'
  obtain ⟨hadmin,hregistered,hrewards,hbook,hstored⟩ := h.challenge hn
  generalize hmid : execChallenge st greedy = mid at hadmin hregistered hrewards hbook hstored
  have hchecks : Resolvable (accepted (n+1)).env mid (n+1) (greedyRecord n) :=
    ⟨⟨9,hadmin,rfl⟩,hstored,rfl⟩
  have hsat : Sat (resolveChallenge (n+1) true) (World.enter (accepted (n+1)).env mid)
      fun _ w => w.store.config.admin = some 9 ∧ w.store.isRegisteredAsset 10 = true ∧
        w.store.challenges = withResolution mid.challenges (n+1) (greedyRecord n) true ∧
        w.store.challengerRewards 5 =
          wrapAdd (mid.challengerRewards 5) (greedyRecord n).reward := by
    refine (resolveChallenge_sat _ _).mono ?_
    rintro _ w ⟨ch,hch,hbook',hrewards',hframe⟩
    have hsame : ch = greedyRecord n := by
      rw [← Option.some.injEq,← hch.stored,hstored]
    subst hsame
    have hconfig : w.store.config = mid.config := hframe .config (by simp)
    have hregistry : w.store.isRegisteredAsset = mid.isRegisteredAsset :=
      congrArg Prod.fst (hframe .registry (by simp))
    exact ⟨hconfig ▸ hadmin,hregistry ▸ hregistered,hbook',hrewards' 5⟩
  obtain ⟨hadmin',hregistered',hbook',hrewards'⟩ := invoke_of_success
    (Q := fun u => u.config.admin = some 9 ∧ u.isRegisteredAsset 10 = true ∧
      u.challenges = withResolution mid.challenges (n+1) (greedyRecord n) true ∧
      u.challengerRewards 5 = wrapAdd (mid.challengerRewards 5) (greedyRecord n).reward)
    (resolveChallenge_succeeds hchecks) hsat
  rw [← hmid] at hadmin' hregistered' hbook' hrewards'
  change st'.challenges = _ at hbook'
  rw [hmid,hbook] at hbook'
  change st'.challengerRewards 5 = _ at hrewards'
  rw [hmid,hrewards] at hrewards'
  refine ⟨⟨hadmin',hregistered',?_,?_,?_,?_⟩,hrewards'⟩
  · rw [hbook']
    exact h.strikes
  · rw [hbook']
    simp [withResolution,withChallenge,greedyRecord,Challenge.opened,h.challengerOpen]
  · rw [hbook']
    simp [withResolution,withChallenge,greedyRecord,Challenge.opened,h.assetOpen]
  · rw [hbook']
    exact h.nextId hn

theorem rounds_rewards (hn : n ≤ 1000) :
    Ready n (run execChallenge challengeStore (rounds n)) ∧
      (run execChallenge challengeStore (rounds n)).challengerRewards 5 =
        n * (i128Max / 1000) := by
  induction n with
  | zero => exact ⟨⟨rfl,rfl,rfl,rfl,rfl,rfl⟩,rfl⟩
  | succ n ih =>
    obtain ⟨hready,hrewards⟩ := ih (by omega)
    obtain ⟨hnext,hadd⟩ := hready.round (lt_of_lt_of_le (by omega : n < 1000) (by decide))
    rw [rounds,run_append,run_cons,run_cons,run_nil]
    refine ⟨hnext,hadd.trans ?_⟩
    have hreward : (greedyRecord n).reward = i128Max / 1000 := rfl
    rw [hrewards,hreward,wrapAdd,wrap,i128Max]
    omega

/-- The reward of the thousand-and-first valid challenge turns the rewards negative. -/
theorem rewards_overflow :
    Fresh challengeStore ∧ (∀ t ∈ rounds 1001, t.Typed) ∧
      (run execChallenge challengeStore (rounds 1001)).challengerRewards 5 < 0 ∧
      ¬((∀ x ∈ steps execChallenge challengeStore (rounds 1001), Sound (execChallenge x.1 x.2)) ∧
        ResolvedOnce challengeStore (rounds 1001) ∧
        ∀ c, total execChallenge (claimedBy c) challengeStore (rounds 1001) ≤
          total execChallenge (earnedBy c) challengeStore (rounds 1001)) := by
  obtain ⟨hready,hrewards⟩ := rounds_rewards (le_refl 1000)
  obtain ⟨-,hadd⟩ := hready.round (by decide)
  have hnegative : (run execChallenge challengeStore (rounds 1001)).challengerRewards 5 < 0 := by
    rw [rounds,run_append,run_cons,run_cons,run_nil]
    refine lt_of_eq_of_lt hadd ?_
    rw [hrewards]
    decide
  refine ⟨challengeStore_fresh,rounds_typed 1001,hnegative,fun h => ?_⟩
  have hsound := (steps_satisfy (P := fun _ _ => True) (I := Sound)
    (C := fun s t => Sound (execChallenge s t)) (fun _ _ _ ht => ⟨trivial,ht⟩)
    challengeStore_fresh.sound h.1).2
  exact absurd hnegative (not_lt.2 (hsound.rewards 5))

/-- A challenge that is resolved as valid, one that is not, and a claim. -/
def settledRun : List ChallengeTx :=
  [greedy, accepted 1, greedy, ⟨.concrete 101 6 [9], .call (.resolve 2 false)⟩,
    ⟨.concrete 102 7 [5], .call (.claim 5)⟩]

theorem settledRun_sound :
    ((∀ x ∈ steps execChallenge challengeStore settledRun, Sound (execChallenge x.1 x.2)) ∧
      ResolvedOnce challengeStore settledRun ∧
      ∀ c, total execChallenge (claimedBy c) challengeStore settledRun ≤
        total execChallenge (earnedBy c) challengeStore settledRun) ↔
      ∀ x ∈ steps execChallenge challengeStore settledRun, Clean x.1 x.2 :=
  challenges_sound_iff settledRun challengeStore_fresh (by
    simp only [settledRun,List.forall_mem_cons]
    exact ⟨greedy_typed,accepted_typed 1,greedy_typed,nofun,nofun,by simp⟩)

end Overflow

end PriceOracle.Challenges
