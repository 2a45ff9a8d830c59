import PriceOracle.Lib.Counting
import PriceOracle.Model.Challenges
import PriceOracle.Model.Invocation

/-! # What a challenge call does

Each call checks a predicate of the state before it and, where that holds, goes through with one
effect on the book of challenges and on the rewards. -/

namespace PriceOracle.Challenges

open Model Lib.Transaction Lib.MachineInt

section Opening

variable {env : Env} {st : Store} {challenger asset : Address} {expectedPrice : Int}
  {proofData : Bytes}

/-- What `challenge_price` checks. -/
structure Challengeable (env : Env) (st : Store) (challenger asset : Address)
    (expectedPrice : Int) : Prop where
  signed : env.authorized challenger = true
  registered : st.isRegisteredAsset asset = true
  price : 0 < expectedPrice
  strikes : readU32 st.challenges.challengerStrikes challenger < maxChallengerStrikes
  challengerOpen :
    readU32 st.challenges.challengerOpenCount challenger < maxOpenChallengesPerChallenger
  assetOpen : readU32 st.challenges.assetOpenChallenges asset < maxOpenChallengesPerAsset

/-- The book with one more challenge. -/
def withChallenge (book : Model.Challenges) (env : Env) (challenger asset : Address)
    (expectedPrice : Int) (proofData : Bytes) : Model.Challenges :=
  { book with
    challengerOpenCount := writeU32 book.challengerOpenCount challenger
      (readU32 book.challengerOpenCount challenger + 1)
    assetOpenChallenges := writeU32 book.assetOpenChallenges asset
      (readU32 book.assetOpenChallenges asset + 1)
    challenge := Function.update book.challenge book.nextId
      (some (.opened book.nextId asset challenger expectedPrice proofData env.sequence))
    count := some book.nextId }

@[simp] theorem withChallenge_challenge (book : Model.Challenges) :
    (withChallenge book env challenger asset expectedPrice proofData).challenge =
      Function.update book.challenge book.nextId
        (some (.opened book.nextId asset challenger expectedPrice proofData env.sequence)) :=
  rfl

theorem challengePrice_frame :
    Frame [.auths,.challenges] (challengePrice challenger asset expectedPrice proofData) := by
  refine ((requireAuth_frame challenger).mono (by simp)).bind fun _ => ?_
  refine (checkRegisteredAsset_frame asset).bind fun _ => .check fun _ => ?_
  refine .read fun _ => .check fun _ => ?_
  refine .read fun _ => .read fun _ => ?_
  refine .check fun _ => ?_
  refine ((modifyChallenges_frame _).mono (by simp)).bind fun _ => .read fun _ => ?_
  exact (modifyChallenges_frame _).mono (by simp)

theorem challengePrice_sat :
    Sat (challengePrice challenger asset expectedPrice proofData) (World.enter env st) fun _ w =>
      Challengeable env st challenger asset expectedPrice ∧
        w.store.challenges =
          withChallenge st.challenges env challenger asset expectedPrice proofData ∧
        layout.agreeOff [.auths,.challenges] (World.enter env st) w := by
  have hbook : Sat (challengePrice challenger asset expectedPrice proofData) (World.enter env st)
      fun _ w => Challengeable env st challenger asset expectedPrice ∧ w.store.challenges =
        withChallenge st.challenges env challenger asset expectedPrice proofData := by
    simp only [challengePrice,sat_bind,sat_requireAuth]
    intro hsigned
    refine (checkRegisteredAsset_sat asset _).mono ?_
    rintro _ u ⟨hregistered,hagree⟩
    have hchallenges : u.store.challenges = st.challenges := hagree .challenges (by simp)
    have henv : u.env = env := hagree .env (by simp)
    simp only [sat_ensure,sat_readStore,modifyChallenges,sat_update,sat_getSequence,
      hchallenges,henv]
    intro hprice hstrikes hopen
    exact ⟨⟨hsigned,hregistered,hprice,hstrikes,hopen.1,hopen.2⟩,rfl⟩
  refine (hbook.and (challengePrice_frame (World.enter env st))).mono ?_
  rintro _ w ⟨⟨hchecks,hw⟩,hframe⟩
  exact ⟨hchecks,hw,hframe⟩

theorem challengePrice_succeeds (h : Challengeable env st challenger asset expectedPrice) :
    failure (challengePrice challenger asset expectedPrice proofData) env st = none := by
  refine succeeds_of_no_failure ?_
  simp only [challengePrice,fails_bind,fails_requireAuth,sat_requireAuth]
  refine ⟨fun hno => ?_,fun _ => ⟨?_,?_⟩⟩
  · exact absurd (h.signed.symm.trans hno) (by decide)
  · refine (checkRegisteredAsset_fails asset _).mono fun _ _ hunknown => ?_
    exact absurd (h.registered.symm.trans hunknown.2) (by decide)
  · refine (checkRegisteredAsset_sat asset _).mono ?_
    rintro _ u ⟨_,hagree⟩
    have hbook : u.store.challenges = st.challenges := hagree .challenges (by simp)
    simp [hbook,h.price,h.strikes,h.challengerOpen,h.assetOpen]

end Opening

section Resolution

variable {env : Env} {st : Store} {id : Nat} {isValid : Bool}

/-- What `resolve_challenge` checks. -/
structure Resolvable (env : Env) (st : Store) (id : Nat) (challenge : Challenge) : Prop where
  signed : AdminSigned env st
  stored : st.challenges.challenge id = some challenge
  unresolved : challenge.isResolved = false

def resolved (challenge : Challenge) (isValid : Bool) : Challenge :=
  { challenge with
    isResolved := true
    isValid := isValid
    rewardAmount := if isValid then challenge.reward else challenge.rewardAmount }

/-- The strikes of a challenger after a resolution. -/
def strikesAfter (strikes : Map Address Nat) (challenger : Address) (isValid : Bool) :
    Map Address Nat :=
  if isValid then strikes
  else writeU32 strikes challenger (wrap32 (readU32 strikes challenger + 1))

/-- The book with one challenge resolved. -/
def withResolution (book : Model.Challenges) (id : Nat) (challenge : Challenge) (isValid : Bool) :
    Model.Challenges :=
  { book with
    challengerOpenCount := writeU32 book.challengerOpenCount challenge.challenger
      (readU32 book.challengerOpenCount challenge.challenger - 1)
    assetOpenChallenges := writeU32 book.assetOpenChallenges challenge.asset
      (readU32 book.assetOpenChallenges challenge.asset - 1)
    challengerStrikes := strikesAfter book.challengerStrikes challenge.challenger isValid
    challenge := Function.update book.challenge id (some (resolved challenge isValid)) }

@[simp] theorem withResolution_challenge (book : Model.Challenges) (challenge : Challenge) :
    (withResolution book id challenge isValid).challenge =
      Function.update book.challenge id (some (resolved challenge isValid)) :=
  rfl

/-- The rewards of the challenger after a resolution. -/
def rewardsAfter (rewards : Int) (challenge : Challenge) (isValid : Bool) : Int :=
  if isValid then wrapAdd rewards challenge.reward
  else max (wrapSub rewards challenge.penalty) 0

theorem challengerRewards_update (m : Map Address Int) (challenger other : Address) (x : Int) :
    (Function.update m challenger (some x) other).getD 0 =
      if other = challenger then x else (m other).getD 0 := by
  by_cases h : other = challenger
  · subst h
    rw [Function.update_self,if_pos rfl,Option.getD_some]
  · rw [Function.update_of_ne h,if_neg h]

theorem resolveChallenge_sat (id : Nat) (isValid : Bool) :
    Sat (resolveChallenge id isValid) (World.enter env st) fun _ w =>
      ∃ challenge, Resolvable env st id challenge ∧
        w.store.challenges = withResolution st.challenges id challenge isValid ∧
        (∀ c, w.store.challengerRewards c = if c = challenge.challenger then
          rewardsAfter (st.challengerRewards challenge.challenger) challenge isValid
          else st.challengerRewards c) ∧
        layout.agreeOff [.auths,.challenges,.custody] (World.enter env st) w := by
  rw [resolveChallenge,sat_asAdmin]
  intro admin hadmin hsigned
  rw [sat_bind]
  refine (sat_lookup (o := st.challenges.challenge id) ?_).mono ?_
  · dsimp only [authorizedBy_store,World.enter]
    cases st.challenges.challenge id <;> rfl
  rintro challenge w ⟨hstored,rfl⟩
  simp only [sat_bind,sat_ensure,modifyChallenges,sat_update,sat_readStore]
  intro hopen
  have hresolvable : Resolvable env st id challenge := ⟨⟨admin,hadmin,hsigned⟩,hstored,hopen⟩
  refine sat_ite _ (fun hvalid => ?_) fun hinvalid => ?_
  · subst hvalid
    simp only [writeChallengerRewards,sat_bind,modifyCustody,sat_update]
    refine ⟨challenge,hresolvable,rfl,fun c => challengerRewards_update _ _ _ _,fun r hr => ?_⟩
    cases r <;> first | rfl | simp at hr
  · have hfalse : isValid = false := by simpa using hinvalid
    subst hfalse
    simp only [writeChallengerRewards,sat_bind,modifyCustody,sat_update]
    refine ⟨challenge,hresolvable,rfl,fun c => challengerRewards_update _ _ _ _,fun r hr => ?_⟩
    cases r <;> first | rfl | simp at hr

theorem resolveChallenge_succeeds {challenge : Challenge} (h : Resolvable env st id challenge) :
    failure (resolveChallenge id isValid) env st = none := by
  refine succeeds_of_no_failure (fails_asAdmin_signed h.signed fun admin => ?_)
  simp only [foundChallenge,fails_bind,fails_consult,sat_consult,authorizedBy_store,
    World.enter,h.stored]
  refine ⟨by simp,fun found hfound => ?_⟩
  obtain rfl : challenge = found := by simpa using hfound
  cases isValid <;> simp [h.unresolved,writeChallengerRewards]

end Resolution

section Claiming

variable {env : Env} {st : Store} {claimer : Address}

theorem claimRewards_sat :
    Sat (claimRewards claimer) (World.enter env st) fun amount w =>
      amount = st.challengerRewards claimer ∧ w.store.challenges = st.challenges ∧
        ∀ c, w.store.challengerRewards c = if c = claimer then 0 else st.challengerRewards c := by
  simp only [claimRewards,sat_bind,sat_requireAuth,sat_readStore]
  intro _
  refine sat_ite _ (fun hzero => ?_) fun _ => ?_
  · rw [sat_pure]
    refine ⟨hzero.symm,rfl,fun c => ?_⟩
    split_ifs with hc
    · rw [hc]
      exact hzero
    · rfl
  · simp only [sat_bind,modifyCustody,sat_update,sat_pure]
    refine ⟨rfl,rfl,fun c => ?_⟩
    by_cases hc : c = claimer
    · subst hc
      simp [Store.challengerRewards]
    · simp [Store.challengerRewards,hc,World.enter]

end Claiming

end PriceOracle.Challenges

/-! ## The challenges and what is counted of them

The counters agree with the unresolved challenges that are stored, and no rewards are negative, as
long as no challenge is stored over an unresolved one and no reward overflows a balance. -/

namespace PriceOracle.Challenges

open Model Lib.Transaction Lib.MachineInt Lib.Tally

section Counters

variable {key : Challenge → Address} {count : Map Address Nat} {table : Map Nat Challenge}

/-- The unresolved challenges of one address, as `key` attributes them. -/
def Open (key : Challenge → Address) (k : Address) (challenge : Challenge) : Prop :=
  challenge.isResolved = false ∧ key challenge = k

/-- A counter for each address equals the number of unresolved challenges stored for it. -/
def Counted (key : Challenge → Address) (count : Map Address Nat) (table : Map Nat Challenge) :
    Prop :=
  ∀ k, (readU32 count k : ℕ∞) = tally table (Open key k)

theorem mem_entries_iff {id : Nat} {k : Address} {old : Challenge} (h : table id = some old) :
    id ∈ entries table (Open key k) ↔ Open key k old := by
  constructor
  · rintro ⟨b,hb,hopen⟩
    rw [h,Option.some.injEq] at hb
    exact hb ▸ hopen
  · exact fun hopen => ⟨old,h,hopen⟩

/-- A new challenge is counted right exactly if it is not stored over an unresolved one. -/
theorem counted_open_iff {id : Nat} {new : Challenge} (h : Counted key count table)
    (hnew : new.isResolved = false) :
    Counted key (writeU32 count (key new) (readU32 count (key new) + 1))
      (Function.update table id (some new)) ↔
        ∀ old, table id = some old → old.isResolved = true := by
  constructor
  · intro hcounted old hold
    rw [← Bool.not_eq_false]
    intro hunresolved
    have hopen : Open key (key old) old := ⟨hunresolved,rfl⟩
    have hwrite := tally_update table (Open key (key old)) id new
    rw [if_pos ((mem_entries_iff hold).2 hopen),← hcounted,← h,readU32_writeU32] at hwrite
    by_cases hkey : key new = key old
    · rw [if_pos hkey.symm,if_pos ⟨hnew,hkey⟩,hkey] at hwrite
      norm_cast at hwrite
      omega
    · rw [if_neg (Ne.symm hkey),if_neg fun hP => hkey hP.2] at hwrite
      norm_cast at hwrite
      omega
  · intro hresolved k
    have hfree : id ∉ entries table (Open key k) := by
      rintro ⟨old,hold,hopen⟩
      exact absurd ((hresolved old hold).symm.trans hopen.1) (by decide)
    have hwrite := tally_update table (Open key k) id new
    rw [if_neg hfree,add_zero,← h] at hwrite
    rw [hwrite,readU32_writeU32]
    by_cases hkey : key new = k
    · rw [if_pos hkey.symm,if_pos ⟨hnew,hkey⟩,hkey]
      norm_cast
    · rw [if_neg (Ne.symm hkey),if_neg fun hP => hkey hP.2,add_zero]

/-- A resolution is counted right. -/
theorem Counted.resolve {id : Nat} {old new : Challenge} (h : Counted key count table)
    (hold : table id = some old) (hunresolved : old.isResolved = false)
    (hnew : new.isResolved = true) :
    Counted key (writeU32 count (key old) (readU32 count (key old) - 1))
      (Function.update table id (some new)) := by
  intro k
  have hwrite := tally_update table (Open key k) id new
  have hnot : ¬Open key k new := fun hopen => absurd (hnew.symm.trans hopen.1) (by decide)
  rw [if_neg hnot,add_zero,← h] at hwrite
  rw [readU32_writeU32]
  by_cases hkey : key old = k
  · rw [if_pos ((mem_entries_iff hold).2 ⟨hunresolved,hkey⟩)] at hwrite
    rw [if_pos hkey.symm,hkey]
    generalize tally (Function.update table id (some new)) (Open key k) = n at hwrite ⊢
    cases n with
    | top => simp at hwrite
    | coe n =>
      norm_cast at hwrite ⊢
      omega
  · rw [if_neg fun hmem => hkey ((mem_entries_iff hold).1 hmem).2,add_zero] at hwrite
    rw [if_neg (Ne.symm hkey),hwrite]

theorem counted_empty (hcount : ∀ k, count k = none) (htable : ∀ id, table id = none) :
    Counted key count table := by
  intro k
  rw [tally_eq_zero htable,readU32,hcount k]
  rfl

end Counters

section Soundness

/-- Both counters are right and bounded, and no rewards are negative. -/
structure Sound (st : Store) : Prop where
  byChallenger : Counted (·.challenger) st.challenges.challengerOpenCount st.challenges.challenge
  byAsset : Counted (·.asset) st.challenges.assetOpenChallenges st.challenges.challenge
  challengerBound : ∀ c,
    readU32 st.challenges.challengerOpenCount c ≤ maxOpenChallengesPerChallenger
  assetBound : ∀ a, readU32 st.challenges.assetOpenChallenges a ≤ maxOpenChallengesPerAsset
  rewards : ∀ c, 0 ≤ st.challengerRewards c

/-- The rewards and the prices are words. -/
structure Typed (st : Store) : Prop where
  rewards : ∀ c, IsI128 (st.challengerRewards c)
  prices : ∀ id ch, st.challenges.challenge id = some ch → 0 < ch.expectedPrice ∧
    ch.expectedPrice ≤ i128Max

theorem reward_bounds {ch : Challenge} (hpos : 0 < ch.expectedPrice)
    (hmax : ch.expectedPrice ≤ i128Max) : 0 < ch.reward ∧ ch.reward ≤ i128Max / 1000 := by
  unfold Challenge.reward
  rw [Int.tdiv_eq_ediv_of_nonneg hpos.le]
  unfold i128Max at hmax ⊢
  dsimp only
  split_ifs with hbase
  · omega
  · omega

theorem penalty_bounds {ch : Challenge} (hpos : 0 < ch.expectedPrice)
    (hmax : ch.expectedPrice ≤ i128Max) : 0 < ch.penalty ∧ ch.penalty ≤ i128Max / 1000 := by
  unfold Challenge.penalty
  rw [Int.tdiv_eq_ediv_of_nonneg hpos.le]
  unfold i128Max at hmax ⊢
  omega

variable {rewards : Int} {ch : Challenge} {isValid : Bool}

theorem rewardsAfter_isI128 : IsI128 (rewardsAfter rewards ch isValid) := by
  have hadd := isI128_wrap (rewards + ch.reward)
  have hsub := isI128_wrap (rewards - ch.penalty)
  unfold rewardsAfter wrapAdd wrapSub
  unfold IsI128 i128Min i128Max at *
  split_ifs
  · exact hadd
  · omega

theorem rewardsAfter_nonneg_iff (isValid : Bool) (hrewards : 0 ≤ rewards)
    (hmax : rewards ≤ i128Max) (hpos : 0 < ch.expectedPrice) (hprice : ch.expectedPrice ≤ i128Max) :
    0 ≤ rewardsAfter rewards ch isValid ↔
      (isValid = true → rewards + ch.reward ≤ i128Max) := by
  obtain ⟨hreward,hbound⟩ := reward_bounds hpos hprice
  unfold rewardsAfter
  cases isValid with
  | true =>
    rw [if_pos rfl,imp_iff_right rfl]
    unfold wrapAdd wrap i128Max at *
    omega
  | false => simp

/-- What the rewards are worth when an overflow is undone. -/
def worth (rewards : Int) : Int := if rewards < 0 then rewards + 2 ^ 128 else rewards

theorem worth_nonneg (h : IsI128 rewards) : 0 ≤ worth rewards := by
  unfold worth
  unfold IsI128 i128Min at h
  split_ifs <;> omega

/-- A resolution adds at most the reward to what the rewards are worth. -/
theorem worth_rewardsAfter (isValid : Bool) (h : IsI128 rewards) (hpos : 0 < ch.expectedPrice)
    (hprice : ch.expectedPrice ≤ i128Max) :
    worth (rewardsAfter rewards ch isValid) ≤ worth rewards + if isValid then ch.reward else 0 := by
  obtain ⟨hreward,hrewardMax⟩ := reward_bounds hpos hprice
  obtain ⟨hpenalty,hpenaltyMax⟩ := penalty_bounds hpos hprice
  unfold IsI128 i128Min i128Max at h
  unfold i128Max at hrewardMax hpenaltyMax
  unfold rewardsAfter worth
  cases isValid with
  | true =>
    rw [if_pos rfl,if_pos rfl]
    unfold wrapAdd wrap
    split_ifs <;> omega
  | false =>
    simp only [Bool.false_eq_true,if_false]
    unfold wrapSub wrap
    split_ifs <;> omega

end Soundness

section Steps

inductive ChallengeCall
  | challenge (challenger asset : Address) (expectedPrice : Int) (proofData : Bytes)
  | resolve (id : Nat) (isValid : Bool)
  | claim (claimer : Address)

def ChallengeCall.body : ChallengeCall → Contract Unit
  | challenge challenger asset expectedPrice proofData =>
    challengePrice challenger asset expectedPrice proofData
  | resolve id isValid => resolveChallenge id isValid
  | claim claimer => do
    let _ ← claimRewards claimer
    pure ()

/-- A call, or a change elsewhere. -/
inductive ChallengeAct
  | call (call : ChallengeCall)
  | elsewhere (rest : Store)

structure ChallengeTx where
  env : Env
  act : ChallengeAct

def execChallenge (st : Store) (t : ChallengeTx) : Store :=
  match t.act with
  | .call call => invoke call.body t.env st
  | .elsewhere rest =>
    { rest with
      challenges := st.challenges
      custody := { rest.custody with challengerRewards := st.custody.challengerRewards } }

def ChallengeTx.Typed (t : ChallengeTx) : Prop :=
  ∀ challenger asset expectedPrice proofData,
    t.act = .call (.challenge challenger asset expectedPrice proofData) → expectedPrice ≤ i128Max

/-- A challenge that passes its checks is not stored over an unresolved one, and a reward that passes
its checks does not overflow the rewards it is added to. -/
def Clean (st : Store) (t : ChallengeTx) : Prop :=
  match t.act with
  | .call (.challenge challenger asset expectedPrice _) =>
    Challengeable t.env st challenger asset expectedPrice →
      ∀ old, st.challenges.challenge st.challenges.nextId = some old → old.isResolved = true
  | .call (.resolve id isValid) => ∀ ch, Resolvable t.env st id ch → isValid = true →
      st.challengerRewards ch.challenger + ch.reward ≤ i128Max
  | _ => True

/-- What one step does to the book and to the rewards. -/
inductive Effect (st : Store) (t : ChallengeTx) (st' : Store) : Prop
  | idle (hbook : st'.challenges = st.challenges)
    (hrewards : st'.challengerRewards = st.challengerRewards) (hclean : Clean st t)
    (hidle : ∀ call, t.act = .call call → failure call.body t.env st ≠ none)
  | opened (challenger asset : Address) (expectedPrice : Int) (proofData : Bytes)
    (hact : t.act = .call (.challenge challenger asset expectedPrice proofData))
    (hchecks : Challengeable t.env st challenger asset expectedPrice)
    (hbook : st'.challenges =
      withChallenge st.challenges t.env challenger asset expectedPrice proofData)
    (hrewards : st'.challengerRewards = st.challengerRewards)
  | resolved (id : Nat) (isValid : Bool) (ch : Challenge)
    (hact : t.act = .call (.resolve id isValid)) (hchecks : Resolvable t.env st id ch)
    (hbook : st'.challenges = withResolution st.challenges id ch isValid)
    (hrewards : ∀ c, st'.challengerRewards c = if c = ch.challenger then
      rewardsAfter (st.challengerRewards ch.challenger) ch isValid else st.challengerRewards c)
  | claimed (claimer : Address) (hact : t.act = .call (.claim claimer))
    (hbook : st'.challenges = st.challenges)
    (hrewards : ∀ c, st'.challengerRewards c =
      if c = claimer then 0 else st.challengerRewards c)

theorem execChallenge_effect (st : Store) (t : ChallengeTx) : Effect st t (execChallenge st t) := by
  obtain ⟨env,act⟩ := t
  cases act with
  | elsewhere rest => exact .idle rfl rfl trivial (by simp)
  | call call =>
    cases call with
    | challenge challenger asset expectedPrice proofData =>
      change Effect st _ (invoke (challengePrice challenger asset expectedPrice proofData) env st)
      rcases invoke_cases challengePrice_sat with
        ⟨hfail,hstore,-⟩ | ⟨-,w,⟨hchecks,hbook,hframe⟩,hw,-⟩
      · rw [hstore]
        refine .idle rfl rfl (fun hchecks => (hfail (challengePrice_succeeds hchecks)).elim) ?_
        rintro _ ⟨⟩
        exact hfail
      · rw [← hw]
        refine .opened challenger asset expectedPrice proofData rfl hchecks hbook ?_
        have hcustody : w.store.custody = st.custody := hframe .custody (by simp)
        funext c
        rw [Store.challengerRewards,hcustody,Store.challengerRewards]
    | resolve id isValid =>
      change Effect st _ (invoke (resolveChallenge id isValid) env st)
      rcases invoke_cases (resolveChallenge_sat id isValid) with
        ⟨hfail,hstore,-⟩ | ⟨-,w,⟨ch,hchecks,hbook,hrewards,-⟩,hw,-⟩
      · rw [hstore]
        refine .idle rfl rfl (fun ch hchecks => (hfail (resolveChallenge_succeeds hchecks)).elim) ?_
        rintro _ ⟨⟩
        exact hfail
      · rw [← hw]
        exact .resolved id isValid ch rfl hchecks hbook hrewards
    | claim claimer =>
      have hclaim : Sat (ChallengeCall.claim claimer).body (World.enter env st) fun _ w =>
          w.store.challenges = st.challenges ∧ ∀ c, w.store.challengerRewards c =
            if c = claimer then 0 else st.challengerRewards c := by
        rw [ChallengeCall.body,sat_bind]
        exact claimRewards_sat.mono fun amount w hw => (sat_pure _).2 hw.2
      change Effect st _ (invoke (ChallengeCall.claim claimer).body env st)
      rcases invoke_cases hclaim with ⟨hfail,hstore,-⟩ | ⟨-,w,⟨hbook,hrewards⟩,hw,-⟩
      · rw [hstore]
        refine .idle rfl rfl trivial ?_
        rintro _ ⟨⟩
        exact hfail
      · rw [← hw]
        exact .claimed claimer rfl hbook hrewards

variable {st : Store} {t : ChallengeTx}

theorem Typed.step (h : Typed st) (ht : t.Typed) : Typed (execChallenge st t) := by
  cases execChallenge_effect st t with
  | idle hbook hrewards _ _ =>
    refine ⟨?_,?_⟩
    · rw [hrewards]
      exact h.rewards
    · rw [hbook]
      exact h.prices
  | opened challenger asset expectedPrice proofData hact hchecks hbook hrewards =>
    refine ⟨?_,?_⟩
    · rw [hrewards]
      exact h.rewards
    · intro id ch hch
      rw [hbook,withChallenge_challenge] at hch
      by_cases hid : id = st.challenges.nextId
      · subst hid
        rw [Function.update_self,Option.some.injEq] at hch
        subst hch
        exact ⟨hchecks.price,ht _ _ _ _ hact⟩
      · rw [Function.update_of_ne hid] at hch
        exact h.prices id ch hch
  | resolved id isValid ch hact hchecks hbook hrewards =>
    refine ⟨fun c => ?_,fun id' ch' hch => ?_⟩
    · rw [hrewards c]
      split_ifs
      · exact rewardsAfter_isI128
      · exact h.rewards c
    · rw [hbook,withResolution_challenge] at hch
      by_cases hid : id' = id
      · subst hid
        rw [Function.update_self,Option.some.injEq] at hch
        subst hch
        exact h.prices id' ch hchecks.stored
      · rw [Function.update_of_ne hid] at hch
        exact h.prices id' ch' hch
  | claimed claimer hact hbook hrewards =>
    refine ⟨fun c => ?_,?_⟩
    · rw [hrewards c]
      split_ifs
      · exact ⟨by decide,by decide⟩
      · exact h.rewards c
    · rw [hbook]
      exact h.prices

/-- One step stays sound exactly if it is clean. -/
theorem execChallenge_sound_iff (h : Sound st) (htyped : Typed st) :
    Sound (execChallenge st t) ↔ Clean st t := by
  cases execChallenge_effect st t with
  | idle hbook hrewards hclean _ =>
    refine iff_of_true ?_ hclean
    obtain ⟨hchallenger,hasset,hcbound,habound,hrew⟩ := h
    constructor <;> simp only [hbook,hrewards] <;> assumption
  | opened challenger asset expectedPrice proofData hact hchecks hbook hrewards =>
    have hnew : (Challenge.opened st.challenges.nextId asset challenger expectedPrice proofData
      t.env.sequence).isResolved = false := rfl
    have hclean : Clean st t ↔ ∀ old,
        st.challenges.challenge st.challenges.nextId = some old → old.isResolved = true := by
      unfold Clean
      rw [hact]
      exact imp_iff_right hchecks
    rw [hclean,← counted_open_iff h.byChallenger hnew]
    constructor
    · intro hsound
      have hcounted := hsound.byChallenger
      rw [hbook] at hcounted
      exact hcounted
    · intro hcounted
      refine ⟨by rw [hbook]; exact hcounted,?_,fun c => ?_,fun a => ?_,by
        rw [hrewards]; exact h.rewards⟩
      · rw [hbook]
        exact (counted_open_iff h.byAsset hnew).2 ((counted_open_iff h.byChallenger hnew).1 hcounted)
      · rw [hbook,withChallenge,readU32_writeU32]
        split_ifs
        · exact hchecks.challengerOpen
        · exact h.challengerBound c
      · rw [hbook,withChallenge,readU32_writeU32]
        split_ifs
        · exact hchecks.assetOpen
        · exact h.assetBound a
  | resolved id isValid ch hact hchecks hbook hrewards =>
    obtain ⟨hpos,hprice⟩ := htyped.prices id ch hchecks.stored
    have hnonneg := rewardsAfter_nonneg_iff isValid (h.rewards ch.challenger)
      (htyped.rewards ch.challenger).2 hpos hprice
    have hclean : Clean st t ↔
        (isValid = true → st.challengerRewards ch.challenger + ch.reward ≤ i128Max) := by
      unfold Clean
      rw [hact]
      constructor
      · exact fun hclean => hclean ch hchecks
      · intro hroom ch' hchecks' hvalid
        have hsame : ch = ch' := by
          rw [← Option.some.injEq,← hchecks.stored,hchecks'.stored]
        exact hsame ▸ hroom hvalid
    rw [hclean,← hnonneg]
    constructor
    · intro hsound
      have hrew := hsound.rewards ch.challenger
      rwa [hrewards,if_pos rfl] at hrew
    · intro hrew
      refine ⟨?_,?_,fun c => ?_,fun a => ?_,fun c => ?_⟩
      · rw [hbook]
        exact h.byChallenger.resolve hchecks.stored hchecks.unresolved rfl
      · rw [hbook]
        exact h.byAsset.resolve hchecks.stored hchecks.unresolved rfl
      · have hbound := h.challengerBound c
        have hbound' := h.challengerBound ch.challenger
        rw [hbook,withResolution,readU32_writeU32]
        split_ifs <;> omega
      · have hbound := h.assetBound a
        have hbound' := h.assetBound ch.asset
        rw [hbook,withResolution,readU32_writeU32]
        split_ifs <;> omega
      · rw [hrewards c]
        split_ifs
        · exact hrew
        · exact h.rewards c
  | claimed claimer hact hbook hrewards =>
    refine iff_of_true ?_ (by unfold Clean; rw [hact]; trivial)
    refine ⟨?_,?_,?_,?_,fun c => ?_⟩
    · rw [hbook]
      exact h.byChallenger
    · rw [hbook]
      exact h.byAsset
    · rw [hbook]
      exact h.challengerBound
    · rw [hbook]
      exact h.assetBound
    · rw [hrewards c]
      split_ifs
      · exact le_refl 0
      · exact h.rewards c

end Steps

end PriceOracle.Challenges
