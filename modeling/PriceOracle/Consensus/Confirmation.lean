import PriceOracle.Consensus.Effects
import PriceOracle.Pricing.Selection
import Mathlib.Data.List.Chain

/-! # Tallies

The voter index of a round lists each source once, next to its stored vote, and the tally counts
the first quorum of them: a stored tally has as many pairwise distinct sources as its quorum, with
positive prices whose median it is. -/

namespace PriceOracle.Consensus

open Lib.Footprint Lib.MachineInt Model

/-- A tally over exactly its quorum of pairwise distinct sources with positive prices. -/
structure SoundTally (t : RoundTally) : Prop where
  counted : t.sources.length = t.votes
  quorum : 0 < t.votes
  distinct : (t.sources.map RoundVote.source).Nodup
  prices : ∀ v ∈ t.sources, 0 < v.price ∧ IsI128 v.price
  median : t.median = Lib.OrderStatistic.median (t.sources.map RoundVote.price)

/-- The median of a sound tally is a positive price. -/
theorem SoundTally.median_price {t : RoundTally} (h : SoundTally t) :
    0 < t.median ∧ IsI128 t.median := by
  rw [h.median]
  apply Pricing.median_price
  · intro hnil
    have hlen := congrArg List.length hnil
    rw [List.length_map,h.counted,List.length_nil] at hlen
    exact absurd hlen h.quorum.ne'
  · intro x hx
    obtain ⟨v,hv,rfl⟩ := List.mem_map.1 hx
    exact h.prices v hv

/-- What the stored rounds keep: the index, the votes, the quorums and the tallies agree. -/
structure SoundRounds (c : Model.Consensus) : Prop where
  quorum : ∀ a config, c.config a = some config → config.quorum ≠ 0
  voters : ∀ k, ((c.voteIndex k).getD []).Nodup
  voted : ∀ a r, ∀ s ∈ (c.voteIndex (a, r)).getD [], (c.vote (a, r, s)).isSome = true
  votes : ∀ a r s v, c.vote (a, r, s) = some v → v.source = s ∧ 0 < v.price ∧ IsI128 v.price
  tallies : ∀ k t, c.tally k = some t → SoundTally t

theorem soundRounds_empty : SoundRounds {} where
  quorum _ _ h := by cases h
  voters _ := List.nodup_nil
  voted _ _ _ h := by cases h
  votes _ _ _ _ h := by cases h
  tallies _ _ h := by cases h

section Votes

variable {c : Model.Consensus} {st : Store} {a : Address} {r : Nat} {v : RoundVote}

theorem sources_filterMap {vote : Address → Option RoundVote}
    (hvote : ∀ s v, vote s = some v → v.source = s) (index : List Address) :
    ((index.filterMap vote).map RoundVote.source).Sublist index := by
  induction index with
  | nil => exact List.Sublist.refl []
  | cons s index ih =>
    cases hs : vote s with
    | none =>
      rw [List.filterMap_cons_none hs]
      exact ih.cons s
    | some v =>
      rw [List.filterMap_cons_some hs,List.map_cons,hvote s v hs]
      exact ih.cons_cons s

theorem SoundRounds.roundVotes_distinct (h : SoundRounds st.consensus) :
    ((st.roundVotes a r).map RoundVote.source).Nodup := by
  apply List.Nodup.sublist _ (h.voters (a,r))
  apply sources_filterMap
  intro s v hv
  exact (h.votes a r s v hv).1

theorem SoundRounds.roundVotes_prices (h : SoundRounds st.consensus) (hv : v ∈ st.roundVotes a r) :
    0 < v.price ∧ IsI128 v.price := by
  obtain ⟨s,-,hs⟩ := List.mem_filterMap.1 hv
  exact (h.votes a r s v hs).2

theorem tryTally_sound {env : Env} {config : RoundConfig} {t : RoundTally}
    (h : SoundRounds st.consensus) (hquorum : config.quorum ≠ 0)
    (ht : tryTally env st a r config = some t) : SoundTally t := by
  unfold tryTally at ht
  dsimp only at ht
  split_ifs at ht with hfew
  rw [Option.some.injEq] at ht
  subst ht
  have hprices : ∀ v ∈ (st.roundVotes a r).take config.quorum, 0 < v.price ∧ IsI128 v.price := by
    intro v hv
    exact h.roundVotes_prices (List.mem_of_mem_take hv)
  constructor
  · rw [List.length_take,Nat.min_eq_left (not_lt.1 hfew)]
  · exact Nat.pos_of_ne_zero hquorum
  · rw [List.map_take]
    exact h.roundVotes_distinct.sublist (List.take_sublist _ _)
  · exact hprices
  · apply Pricing.computeMedian_eq
    intro x hx
    obtain ⟨v,hv,rfl⟩ := List.mem_map.1 hx
    exact hprices v hv

/-- A first vote of a source keeps the rounds sound. -/
theorem SoundRounds.castVote (h : SoundRounds c) (hnew : c.vote (a,r,v.source) = none)
    (hv : 0 < v.price ∧ IsI128 v.price) : SoundRounds (c.castVote a r v) where
  quorum := h.quorum
  tallies := h.tallies
  voters k := by
    unfold Model.Consensus.castVote
    by_cases hk : k = (a,r)
    · subst hk
      have hfresh : v.source ∉ (c.voteIndex (a,r)).getD [] := by
        intro hmem
        have hsome := h.voted a r v.source hmem
        rw [hnew] at hsome
        cases hsome
      dsimp only
      rw [Function.update_self,Option.getD_some,List.nodup_append_comm,List.singleton_append,
        List.nodup_cons]
      exact ⟨hfresh,h.voters (a,r)⟩
    · dsimp only
      rw [Function.update_of_ne hk]
      exact h.voters k
  voted a' r' s hs := by
    unfold Model.Consensus.castVote at hs ⊢
    dsimp only at hs ⊢
    by_cases hvoter : (a',r',s) = (a,r,v.source)
    · rw [hvoter,Function.update_self]
      rfl
    · rw [Function.update_of_ne hvoter]
      by_cases hk : (a',r') = (a,r)
      · rw [hk,Function.update_self,Option.getD_some,List.mem_append,List.mem_singleton] at hs
        rw [Prod.mk.injEq] at hk
        obtain ⟨rfl,rfl⟩ := hk
        rcases hs with hs | rfl
        · exact h.voted a' r' s hs
        · exact absurd rfl hvoter
      · rw [Function.update_of_ne hk] at hs
        exact h.voted a' r' s hs
  votes a' r' s u hu := by
    rcases stored_of_update hu with ⟨hvoter,rfl⟩ | hu
    · simp only [Prod.mk.injEq] at hvoter
      exact ⟨hvoter.2.2.symm,hv⟩
    · exact h.votes a' r' s u hu

theorem SoundRounds.recordTally {t : RoundTally} (h : SoundRounds c) (ht : SoundTally t) :
    SoundRounds (c.recordTally a r t) where
  quorum := h.quorum
  voters := h.voters
  voted := h.voted
  votes := h.votes
  tallies k t' ht' := by
    rcases stored_of_update ht' with ⟨-,rfl⟩ | ht'
    · exact ht
    · exact h.tallies k t' ht'

end Votes

/-- The price a call submits is a signed 128-bit value. -/
def RoundCall.Typed : RoundCall → Prop
  | .submitRoundVote _ _ _ price _ => IsI128 price
  | _ => True

theorem quorum_of_getRoundConfig {st : Store} (h : SoundRounds st.consensus) (a : Address) :
    (st.getRoundConfig a).quorum ≠ 0 := by
  unfold Store.getRoundConfig
  cases hconfig : st.consensus.config a with
  | none => decide
  | some config => exact h.quorum a config hconfig

/-- Every round operation keeps the rounds sound. -/
theorem RoundEffect.sound {env : Env} {st : Store} {call : RoundCall} {c : Model.Consensus}
    (heff : RoundEffect env st call c) (htyped : call.Typed) (h : SoundRounds st.consensus) :
    SoundRounds c := by
  cases heff with
  | opened => exact ⟨h.quorum,h.voters,h.voted,h.votes,h.tallies⟩
  | configured hquorum =>
    refine ⟨fun a config hconfig => ?_,h.voters,h.voted,h.votes,h.tallies⟩
    dsimp only at hconfig
    rw [Function.update_apply] at hconfig
    split_ifs at hconfig with ha
    · rw [Option.some.injEq] at hconfig
      subst hconfig
      exact hquorum
    · exact h.quorum a config hconfig
  | repeated => exact h
  | voted hbar hvote hs hp hts hpos =>
    subst hs hp
    exact h.castVote hvote ⟨hpos,htyped⟩
  | tallied hbar hvote hs hp hts hpos htally =>
    subst hs hp
    have hcast := h.castVote hvote ⟨hpos,htyped⟩
    exact hcast.recordTally (tryTally_sound hcast (quorum_of_getRoundConfig h _) htally)
  | reported => exact h
  | penalised => exact ⟨h.quorum,h.voters,h.voted,h.votes,h.tallies⟩
  | abandoned => exact ⟨h.quorum,h.voters,h.voted,h.votes,h.tallies⟩

end PriceOracle.Consensus

/-! ## Confirmation

`finalize_confirmation` confirms the median of the last `required_rounds` tallied rounds when each
adjacent pair of their medians is within `agreement_bps`. -/

namespace PriceOracle.Consensus

open Lib.Transaction Lib.Footprint Lib.MachineInt Lib.Run Model

inductive ConfirmationCall
  | round (call : RoundCall)
  | finalizeConfirmation (asset : Address)

def ConfirmationCall.body : ConfirmationCall → Contract Unit
  | .round call => call.body
  | .finalizeConfirmation asset => do let _ ← Model.finalizeConfirmation asset

/-- The prices a call carries are signed 128-bit values. -/
def ConfirmationCall.Typed : ConfirmationCall → Prop
  | .round call => call.Typed
  | .finalizeConfirmation _ => True

/-- One call of the round protocol or a confirmation, with the environment it is made in. -/
structure ConfirmationTx where
  env : Env
  call : ConfirmationCall

def execConfirmation (st : Store) (t : ConfirmationTx) : Store := invoke t.call.body t.env st

def ConfirmationTx.failure (t : ConfirmationTx) (st : Store) : Option ErrorCode :=
  Model.failure t.call.body t.env st

section Spread

variable {a b : Int} {limit : Nat} {medians : List Int}

/-- The floored spread of two medians in basis points is at most `limit`. -/
def Agree (limit : Nat) (a b : Int) : Prop :=
  ((a - b).natAbs : Int) * 10000 ≤ (limit + 1) * min a b - 1

deriving instance Decidable for Agree

/-- The scaled spread fits 128 bits, and `limit` is below the largest one or the spread is not
beyond 100%. -/
def Comparable (limit : Nat) (a b : Int) : Prop :=
  (a - b).natAbs * 10000 < 2 ^ 128 ∧
    (limit < maxAgreementBps ∨ ((a - b).natAbs : Int) * 10000 < (maxAgreementBps + 1) * min a b)

deriving instance Decidable for Comparable

theorem bpsBetween_comm (a b : Int) : bpsBetween a b = bpsBetween b a := by
  by_cases heq : a = b
  · rw [heq]
  · unfold bpsBetween
    rw [if_neg heq,if_neg (Ne.symm heq)]
    by_cases hzero : a = 0 ∨ b = 0
    · rw [if_pos hzero,if_pos hzero.symm]
    · have hzero' : ¬(b = 0 ∨ a = 0) := by omega
      rw [if_neg hzero,if_neg hzero']
      by_cases hlt : a < b
      · rw [if_pos hlt,if_neg (by omega)]
      · rw [if_neg hlt,if_pos (by omega)]

theorem Agree.symm (h : Agree limit a b) : Agree limit b a := by
  have hdiff : (b - a).natAbs = (a - b).natAbs := by omega
  unfold Agree
  rw [min_comm b a,hdiff]
  exact h

theorem Comparable.symm (h : Comparable limit a b) : Comparable limit b a := by
  have hdiff : (b - a).natAbs = (a - b).natAbs := by omega
  unfold Comparable
  rw [min_comm b a,hdiff]
  exact h

theorem bpsBetween_eq (ha : 0 < a) (hlt : a < b) (hb : IsI128 b)
    (hfit : (a - b).natAbs * 10000 < 2 ^ 128) :
    bpsBetween a b = min ((a - b).natAbs * 10000 / a.natAbs) maxAgreementBps := by
  unfold IsI128 i128Min i128Max at hb
  have hdiff : toU128 (wrapSub b a) = (a - b).natAbs := by
    unfold toU128 wrapSub wrap
    omega
  have hlow : toU128 a = a.natAbs := by
    unfold toU128
    omega
  unfold bpsBetween
  rw [if_neg (by omega),if_neg (by omega),if_pos hlt]
  dsimp only
  rw [hdiff,hlow,wrap128,Nat.mod_eq_of_lt hfit]
  split_ifs
  · rw [Nat.min_eq_right (by omega)]
  · rw [Nat.min_eq_left (by omega)]

theorem cast_scaled_lt {d m n : Nat} :
    (d : Int) * 10000 < (m+1) * n ↔ d * 10000 < (m+1) * n := by
  have hmul : (((m+1) * n : Nat) : Int) = (m+1) * n := Int.natCast_mul _ _
  omega

theorem agree_of_ordered (ha : 0 < a) (hlt : a < b) (hb : IsI128 b) (hc : Comparable limit a b)
    (hspread : bpsBetween a b ≤ limit) : Agree limit a b := by
  obtain ⟨hfit,hcap⟩ := hc
  rw [bpsBetween_eq ha hlt hb hfit] at hspread
  unfold Agree
  rw [min_eq_left hlt.le] at hcap ⊢
  obtain ⟨n,rfl⟩ := Int.eq_ofNat_of_zero_le ha.le
  have hn : 0 < n := by omega
  rw [Int.natAbs_natCast] at hspread
  generalize ((n : Int) - b).natAbs = d at hspread hcap ⊢
  have hfloor : d * 10000 / n ≤ limit := by
    rcases hcap with hlimit | hsmall
    · omega
    · have hdiv := (Nat.div_lt_iff_lt_mul hn).2 (cast_scaled_lt.1 hsmall)
      omega
  have hmul := (Nat.div_lt_iff_lt_mul hn).1 (Nat.lt_succ_of_le hfloor)
  exact Int.le_sub_one_of_lt (cast_scaled_lt.2 hmul)

theorem agree_of_bpsBetween_le (ha : 0 < a ∧ IsI128 a) (hb : 0 < b ∧ IsI128 b)
    (hc : Comparable limit a b) (hspread : bpsBetween a b ≤ limit) : Agree limit a b := by
  rcases lt_trichotomy a b with hlt | rfl | hlt
  · exact agree_of_ordered ha.1 hlt hb.2 hc hspread
  · have hpos : 0 < ((limit : Int) + 1) * a := Int.mul_pos (by omega) ha.1
    unfold Agree
    rw [min_self,Int.sub_self]
    omega
  · rw [bpsBetween_comm] at hspread
    exact (agree_of_ordered hb.1 hlt ha.2 hc.symm hspread).symm

theorem agree_of_adjacentSpreads (hprice : ∀ x ∈ medians, 0 < x ∧ IsI128 x)
    (hc : medians.IsChain (Comparable limit))
    (hspread : ∀ s ∈ adjacentSpreads medians, s ≤ limit) : medians.IsChain (Agree limit) := by
  induction medians with
  | nil => exact List.isChain_nil
  | cons a medians ih =>
    cases medians with
    | nil => exact List.isChain_singleton a
    | cons b medians =>
      rw [List.isChain_cons_cons] at hc ⊢
      rw [adjacentSpreads,List.forall_mem_cons] at hspread
      rw [List.forall_mem_cons] at hprice
      have hb := hprice.2 b List.mem_cons_self
      exact ⟨agree_of_bpsBetween_le hprice.1 hb hc.1 hspread.1,ih hprice.2 hc.2 hspread.2⟩

end Spread

section TalliedRun

variable {st : Store} {a : Address} {n r : Nat}

theorem mem_talliedRun {x : Nat × RoundTally} (h : x ∈ st.talliedRun a n r) :
    st.getRoundTally a x.1 = some x.2 := by
  induction n generalizing r with
  | zero => cases h
  | succ n ih =>
    unfold Store.talliedRun at h
    split_ifs at h
    · cases h
    · cases htally : st.getRoundTally a r with
      | none =>
        rw [htally] at h
        cases h
      | some tally =>
        rw [htally] at h
        rcases List.mem_cons.1 h with rfl | h
        · exact htally
        · exact ih h

theorem talliedRun_rounds (h : n ≤ (st.talliedRun a n r).length) :
    n ≤ r ∧ (st.talliedRun a n r).map Prod.fst = (List.range n).map (r - ·) := by
  induction n generalizing r with
  | zero => exact ⟨Nat.zero_le r,rfl⟩
  | succ n ih =>
    unfold Store.talliedRun at h ⊢
    split_ifs at h ⊢ with hzero
    · simp at h
    · cases htally : st.getRoundTally a r with
      | none => simp [htally] at h
      | some tally =>
        rw [htally,List.length_cons] at h
        obtain ⟨hle,hrounds⟩ := ih (Nat.le_of_succ_le_succ h)
        refine ⟨by omega,?_⟩
        rw [List.map_cons,hrounds,List.range_succ_eq_map,List.map_cons,List.map_map]
        congr 1
        apply List.map_congr_left
        dsimp only [Function.comp]
        omega

/-- What holds of the tallies of every two successive rounds holds along a run of them. -/
theorem talliedRun_isChain {R : RoundTally → RoundTally → Prop}
    (hR : ∀ k < r, 0 < k → r < k + n → ∀ t ∈ st.getRoundTally a k,
      ∀ t' ∈ st.getRoundTally a (k+1), R t' t) :
    ((st.talliedRun a n r).map Prod.snd).IsChain R := by
  induction n generalizing r with
  | zero => exact List.isChain_nil
  | succ n ih =>
    unfold Store.talliedRun
    split_ifs with hzero
    · exact List.isChain_nil
    · cases htally : st.getRoundTally a r with
      | none => exact List.isChain_nil
      | some tally =>
        rw [List.map_cons,List.isChain_cons]
        constructor
        · intro t ht
          cases n with
          | zero => cases ht
          | succ n =>
            unfold Store.talliedRun at ht
            split_ifs at ht with hfirst
            · cases ht
            · cases hprev : st.getRoundTally a (r - 1) with
              | none =>
                rw [hprev] at ht
                cases ht
              | some previous =>
                rw [hprev,List.map_cons,List.head?_cons,Option.mem_some_iff] at ht
                subst ht
                apply hR (r - 1) (by omega) (Nat.pos_of_ne_zero hfirst) (by omega) previous hprev
                rw [Nat.sub_add_cancel (Nat.pos_of_ne_zero hzero)]
                exact htally
        · apply ih
          intro k hk hpos hn
          exact hR k (by omega) hpos (by omega)

end TalliedRun

section Finalization

variable {st : Store} {a : Address} {c : ConfirmedPrice}

/-- `c` names the last `required_rounds` rounds, each with a sound tally, whose medians agree pair
by pair and have the price for median. -/
structure Confirmed (st : Store) (a : Address) (c : ConfirmedPrice) : Prop where
  opened : (st.getRoundConfig a).requiredRounds ≤ st.currentRound a
  rounds : c.rounds = (List.range (st.getRoundConfig a).requiredRounds).map (st.currentRound a - ·)
  tallied : ∃ tallies : List RoundTally, c.rounds.map (st.getRoundTally a) = tallies.map some ∧
    (∀ t ∈ tallies, SoundTally t) ∧
    (tallies.map RoundTally.median).IsChain (Agree (st.getRoundConfig a).agreementBps) ∧
    c.price = Lib.OrderStatistic.median (tallies.map RoundTally.median)

/-- The medians read back from the named rounds agree pair by pair. -/
theorem Confirmed.agree (h : Confirmed st a c) :
    ((List.range (st.getRoundConfig a).requiredRounds).filterMap fun i =>
      (st.getRoundTally a (st.currentRound a - i)).map RoundTally.median).IsChain
        (Agree (st.getRoundConfig a).agreementBps) := by
  obtain ⟨tallies,htallies,-,hchain,-⟩ := h.tallied
  have hmedians := congrArg (List.filterMap (Option.map RoundTally.median)) htallies
  rw [h.rounds,List.map_map,List.filterMap_map,List.filterMap_map] at hmedians
  have hall : tallies.filterMap (Option.map RoundTally.median ∘ some) =
      tallies.map RoundTally.median := congrFun List.filterMap_eq_map tallies
  rw [hall] at hmedians
  rw [← hmedians] at hchain
  exact hchain

/-- A successful finalization stores a price confirmed on evidence, and no other call stores one. -/
structure ConfirmsOnEvidence (st : Store) (t : ConfirmationTx) : Prop where
  confirmed : ∀ a, t.call = .finalizeConfirmation a → t.failure st = none →
    ∃ c, (execConfirmation st t).consensus.confirmedPrice a = some c ∧ Confirmed st a c
  kept : ∀ a, (t.call = .finalizeConfirmation a → t.failure st ≠ none) →
    (execConfirmation st t).consensus.confirmedPrice a = st.consensus.confirmedPrice a

/-- The medians of rounds `r` and `r + 1`, if both are tallied, are comparable. -/
def ComparableRounds (st : Store) (a : Address) (r : Nat) : Prop :=
  ∀ t ∈ st.getRoundTally a r, ∀ t' ∈ st.getRoundTally a (r + 1),
    Comparable (st.getRoundConfig a).agreementBps t'.median t.median

deriving instance Decidable for ComparableRounds

/-- Successive rounds among the last `required_rounds` of the asset are comparable. -/
def ComparableRun (st : Store) (a : Address) : Prop :=
  ∀ r < st.currentRound a, 0 < r →
    st.currentRound a < r + (st.getRoundConfig a).requiredRounds → ComparableRounds st a r

instance (st : Store) (a : Address) : Decidable (ComparableRun st a) :=
  inferInstanceAs (Decidable (∀ r < st.currentRound a, 0 < r →
    st.currentRound a < r + (st.getRoundConfig a).requiredRounds → ComparableRounds st a r))

/-- The step does not finalize incomparable medians. -/
def FinalizesComparable (st : Store) (t : ConfirmationTx) : Prop :=
  match t.call with
  | .round _ => True
  | .finalizeConfirmation a => ComparableRun st a

instance (st : Store) (t : ConfirmationTx) : Decidable (FinalizesComparable st t) :=
  match t with
  | ⟨_, .round _⟩ => .isTrue trivial
  | ⟨_, .finalizeConfirmation a⟩ => inferInstanceAs (Decidable (ComparableRun st a))

/-- What `finalize_confirmation` checked before it stored `c`. -/
structure Finalized (st : Store) (a : Address) (c : ConfirmedPrice) : Prop where
  full : (st.getRoundConfig a).requiredRounds ≤
    (st.talliedRun a (st.getRoundConfig a).requiredRounds (st.currentRound a)).length
  rounds : c.rounds =
    (st.talliedRun a (st.getRoundConfig a).requiredRounds (st.currentRound a)).map Prod.fst
  spreads : ∀ s ∈ adjacentSpreads ((st.talliedRun a (st.getRoundConfig a).requiredRounds
    (st.currentRound a)).map fun x => x.2.median), s ≤ (st.getRoundConfig a).agreementBps
  price : c.price = Pricing.computeMedian ((st.talliedRun a (st.getRoundConfig a).requiredRounds
    (st.currentRound a)).map fun x => x.2.median)

theorem finalizeConfirmation_effect (a : Address) (w : World) :
    Sat (Model.finalizeConfirmation a) w fun c w' => Finalized w.store a c ∧
      w'.store.consensus = { w.store.consensus with
        confirmedPrice := Function.update w.store.consensus.confirmedPrice a (some c)
        confirmedRounds := Function.update w.store.consensus.confirmedRounds a (some c.rounds) } := by
  unfold Model.finalizeConfirmation
  rw [sat_bind]
  refine (checkRegisteredAsset_sat a w).mono fun _ w₁ h₁ => ?_
  have hcon := (agree_consensus h₁.2).2
  have hconfig : w₁.store.getRoundConfig a = w.store.getRoundConfig a := by
    unfold Store.getRoundConfig
    rw [hcon]
  have hcurrent : w₁.store.currentRound a = w.store.currentRound a := by
    unfold Store.currentRound
    rw [hcon]
  have hrun (n r : Nat) : w₁.store.talliedRun a n r = w.store.talliedRun a n r := by
    induction n generalizing r with
    | zero => rfl
    | succ n ih =>
      unfold Store.talliedRun Store.getRoundTally
      rw [hcon,ih]
  simp only [sat_bind,sat_readStore,sat_getSequence,sat_ensure,modifyConsensus,sat_update,
    sat_pure,hconfig,hcurrent,hrun,hcon,List.length_map]
  intro hfull hspreads
  exact ⟨⟨hfull,rfl,hspreads,rfl⟩,trivial⟩

/-- A price finalized over sound rounds with comparable medians is confirmed. -/
theorem Finalized.confirmed (h : Finalized st a c) (hsound : SoundRounds st.consensus)
    (hc : ComparableRun st a) : Confirmed st a c := by
  obtain ⟨hopened,hconsecutive⟩ := talliedRun_rounds h.full
  have hmedians : (st.talliedRun a (st.getRoundConfig a).requiredRounds (st.currentRound a)).map
      (fun x => x.2.median) = ((st.talliedRun a (st.getRoundConfig a).requiredRounds
        (st.currentRound a)).map Prod.snd).map RoundTally.median := by
    rw [List.map_map]
    rfl
  have hchain := talliedRun_isChain hc
  obtain ⟨-,hrounds,hspreads,hprice⟩ := h
  rw [hmedians] at hspreads hprice
  have hstored (x) (hx : x ∈ st.talliedRun a (st.getRoundConfig a).requiredRounds
      (st.currentRound a)) : st.getRoundTally a x.1 = some x.2 := mem_talliedRun hx
  generalize st.talliedRun a (st.getRoundConfig a).requiredRounds (st.currentRound a) = run
    at hconsecutive hchain hrounds hspreads hprice hstored
  have htallies : ∀ t ∈ run.map Prod.snd, SoundTally t := by
    intro t ht
    obtain ⟨x,hx,rfl⟩ := List.mem_map.1 ht
    exact hsound.tallies (a,x.1) x.2 (hstored x hx)
  have hprices : ∀ m ∈ (run.map Prod.snd).map RoundTally.median, 0 < m ∧ IsI128 m := by
    intro m hm
    obtain ⟨t,ht,rfl⟩ := List.mem_map.1 hm
    exact (htallies t ht).median_price
  refine ⟨hopened,hrounds.trans hconsecutive,run.map Prod.snd,?_,htallies,?_,?_⟩
  · rw [hrounds,List.map_map,List.map_map]
    exact List.map_congr_left hstored
  · apply agree_of_adjacentSpreads hprices _ hspreads
    exact (List.isChain_map RoundTally.median).2 hchain
  · rw [hprice]
    exact Pricing.computeMedian_eq hprices

theorem RoundEffect.confirmedPrice_kept {env : Env} {call : RoundCall} {con : Model.Consensus}
    (heff : RoundEffect env st call con) : con.confirmedPrice = st.consensus.confirmedPrice := by
  cases heff <;> rfl

theorem execRound_sound (t : RoundTx) (htyped : t.call.Typed) (hsound : SoundRounds st.consensus) :
    (execRound st t).consensus.confirmedPrice = st.consensus.confirmedPrice ∧
      SoundRounds (execRound st t).consensus := by
  cases hf : t.failure st with
  | none =>
    have heff := execRound_effect st t hf
    exact ⟨heff.confirmedPrice_kept,heff.sound htyped hsound⟩
  | some e =>
    rw [execRound_failed st t hf]
    exact ⟨rfl,hsound⟩

/-- A finalization panics without effect, or stores the price it checked. -/
theorem execFinalization_cases (env : Env) (st : Store) (a : Address) :
    (ConfirmationTx.failure ⟨env,.finalizeConfirmation a⟩ st ≠ none ∧
      execConfirmation st ⟨env,.finalizeConfirmation a⟩ = st) ∨
    ConfirmationTx.failure ⟨env,.finalizeConfirmation a⟩ st = none ∧
      ∃ c, Finalized st a c ∧ (execConfirmation st ⟨env,.finalizeConfirmation a⟩).consensus =
        { st.consensus with
          confirmedPrice := Function.update st.consensus.confirmedPrice a (some c)
          confirmedRounds := Function.update st.consensus.confirmedRounds a (some c.rounds) } := by
  have hbody : Sat (ConfirmationCall.body (.finalizeConfirmation a)) (World.enter env st)
      fun _ w' => ∃ c, Finalized st a c ∧ w'.store.consensus = { st.consensus with
        confirmedPrice := Function.update st.consensus.confirmedPrice a (some c)
        confirmedRounds := Function.update st.consensus.confirmedRounds a (some c.rounds) } := by
    unfold ConfirmationCall.body
    rw [sat_bind]
    refine (finalizeConfirmation_effect a _).mono fun c w' h => ?_
    rw [sat_pure]
    exact ⟨c,h⟩
  rcases invoke_cases hbody with ⟨hfail,hst,-⟩ | ⟨hnone,w',hw,hst,-⟩
  · exact .inl ⟨hfail,hst⟩
  · rw [hst] at hw
    exact .inr ⟨hnone,hw⟩

/-- One step keeps the rounds sound and confirms on evidence where the medians are comparable. -/
theorem confirmation_step (st : Store) (t : ConfirmationTx) (htyped : t.call.Typed)
    (hc : FinalizesComparable st t) (hsound : SoundRounds st.consensus) :
    ConfirmsOnEvidence st t ∧ SoundRounds (execConfirmation st t).consensus := by
  obtain ⟨env,call⟩ := t
  cases call with
  | round call =>
    obtain ⟨hkept,hnext⟩ := execRound_sound ⟨env,call⟩ htyped hsound
    refine ⟨⟨?_,?_⟩,hnext⟩
    · intro a ha
      cases ha
    · intro a _
      exact congrFun hkept a
  | finalizeConfirmation a =>
    rcases execFinalization_cases env st a with ⟨hfail,hst⟩ | ⟨hnone,c,hfinal,hst⟩
    · rw [hst]
      refine ⟨⟨?_,?_⟩,hsound⟩
      · intro b _ hnone
        exact absurd hnone hfail
      · intro b _
        rw [hst]
    · have hnext : SoundRounds (execConfirmation st ⟨env,.finalizeConfirmation a⟩).consensus := by
        rw [hst]
        exact ⟨hsound.quorum,hsound.voters,hsound.voted,hsound.votes,hsound.tallies⟩
      refine ⟨⟨?_,?_⟩,hnext⟩
      · intro b hb _
        injection hb with hab
        subst hab
        refine ⟨c,?_,hfinal.confirmed hsound hc⟩
        rw [hst]
        exact Function.update_self _ _ _
      · intro b hb
        rw [hst]
        apply Function.update_of_ne
        rintro rfl
        exact hb rfl hnone

end Finalization

/-- In every run of the round protocol and its confirmations from unused rounds, under any
configurations, each stored price rests on the last `required_rounds` rounds, tallied over their
quorums and agreeing pair by pair, if the medians it is finalized from are comparable. -/
theorem confirmed_prices_rest_on_agreeing_rounds (st : Store) (ts : List ConfirmationTx)
    (htyped : ∀ t ∈ ts, t.call.Typed)
    (hc : ∀ x ∈ steps execConfirmation { st with consensus := {} } ts,
      FinalizesComparable x.1 x.2) :
    ∀ x ∈ steps execConfirmation { st with consensus := {} } ts, ConfirmsOnEvidence x.1 x.2 := by
  have hkeep (s : Store) (t : ConfirmationTx) (hs : SoundRounds s.consensus)
      (h : t.call.Typed ∧ FinalizesComparable s t) :
      ConfirmsOnEvidence s t ∧ SoundRounds (execConfirmation s t).consensus :=
    confirmation_step s t h.1 h.2 hs
  refine (steps_satisfy (I := fun s : Store => SoundRounds s.consensus) hkeep soundRounds_empty
    fun x hx => ⟨htyped x.2 (snd_mem_of_mem_steps hx),hc x hx⟩).1

/-- Two rounds of the asset `1`, tallied at `p` and then `p'`, and their confirmation. -/
def twoRounds (limit : Nat) (p p' : Int) : List ConfirmationTx :=
  [⟨.concrete 10 100 [9], .round (.setRoundConfig 1 ⟨2, 1, 5, limit⟩)⟩,
    ⟨.concrete 10 100 [], .round (.startRound 1)⟩,
    ⟨.concrete 10 100 [7], .round (.submitRoundVote 7 1 1 p 100)⟩,
    ⟨.concrete 11 100 [], .round (.startRound 1)⟩,
    ⟨.concrete 11 100 [7], .round (.submitRoundVote 7 1 2 p' 100)⟩,
    ⟨.concrete 11 100 [], .finalizeConfirmation 1⟩]

/-- The registered asset `1`, the active source `7` and the administrator `9`. -/
def twoRoundsStore : Store :=
  { config := { admin := some 9 }
    registry := {
      assetIndex := fun a => if a = 1 then some true else none
      srcActive := fun s => if s = 7 then some true else none } }

theorem close_rounds_confirm_on_evidence :
    ((run execConfirmation { twoRoundsStore with consensus := {} }
      (twoRounds 500 1000 1040)).consensus.confirmedPrice 1).isSome = true ∧
    ∀ x ∈ steps execConfirmation { twoRoundsStore with consensus := {} } (twoRounds 500 1000 1040),
      ConfirmsOnEvidence x.1 x.2 := by
  refine ⟨by decide +kernel,?_⟩
  apply confirmed_prices_rest_on_agreeing_rounds
  · simp [twoRounds,ConfirmationCall.Typed,RoundCall.Typed,IsI128,i128Min,i128Max]
  · decide +kernel

/-- With the largest limit, a tenfold jump between two rounds is confirmed. -/
theorem distant_rounds_confirmed :
    ¬∀ x ∈ steps execConfirmation { twoRoundsStore with consensus := {} }
        (twoRounds 10000 100 1000), ConfirmsOnEvidence x.1 x.2 := by
  intro h
  unfold twoRounds at h
  simp only [steps_cons,List.forall_mem_cons] at h
  obtain ⟨-,-,-,-,-,hlast,-⟩ := h
  obtain ⟨c,-,hc⟩ := hlast.confirmed 1 rfl (by decide +kernel)
  have hchain := hc.agree
  revert hchain
  decide +kernel

end PriceOracle.Consensus
