import Mathlib.Algebra.BigOperators.Ring.Finset
import Mathlib.Algebra.Order.BigOperators.Group.Finset
import PriceOracle.Baskets.Composition

/-! # The value of a basket

The value is the weighted sum of the usable prices, divided once. The accumulator has 128 bits: the
weights take twenty of them, and a sum that needs more comes out reduced. -/

namespace PriceOracle.Baskets

open Model Lib.MachineInt Lib.Run Lib.Transaction

section Sums

variable {α : Type} {price : α → Int} {xs : List α}

theorem weighted_sum_between (weight : α → Nat) {lo hi : Int}
    (h : ∀ x ∈ xs, lo ≤ price x ∧ price x ≤ hi) :
    lo * ((xs.map weight).sum : Nat) ≤ (xs.map fun x => price x * weight x).sum ∧
      (xs.map fun x => price x * weight x).sum ≤ hi * ((xs.map weight).sum : Nat) := by
  induction xs with
  | nil => simp
  | cons x xs ih =>
    obtain ⟨hx,hxs⟩ := List.forall_mem_cons.1 h
    obtain ⟨hlow,hhigh⟩ := ih hxs
    have hweight := Int.natCast_nonneg (weight x)
    have hxlow := mul_le_mul_of_nonneg_right hx.1 hweight
    have hxhigh := mul_le_mul_of_nonneg_right hx.2 hweight
    simp only [List.map_cons,List.sum_cons,Nat.cast_add,mul_add]
    omega

theorem sum_div_le (n : Nat) (hn : 0 < n) (terms : List Nat) :
    n * (terms.map (· / n)).sum ≤ terms.sum ∧
      terms.sum + terms.length ≤ n * ((terms.map (· / n)).sum + terms.length) := by
  induction terms with
  | nil => simp
  | cons t terms ih =>
    obtain ⟨hlow,hhigh⟩ := ih
    have hfloor := Nat.div_add_mod t n
    have hrest := Nat.mod_lt t hn
    rw [List.map_cons,List.sum_cons,List.sum_cons,List.length_cons,Nat.mul_add]
    rw [Nat.mul_add] at hhigh ⊢
    rw [Nat.mul_add,Nat.mul_add,Nat.mul_one]
    omega

end Sums

section Terms

variable (st : Store) (now bound : Nat)

/-- The price of a constituent, if it is recent enough. -/
def usablePrice (c : BasketConstituent) : Option Int :=
  (st.aggregate c.asset).bind fun agg =>
    if now - agg.timestamp ≤ bound then some agg.price else none

def weightedTotal (constituents : List BasketConstituent) : Int :=
  (constituents.map fun c => (usablePrice st now bound c).getD 0 * c.weight).sum

/-- What a constituent adds to the accumulator, before any reduction. -/
def term (c : BasketConstituent) : Nat :=
  ((usablePrice st now bound c).getD 0).toNat * c.weight

/-- The aggregates of the constituents are non-negative 128-bit values. -/
def NonNegative (constituents : List BasketConstituent) : Prop :=
  ∀ c ∈ constituents, ∀ agg, st.aggregate c.asset = some agg → 0 ≤ agg.price ∧ agg.price ≤ i128Max

end Terms

section Totals

variable {st : Store} {now bound : Nat} {c : BasketConstituent}
  {constituents : List BasketConstituent} {p : Int} {s : Nat}

theorem basketContribution_fresh (st : Store) (now bound : Nat) (c : BasketConstituent) :
    (st.basketContribution now bound c).fresh = (usablePrice st now bound c).isSome := by
  unfold Store.basketContribution usablePrice
  cases st.aggregate c.asset with
  | none => rfl
  | some agg =>
    dsimp only [Option.isSome_some,Option.bind_some,Option.map_some,Option.getD_some]
    by_cases hage : now - agg.timestamp ≤ bound
    · simp [hage]
    · simp [hage]

theorem basketContribution_price (hp : usablePrice st now bound c = some p) :
    (st.basketContribution now bound c).price = p := by
  obtain ⟨agg,hagg,hage⟩ := Option.bind_eq_some_iff.1 hp
  split_ifs at hage
  cases hage
  unfold Store.basketContribution
  rw [hagg]
  rfl

theorem usablePrice_nonneg (hnonneg : NonNegative st constituents) (hc : c ∈ constituents)
    (hp : usablePrice st now bound c = some p) : 0 ≤ p ∧ p ≤ i128Max := by
  obtain ⟨agg,hagg,hage⟩ := Option.bind_eq_some_iff.1 hp
  split_ifs at hage
  cases hage
  exact hnonneg c hc agg hagg

theorem term_eq (hp : usablePrice st now bound c = some p)
    (hnonneg : 0 ≤ p ∧ p ≤ i128Max) : toU128 p * c.weight = term st now bound c := by
  have hsame : toU128 p = p.toNat := by
    obtain ⟨hlow,hhigh⟩ := hnonneg
    unfold i128Max at hhigh
    unfold toU128
    omega
  rw [term,hp,Option.getD_some,hsame]

theorem term_of_unusable (hp : usablePrice st now bound c = none) : term st now bound c = 0 := by
  rw [term,hp]
  exact Nat.zero_mul _

theorem basketContribution_contribution (hnonneg : NonNegative st constituents)
    (hc : c ∈ constituents) (hfits : term st now bound c < 2 ^ 128) :
    (st.basketContribution now bound c).contribution =
      (term st now bound c / basketWeightScale : Nat) := by
  have hfresh := basketContribution_fresh st now bound c
  cases hp : usablePrice st now bound c with
  | none =>
    rw [hp] at hfresh
    rw [term_of_unusable hp]
    have hzero : (st.basketContribution now bound c).contribution =
        if (st.basketContribution now bound c).fresh = true then _ else 0 := rfl
    rw [hzero,hfresh]
    rfl
  | some p =>
    rw [hp] at hfresh
    have hprice := basketContribution_price hp
    have hproduct : (st.basketContribution now bound c).contribution =
        if (st.basketContribution now bound c).fresh = true then
          wrap (wrap128 (toU128 (st.basketContribution now bound c).price * c.weight) /
            basketWeightScale : Nat) else 0 := rfl
    rw [hproduct,hfresh,Option.isSome_some,if_pos rfl,hprice,
      term_eq hp (usablePrice_nonneg hnonneg hc hp)]
    unfold wrap128 basketWeightScale wrap
    omega

theorem add_contribution (now bound : Nat) (hnonneg : NonNegative st constituents)
    (hc : c ∈ constituents) (t : BasketTotals) (hs : t.weightedSum = wrap128 s) :
    (t.add (st.basketContribution now bound c)).weightedSum = wrap128 (s + term st now bound c) ∧
      ((t.add (st.basketContribution now bound c)).anyUnusable = true ↔
        t.anyUnusable = true ∨ usablePrice st now bound c = none) ∧
      (t.add (st.basketContribution now bound c)).contributions =
        t.contributions ++ [st.basketContribution now bound c] := by
  have hfresh := basketContribution_fresh st now bound c
  unfold BasketTotals.add
  cases hp : usablePrice st now bound c with
  | none =>
    rw [hp] at hfresh
    rw [if_neg (by simp [hfresh]),term_of_unusable hp]
    exact ⟨hs,by simp,rfl⟩
  | some p =>
    rw [hp] at hfresh
    rw [if_pos (hfresh.trans Option.isSome_some)]
    refine ⟨?_,by simp,rfl⟩
    dsimp only
    rw [basketContribution_price hp,show (st.basketContribution now bound c).weight = c.weight
      from rfl,term_eq hp (usablePrice_nonneg hnonneg hc hp),hs]
    unfold wrap128
    omega

theorem foldl_totals (now bound : Nat) (hnonneg : NonNegative st constituents) (t : BasketTotals)
    (hs : t.weightedSum = wrap128 s) :
    let r := constituents.foldl (fun t c => t.add (st.basketContribution now bound c)) t
    r.weightedSum = wrap128 (s + (constituents.map (term st now bound)).sum) ∧
      (r.anyUnusable = true ↔
        t.anyUnusable = true ∨ ∃ c ∈ constituents, usablePrice st now bound c = none) ∧
      r.contributions = t.contributions ++ constituents.map (st.basketContribution now bound) := by
  induction constituents generalizing t s with
  | nil => simp [hs]
  | cons c cs ih =>
    have hrest : NonNegative st cs := fun d hd => hnonneg d (List.mem_cons_of_mem c hd)
    obtain ⟨hsum,hany,hlegs⟩ :=
      add_contribution now bound hnonneg List.mem_cons_self t hs
    obtain ⟨hsum',hany',hlegs'⟩ := ih hrest _ hsum
    refine ⟨?_,?_,?_⟩
    · rw [List.foldl_cons,hsum',List.map_cons,List.sum_cons,Nat.add_assoc]
    · rw [List.foldl_cons,hany',hany,List.exists_mem_cons_iff,or_assoc]
    · rw [List.foldl_cons,hlegs',hlegs,List.append_assoc,List.map_cons]
      rfl

end Totals

section Value

variable {env : Env} {st : Store} {basket : Address} {config : BasketConfig}
  {constituents : List BasketConstituent} {maxStaleness : Option Nat} {now bound : Nat}

def stalenessBound (maxStaleness : Option Nat) : Nat := maxStaleness.getD defaultBasketMaxStaleness

/-- The policy of the basket rejects it. -/
def Refused (env : Env) (st : Store) (maxStaleness : Option Nat) (config : BasketConfig) : Prop :=
  config.stalenessPolicy = .reject ∧
    ∃ c ∈ config.constituents,
      usablePrice st env.timestamp (stalenessBound maxStaleness) c = none

/-- A basket that is not refused has a value, from the reduced sum. -/
theorem basketValue_eq (env : Env) (maxStaleness : Option Nat)
    (hbasket : st.baskets basket = some config)
    (hnonneg : NonNegative st config.constituents) :
    (Refused env st maxStaleness config →
      st.basketValue env maxStaleness basket = .error .basketConstituentStale) ∧
    (¬Refused env st maxStaleness config →
      ∃ v, st.basketValue env maxStaleness basket = .ok v ∧
        v.value = (wrap128 (config.constituents.map
          (term st env.timestamp (stalenessBound maxStaleness))).sum / basketWeightScale : Nat) ∧
        v.contributions = config.constituents.map
          (st.basketContribution env.timestamp (stalenessBound maxStaleness))) := by
  obtain ⟨hsum,hany,hlegs⟩ := foldl_totals (s := 0) env.timestamp (stalenessBound maxStaleness)
    hnonneg {} rfl
  set r := config.constituents.foldl (fun t c => t.add
    (st.basketContribution env.timestamp (stalenessBound maxStaleness) c)) ({} : BasketTotals)
  have hvalue : st.basketValue env maxStaleness basket =
      if r.anyUnusable = true ∧ config.stalenessPolicy = .reject then .error .basketConstituentStale
      else if i128Max < (r.weightedSum / basketWeightScale : Nat) then .error .invalidConfiguration
      else .ok {
        value := (r.weightedSum / basketWeightScale : Nat)
        decimals := st.getDecimals
        isDegraded := r.anyUnusable
        liveConstituents := r.live
        totalConstituents := config.constituents.length
        stalenessSecs := r.worstStaleness
        contributions := r.contributions } := by
    unfold Store.basketValue
    rw [hbasket]
    rfl
  have hrefused : r.anyUnusable = true ∧ config.stalenessPolicy = .reject ↔
      Refused env st maxStaleness config := by
    rw [hany,Refused,and_comm]
    simp
  -- the reduced sum is small enough for the range check
  have hsmall : ¬i128Max < (r.weightedSum / basketWeightScale : Nat) := by
    rw [hsum]
    unfold i128Max wrap128 basketWeightScale
    omega
  rw [hvalue]
  constructor
  · intro hrefuse
    rw [if_pos (hrefused.2 hrefuse)]
  · intro hkeep
    rw [if_neg fun h => hkeep (hrefused.1 h),if_neg hsmall]
    refine ⟨_,rfl,?_,?_⟩
    · rw [hsum,Nat.zero_add]
    · rw [hlegs,List.nil_append]

/-- What a value should be. -/
structure Valued (env : Env) (st : Store) (maxStaleness : Option Nat) (config : BasketConfig)
    (v : BasketValue) : Prop where
  value : v.value = weightedTotal st env.timestamp (stalenessBound maxStaleness)
    config.constituents / basketWeightScale
  between : ∀ lo hi : Int, (∀ c ∈ config.constituents, ∃ p,
      usablePrice st env.timestamp (stalenessBound maxStaleness) c = some p ∧ lo ≤ p ∧ p ≤ hi) →
    lo ≤ v.value ∧ v.value ≤ hi
  below : (v.contributions.map BasketContribution.contribution).sum ≤ v.value
  above : v.value - config.constituents.length <
    (v.contributions.map BasketContribution.contribution).sum

theorem weightedTotal_eq (now bound : Nat) (hnonneg : NonNegative st constituents) :
    weightedTotal st now bound constituents =
      ((constituents.map (term st now bound)).sum : Nat) := by
  unfold weightedTotal
  rw [Nat.cast_list_sum,List.map_map]
  congr 1
  refine List.map_congr_left fun c hc => ?_
  have hprice : 0 ≤ (usablePrice st now bound c).getD 0 := by
    cases hp : usablePrice st now bound c with
    | none => exact le_rfl
    | some p => exact (usablePrice_nonneg hnonneg hc hp).1
  rw [Function.comp_apply,term,Nat.cast_mul,Int.toNat_of_nonneg hprice]

theorem contributions_eq (now bound : Nat) (hnonneg : NonNegative st constituents)
    (hfits : (constituents.map (term st now bound)).sum < 2 ^ 128) :
    ((constituents.map (st.basketContribution now bound)).map BasketContribution.contribution).sum =
      (((constituents.map (term st now bound)).map (· / basketWeightScale)).sum : Nat) := by
  rw [Nat.cast_list_sum,List.map_map,List.map_map,List.map_map]
  congr 1
  refine List.map_congr_left fun c hc => ?_
  have hle : term st now bound c ≤ (constituents.map (term st now bound)).sum :=
    List.le_sum_of_mem (List.mem_map_of_mem hc)
  exact basketContribution_contribution hnonneg hc (hle.trans_lt hfits)

theorem weightedTotal_between (hwf : WellFormed config) {lo hi : Int}
    (h : ∀ c ∈ config.constituents, ∃ p, usablePrice st now bound c = some p ∧ lo ≤ p ∧ p ≤ hi) :
    lo * basketWeightScale ≤ weightedTotal st now bound config.constituents ∧
      weightedTotal st now bound config.constituents ≤ hi * basketWeightScale := by
  have hprice : ∀ c ∈ config.constituents,
      lo ≤ (usablePrice st now bound c).getD 0 ∧ (usablePrice st now bound c).getD 0 ≤ hi := by
    intro c hc
    obtain ⟨p,hp,hlohi⟩ := h c hc
    rwa [hp,Option.getD_some]
  have hbetween := weighted_sum_between BasketConstituent.weight hprice
  rwa [show (config.constituents.map BasketConstituent.weight).sum = basketWeightScale from
    hwf.total] at hbetween

/-- Without a reduction the value is right. -/
theorem valued_of_fits (hwf : WellFormed config) (hnonneg : NonNegative st config.constituents)
    (hfits : weightedTotal st env.timestamp (stalenessBound maxStaleness) config.constituents <
      2 ^ 128) {v : BasketValue}
    (hvalue : v.value = (wrap128 (config.constituents.map
      (term st env.timestamp (stalenessBound maxStaleness))).sum / basketWeightScale : Nat))
    (hlegs : v.contributions = config.constituents.map
      (st.basketContribution env.timestamp (stalenessBound maxStaleness))) :
    Valued env st maxStaleness config v := by
  have htotal := weightedTotal_eq env.timestamp (stalenessBound maxStaleness) hnonneg
  have hfloors := sum_div_le basketWeightScale (by decide) (config.constituents.map
    (term st env.timestamp (stalenessBound maxStaleness)))
  have hsum := contributions_eq env.timestamp (stalenessBound maxStaleness) hnonneg (by omega)
  rw [List.length_map] at hfloors
  rw [← hlegs] at hsum
  set total := (config.constituents.map
    (term st env.timestamp (stalenessBound maxStaleness))).sum
  have hexact : v.value = weightedTotal st env.timestamp (stalenessBound maxStaleness)
      config.constituents / basketWeightScale := by
    have hwrap : wrap128 total = total := Nat.mod_eq_of_lt (by omega)
    rw [hvalue,hwrap,htotal,Int.natCast_ediv]
  have hscale : (0 : Int) < basketWeightScale := by decide
  have hlength := hwf.nonempty
  constructor
  case value => exact hexact
  case between =>
    intro lo hi hall
    obtain ⟨hlow,hhigh⟩ := weightedTotal_between hwf hall
    rw [hexact]
    exact ⟨Int.le_ediv_of_mul_le hscale hlow,Int.ediv_le_of_le_mul hscale hhigh⟩
  case below =>
    rw [hsum,hexact,htotal]
    unfold basketWeightScale at hfloors ⊢
    omega
  case above =>
    rw [hsum,hexact,htotal]
    unfold basketWeightScale at hfloors ⊢
    omega

theorem not_valued_of_exceeds (hnonneg : NonNegative st config.constituents)
    (hexceeds : 2 ^ 128 ≤ weightedTotal st env.timestamp (stalenessBound maxStaleness)
      config.constituents) {v : BasketValue}
    (hvalue : v.value = (wrap128 (config.constituents.map
      (term st env.timestamp (stalenessBound maxStaleness))).sum / basketWeightScale : Nat)) :
    ¬Valued env st maxStaleness config v := by
  intro hvalued
  have hexact := hvalued.value
  rw [hvalue,weightedTotal_eq _ _ hnonneg] at hexact
  rw [weightedTotal_eq _ _ hnonneg] at hexceeds
  unfold wrap128 basketWeightScale at hexact
  omega

/-- Of every basket that a run stores, with non-negative aggregates, the value is right when there is
one, exactly if the basket is refused or the weighted total fits the accumulator. -/
theorem getBasketValue_valued_iff (env : Env) (maxStaleness : Option Nat) (basket : Address)
    (st₀ : Store) (ts : List BasketTx) (hst₀ : ∀ basket, st₀.baskets basket = none)
    (hst : run execBasket st₀ ts = st) (hbasket : st.baskets basket = some config)
    (hnonneg : NonNegative st config.constituents) :
    (∀ v w, getBasketValue maxStaleness basket (World.enter env st) = .ok v w →
      Valued env st maxStaleness config v) ↔
    Refused env st maxStaleness config ∨
      weightedTotal st env.timestamp (stalenessBound maxStaleness) config.constituents <
        2 ^ 128 := by
  have hwf : WellFormed config := by
    rw [← hst] at hbasket
    exact run_wellFormed (wellFormed_of_empty hst₀) ts basket config hbasket
  obtain ⟨hrefused,hkept⟩ := basketValue_eq env maxStaleness hbasket hnonneg
  unfold getBasketValue consult
  dsimp only [World.enter]
  by_cases hrefuse : Refused env st maxStaleness config
  · rw [hrefused hrefuse]
    exact iff_of_true (fun _ _ h => nomatch h) (Or.inl hrefuse)
  · obtain ⟨v,hok,hvalue,hlegs⟩ := hkept hrefuse
    rw [hok,or_iff_right hrefuse]
    constructor
    · intro hvalued
      by_contra hexceeds
      exact not_valued_of_exceeds hnonneg (not_lt.1 hexceeds) hvalue (hvalued v _ rfl)
    · rintro hfits _ _ ⟨⟩
      exact valued_of_fits hwf hnonneg hfits hvalue hlegs

end Value

/-- Three constituents, the last of which has no aggregate. -/
def mixed : BasketConfig where
  constituents := [⟨2, 500000⟩, ⟨3, 300000⟩, ⟨4, 200000⟩]
  totalWeight := 0
  stalenessPolicy := .degrade
  rebalancePolicy := .manual

def mixedRun : List BasketTx :=
  [⟨.concrete 100 5 [9], .call (.set 1 mixed)⟩,
    ⟨.concrete 101 5 [], .elsewhere { basketStore with
      aggregate := fun a =>
        if a = 2 then some ⟨7, 5, 3, 14, false, 1⟩
        else if a = 3 then some ⟨9, 5, 3, 14, false, 1⟩ else none }⟩]

def mixedStore : Store := run execBasket basketStore mixedRun

theorem mixedStore_nonNegative : NonNegative mixedStore (scaled mixed).constituents := by
  intro c _ agg hagg
  change (if c.asset = 2 then some _ else if c.asset = 3 then some _ else none) = some agg at hagg
  split_ifs at hagg <;> cases hagg <;> decide

/-- The shares are rounded down one by one, and come to one less than the value. -/
theorem getBasketValue_valued_mixed : ∃ v,
    getBasketValue none 1 (World.enter (.concrete 102 5 []) mixedStore) =
      .ok v (World.enter (.concrete 102 5 []) mixedStore) ∧
    Valued (.concrete 102 5 []) mixedStore none (scaled mixed) v ∧ v.value = 6 ∧
    (v.contributions.map BasketContribution.contribution).sum = 5 := by
  refine ⟨_,rfl,?_,by decide +kernel,by decide +kernel⟩
  exact (getBasketValue_valued_iff (.concrete 102 5 []) none 1 basketStore mixedRun
    (fun _ => rfl) rfl rfl mixedStore_nonNegative).2 (Or.inr (by decide +kernel)) _ _ rfl

/-- A basket of one constituent, whose price is the greatest there is. -/
def greatestStore : Store :=
  run execBasket basketStore [setAt 1 2,
    ⟨.concrete 101 5 [], .elsewhere { basketStore with
      aggregate := Function.update (fun _ => none) 2 (some ⟨i128Max, 5, 3, 14, false, 1⟩) }⟩]

theorem greatestStore_nonNegative :
    NonNegative greatestStore (scaled (single 2)).constituents := by
  intro c hc agg hagg
  cases List.mem_singleton.1 hc
  cases hagg
  decide

/-- At the greatest price the accumulator keeps a remainder only. -/
theorem getBasketValue_greatest :
    NonNegative greatestStore (scaled (single 2)).constituents ∧
    ∃ v, getBasketValue none 1 (World.enter (.concrete 102 5 []) greatestStore) =
        .ok v (World.enter (.concrete 102 5 []) greatestStore) ∧
      ¬Valued (.concrete 102 5 []) greatestStore none (scaled (single 2)) v := by
  refine ⟨greatestStore_nonNegative,_,rfl,fun hvalued => ?_⟩
  exact absurd hvalued.value (by decide +kernel)

end PriceOracle.Baskets
