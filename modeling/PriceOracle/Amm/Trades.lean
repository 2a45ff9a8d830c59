import PriceOracle.Custody.Operations
import PriceOracle.Model.Amm

/-! # What a call does to a pool

A successful swap prices its output by the product of the reserves, without the fee, and then adds
the whole amount to the reserve. The product after it exceeds the one before by what the fee is
worth, less the remainder of the division. -/

namespace PriceOracle.Amm

open Model Lib.Transaction Lib.MachineInt

theorem le_shifted_mul_div (n fee k : Nat) : k ≤ (n + fee) * (k / n) ↔ k % n ≤ fee * (k / n) := by
  rw [Nat.add_mul]
  have hdiv := Nat.div_add_mod k n
  omega

end PriceOracle.Amm

namespace PriceOracle.Model.AmmPool

open Lib.MachineInt

variable (p : AmmPool) {d : Bool} {amountIn : Nat} {fromAsset toAsset token : Address}

/-- What the pool records of a token, on either side. -/
def reserveOf (token : Address) : Nat :=
  (if token = p.assetX then p.reserveX else 0) + if token = p.assetY then p.reserveY else 0

def afterFee (amountIn : Nat) : Nat :=
  amountIn * wrap128 (10000 + 2 ^ 128 - p.feeBps) / 10000

/-- The reserve of the incoming token that the output is priced at. -/
def shifted (d : Bool) (amountIn : Nat) : Nat := p.reserveIn d + p.afterFee amountIn

/-- The reserve of the outgoing token that keeps the product, rounded down. -/
def quoted (d : Bool) (amountIn : Nat) : Nat := p.k / p.shifted d amountIn

def amountOut (d : Bool) (amountIn : Nat) : Nat := p.reserveOut d - p.quoted d amountIn

/-- The reserves that the guard of a swap compares: both are those without the fee. -/
def guardX (d : Bool) (amountIn : Nat) : Nat :=
  if d then p.shifted d amountIn else p.quoted d amountIn

def guardY (d : Bool) (amountIn : Nat) : Nat :=
  if d then p.quoted d amountIn else p.shifted d amountIn

def traded (d : Bool) (amountIn : Nat) : AmmPool :=
  let moved := p.exchange d amountIn (p.amountOut d amountIn)
  { moved with k := moved.reserveX * moved.reserveY }

variable {p}

theorem direction_eq_some (h : p.direction fromAsset toAsset = some d) :
    (d = true → fromAsset = p.assetX ∧ toAsset = p.assetY) ∧
      (d = false → fromAsset = p.assetY ∧ toAsset = p.assetX) := by
  unfold direction at h
  split_ifs at h with hxy hyx
  · cases h
    simpa using hxy
  · cases h
    simpa using hyx

theorem reserveX_le_reserveOf : p.reserveX ≤ p.reserveOf p.assetX := by
  simp [reserveOf]

theorem reserveY_le_reserveOf : p.reserveY ≤ p.reserveOf p.assetY := by
  simp [reserveOf]

theorem traded_assetX : (p.traded d amountIn).assetX = p.assetX := by cases d <;> rfl

theorem traded_assetY : (p.traded d amountIn).assetY = p.assetY := by cases d <;> rfl

theorem traded_feeBps : (p.traded d amountIn).feeBps = p.feeBps := by cases d <;> rfl

theorem traded_k :
    (p.traded d amountIn).k = (p.traded d amountIn).reserveX * (p.traded d amountIn).reserveY :=
  rfl

/-- The amount comes in whole, the output goes out, on whichever sides the two tokens stand. -/
theorem reserveOf_traded (hdir : p.direction fromAsset toAsset = some d)
    (hroom : p.reserveIn d + amountIn ≤ u128Max) (hquoted : p.quoted d amountIn ≤ p.reserveOut d)
    (token : Address) :
    (p.traded d amountIn).reserveOf token + (if token = toAsset then p.amountOut d amountIn else 0) =
      p.reserveOf token + if token = fromAsset then amountIn else 0 := by
  obtain ⟨htrue,hfalse⟩ := direction_eq_some hdir
  cases d with
  | true =>
    obtain ⟨hfrom,hto⟩ := htrue rfl
    have hadd : satAdd128 p.reserveX amountIn = p.reserveX + amountIn := min_eq_left hroom
    simp only [reserveOf,traded,exchange,amountOut,reserveOut,hadd,hfrom,hto,if_true]
    split_ifs <;> omega
  | false =>
    obtain ⟨hfrom,hto⟩ := hfalse rfl
    have hadd : satAdd128 p.reserveY amountIn = p.reserveY + amountIn := min_eq_left hroom
    simp only [reserveOf,traded,exchange,amountOut,reserveOut,hadd,hfrom,hto,
      Bool.false_eq_true,if_false]
    split_ifs <;> omega

theorem afterFee_le (hfee : p.feeBps ≤ 10000) : p.afterFee amountIn ≤ amountIn := by
  have hfactor : wrap128 (10000 + 2 ^ 128 - p.feeBps) ≤ 10000 := by
    unfold wrap128
    omega
  apply Nat.div_le_of_le_mul
  rw [Nat.mul_comm 10000]
  exact Nat.mul_le_mul_left amountIn hfactor

/-- The product does not fall exactly if the fee makes up for the rounding. -/
theorem k_le_traded (hfee : p.feeBps ≤ 10000) (hroom : p.reserveIn d + amountIn ≤ u128Max)
    (hquoted : p.quoted d amountIn ≤ p.reserveOut d) :
    p.k ≤ (p.traded d amountIn).k ↔
      p.k % p.shifted d amountIn ≤ (amountIn - p.afterFee amountIn) * p.quoted d amountIn := by
  have hproduct : (p.traded d amountIn).k =
      (p.shifted d amountIn + (amountIn - p.afterFee amountIn)) * p.quoted d amountIn := by
    have hin : p.shifted d amountIn + (amountIn - p.afterFee amountIn) = p.reserveIn d + amountIn := by
      have hle : p.afterFee amountIn ≤ amountIn := afterFee_le hfee
      unfold shifted
      omega
    have hout : p.reserveOut d - p.amountOut d amountIn = p.quoted d amountIn := by
      unfold amountOut
      omega
    rw [hin,← hout,traded_k]
    cases d with
    | true =>
      change satAdd128 p.reserveX amountIn * _ = _
      rw [show satAdd128 p.reserveX amountIn = p.reserveX + amountIn from min_eq_left hroom]
      rfl
    | false =>
      change _ * satAdd128 p.reserveY amountIn = _
      rw [show satAdd128 p.reserveY amountIn = p.reserveY + amountIn from min_eq_left hroom,
        Nat.mul_comm]
      rfl
  rw [hproduct]
  exact Amm.le_shifted_mul_div _ _ _

end PriceOracle.Model.AmmPool

namespace PriceOracle.Amm

open Model Lib.Transaction Lib.MachineInt

section Effects

variable {w : World} {asset : Symbol} {caller : Address} (a b : Nat) (pool : AmmPool)

/-- What adding liquidity to the pool `p` has done once the storage is `u`. -/
structure Added (env : Env) (st : Store) (asset : Symbol) (caller : Address)
    (amountX amountY : Int) (p : AmmPool) (u : Store) : Prop where
  authorized : env.authorized caller = true
  positive : 0 < amountX ∧ 0 < amountY
  found : st.amm.pool asset = some p
  paid : ∃ c, env.host.transfer p.assetX caller env.host.contractAddress amountX
    st.custody.balance = some c ∧
    env.host.transfer p.assetY caller env.host.contractAddress amountY c = some u.custody.balance
  written : u.amm.pool asset = some { p with
    reserveX := satAdd128 p.reserveX (toU128 amountX)
    reserveY := satAdd128 p.reserveY (toU128 amountY)
    k := satAdd128 p.reserveX (toU128 amountX) * satAdd128 p.reserveY (toU128 amountY) }

/-- What a swap of the pool `p` in direction `d` has done once the storage is `u`. -/
structure Swapped (env : Env) (st : Store) (asset : Symbol) (caller fromAsset toAsset : Address)
    (amountIn : Int) (p : AmmPool) (d : Bool) (u : Store) : Prop where
  authorized : env.authorized caller = true
  positive : 0 < amountIn
  found : st.amm.pool asset = some p
  directed : p.direction fromAsset toAsset = some d
  shifted : 0 < p.shifted d (toU128 amountIn) ∧ p.shifted d (toU128 amountIn) ≤ u128Max
  quoted : p.quoted d (toU128 amountIn) < p.reserveOut d
  guarded : 0 < st.oraclePriceForAsset p.assetX → 0 < p.guardX d (toU128 amountIn) →
    computeDeviationBps
        (p.guardY d (toU128 amountIn) * 1000000000000000000 / p.guardX d (toU128 amountIn))
        (st.oraclePriceForAsset p.assetX) ≤ st.readMaxDeviationBps
  paid : env.host.transfer toAsset env.host.contractAddress caller
    (wrap (p.amountOut d (toU128 amountIn))) st.custody.balance = some u.custody.balance
  written : u.amm.pool asset = some (p.traded d (toU128 amountIn))

theorem transfer_moves (token sender recipient : Address) (amount : Int) :
    Sat (transferToken token sender recipient amount) w fun _ w' =>
      w.env.host.transfer token sender recipient amount w.store.custody.balance =
        some w'.store.custody.balance ∧ w'.env = w.env ∧ w'.store.amm = w.store.amm := by
  rw [sat_transferToken]
  exact fun b hb => ⟨hb,rfl,rfl⟩

theorem safeMulU128_sat : Sat (safeMulU128 a b) w fun r w' => r = a * b ∧ w' = w := by
  refine (sat_consult _).2 fun r hr => ?_
  split_ifs at hr
  cases hr
  exact ⟨rfl,rfl⟩

theorem safeDivU128_sat : Sat (safeDivU128 a b) w fun r w' => r = a / b ∧ 0 < b ∧ w' = w := by
  refine (sat_consult _).2 fun r hr => ?_
  split_ifs at hr with hb
  cases hr
  exact ⟨rfl,Nat.pos_of_ne_zero hb,rfl⟩

theorem checkedAddU128_sat :
    Sat (checkedAddU128 a b) w fun r w' => r = a + b ∧ a + b ≤ u128Max ∧ w' = w := by
  refine (sat_consult _).2 fun r hr => ?_
  split_ifs at hr with hfits
  cases hr
  exact ⟨rfl,hfits,rfl⟩

theorem foundPool_sat :
    Sat (foundPool asset) w fun p w' => w.store.amm.pool asset = some p ∧ w' = w :=
  sat_lookup (by cases w.store.amm.pool asset <;> rfl)

theorem enabledPool_sat :
    Sat (enabledPool asset) w fun p w' => w.store.amm.pool asset = some p ∧ w' = w := by
  refine (sat_consult _).2 fun p hp => ?_
  cases hpool : w.store.amm.pool asset with
  | none => simp [hpool] at hp
  | some q =>
    simp only [hpool] at hp
    split_ifs at hp
    cases hp
    exact ⟨rfl,rfl⟩

theorem initAmm_sat (assetX assetY : Address) (initialX initialY : Int) :
    Sat (initAmm asset assetX assetY initialX initialY) w fun _ w' =>
      (0 < initialX ∧ 0 < initialY ∧ w.store.amm.pool asset = none) ∧
        w'.store.amm.pool asset = some ⟨assetX,assetY,toU128 initialX,toU128 initialY,
          toU128 initialX * toU128 initialY,true,defaultFeeBps⟩ ∧
        w'.store.custody = w.store.custody := by
  refine (sat_asAdmin _).2 fun admin _ _ => ?_
  simp only [sat_bind,sat_ensure,readPool,sat_readStore]
  intro hpos hnone
  have hfresh : w.store.amm.pool asset = none := by simpa using hnone
  refine (safeMulU128_sat _ _).mono ?_
  rintro k u ⟨hk,hu⟩
  subst hk hu
  exact (sat_update _ _).2 ⟨⟨by omega,by omega,hfresh⟩,Function.update_self ..,rfl⟩

theorem addLiquidity_sat (amountX amountY : Int) :
    Sat (addLiquidity caller asset amountX amountY) w fun _ w' =>
      ∃ p, Added w.env w.store asset caller amountX amountY p w'.store := by
  simp only [addLiquidity,sat_bind,sat_requireAuth,sat_ensure]
  intro hauth hpos
  refine foundPool_sat.mono ?_
  rintro p u ⟨hp,hu⟩
  subst hu
  simp only [getContractAddress,sat_readStore]
  refine (transfer_moves _ _ _ _).mono ?_
  rintro _ u ⟨hx,henvu,hammu⟩
  refine (transfer_moves _ _ _ _).mono ?_
  rintro _ v ⟨hy,henvv,hammv⟩
  refine (safeMulU128_sat _ _).mono ?_
  rintro k t ⟨hk,ht⟩
  subst hk ht
  rw [henvu] at hy
  exact (sat_update _ _).2 ⟨p,hauth,⟨by omega,by omega⟩,hp,⟨_,hx,hy⟩,Function.update_self ..⟩

theorem checkManipulation_sat (newRx newRy : Nat) :
    Sat (checkManipulation pool newRx newRy) w fun _ w' => w' = w ∧
      (0 < w.store.oraclePriceForAsset pool.assetX → 0 < newRx →
        computeDeviationBps (newRy * 1000000000000000000 / newRx)
          (w.store.oraclePriceForAsset pool.assetX) ≤ w.store.readMaxDeviationBps) := by
  refine sat_ite _ (fun _ => ?_) fun hskip => ?_
  · refine (safeMulU128_sat _ _).andThen ?_
    rintro scaled u ⟨rfl,rfl⟩
    refine (safeDivU128_sat _ _).andThen ?_
    rintro spot v ⟨rfl,-,rfl⟩
    refine (sat_bind _ _).2 ((sat_readStore _ _).2 ((sat_ensure _ _ _).2 fun hdev => ?_))
    exact ⟨rfl,fun _ _ => Nat.le_of_not_lt hdev⟩
  · exact (sat_pure _).2 ⟨rfl,fun horacle hreserve => absurd ⟨horacle,hreserve⟩ hskip⟩

theorem amountAfterFee_sat (amountIn : Nat) :
    Sat (amountAfterFee pool amountIn) w fun r w' => r = pool.afterFee amountIn ∧ w' = w := by
  refine (safeMulU128_sat _ _).andThen ?_
  rintro scaled u ⟨hscaled,hu⟩
  subst hscaled hu
  refine (safeDivU128_sat _ _).mono ?_
  rintro r v ⟨hr,-,hv⟩
  exact ⟨hr,hv⟩

theorem swap_sat (fromAsset toAsset : Address) (amountIn minReturn : Int) :
    Sat (swap caller asset fromAsset toAsset amountIn minReturn) w fun _ w' =>
      ∃ p d, Swapped w.env w.store asset caller fromAsset toAsset amountIn p d w'.store := by
  simp only [swap,sat_bind,sat_requireAuth,sat_ensure]
  intro hauth hamount
  refine enabledPool_sat.mono ?_
  rintro p u ⟨hp,hu⟩
  subst hu
  refine (sat_lookup (o := p.direction fromAsset toAsset) ?_).mono ?_
  · cases p.direction fromAsset toAsset <;> rfl
  rintro d u ⟨hd,rfl⟩
  refine (amountAfterFee_sat p _).mono ?_
  rintro after u ⟨hafter,hu⟩
  subst hafter hu
  refine (checkedAddU128_sat _ _).mono ?_
  rintro shifted u ⟨hshifted,hfits,hu⟩
  subst hshifted hu
  refine (safeDivU128_sat _ _).mono ?_
  rintro quoted u ⟨hquoted,hpos,hu⟩
  subst hquoted hu
  intro hless _
  refine (checkManipulation_sat _ _ _).mono ?_
  rintro _ u ⟨hu,hguarded⟩
  subst hu
  refine (safeMulU128_sat _ _).mono ?_
  rintro k u ⟨hk,hu⟩
  subst hk hu
  simp only [writePool,modifyAmm,sat_update,getContractAddress,sat_readStore]
  refine (transfer_moves _ _ _ _).mono ?_
  rintro _ t ⟨ht,-,hamm⟩
  rw [sat_pure]
  refine ⟨p,d,hauth,by omega,hp,hd,⟨hpos,hfits⟩,hless,hguarded,ht,?_⟩
  rw [hamm]
  exact Function.update_self ..

theorem setAmmStatus_sat (enabled : Bool) :
    Sat (setAmmStatus asset enabled) w fun _ w' =>
      ∃ p, w.store.amm.pool asset = some p ∧
        w'.store.amm.pool asset = some { p with enabled := enabled } ∧
        w'.store.custody = w.store.custody := by
  refine (sat_asAdmin _).2 fun admin _ _ => ?_
  refine foundPool_sat.andThen ?_
  rintro p u ⟨hp,hu⟩
  subst hu
  exact (sat_update _ _).2 ⟨p,hp,Function.update_self ..,rfl⟩

end Effects

end PriceOracle.Amm
