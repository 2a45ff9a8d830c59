import PriceOracle.Amm.Trades
import PriceOracle.Custody.Solvency

/-! # The tokens behind a pool

Neither the creation of a pool nor a swap takes a token from anybody, so the reserves are backed only
where the contract has the tokens already; and the remainder of the division is the trader's. -/

namespace PriceOracle.Amm

open Model Lib.Transaction Lib.MachineInt Lib.Run Custody

/-- A symbol and the two tokens of its pool. -/
structure Pair where
  asset : Symbol
  tokenX : Address
  tokenY : Address

def Pair.Has (pair : Pair) (token : Address) : Prop := token = pair.tokenX ∨ token = pair.tokenY

deriving instance Decidable for Pair.Has

inductive AmmCall
  | init (initialX initialY : Int)
  | addLiquidity (caller : Address) (amountX amountY : Int)
  | swap (caller fromAsset toAsset : Address) (amountIn minReturn : Int)
  | setStatus (enabled : Bool)

def AmmCall.body (pair : Pair) : AmmCall → Contract Unit
  | init initialX initialY => initAmm pair.asset pair.tokenX pair.tokenY initialX initialY
  | addLiquidity caller amountX amountY => Model.addLiquidity caller pair.asset amountX amountY
  | swap caller fromAsset toAsset amountIn minReturn => do
    let _ ← Model.swap caller pair.asset fromAsset toAsset amountIn minReturn
    pure ()
  | setStatus enabled => setAmmStatus pair.asset enabled

/-- A call, or a change elsewhere: it leaves the pool as it is and takes none of its tokens from the
contract. -/
inductive AmmAct
  | call (call : AmmCall)
  | elsewhere (rest : Store)

structure AmmTx where
  env : Env
  act : AmmAct

def execAmm (pair : Pair) (st : Store) (t : AmmTx) : Store :=
  match t.act with
  | .call call => invoke (call.body pair) t.env st
  | .elsewhere rest =>
    { rest with
      amm := { rest.amm with
        pool := Function.update rest.amm.pool pair.asset (st.amm.pool pair.asset) }
      custody := { rest.custody with
        balance := fun token holder =>
          if pair.Has token ∧ holder = t.env.host.contractAddress then
            max (rest.custody.balance token holder) (st.custody.balance token holder)
          else rest.custody.balance token holder } }

/-- The amounts are words. -/
def AmmTx.Typed (t : AmmTx) : Prop :=
  match t.act with
  | .call (.init initialX initialY) => initialX ≤ i128Max ∧ initialY ≤ i128Max
  | .call (.addLiquidity _ amountX amountY) => amountX ≤ i128Max ∧ amountY ≤ i128Max
  | .call (.swap _ _ _ amountIn _) => amountIn ≤ i128Max
  | .call (.setStatus _) => True
  | .elsewhere rest => ∀ token holder, rest.custody.balance token holder ≤ i128Max

/-- The contract has what the pool records of each of its tokens. -/
def Backed (contract : Address) (b : Balances) (p : AmmPool) : Prop :=
  ∀ token, token = p.assetX ∨ token = p.assetY → (p.reserveOf token : Int) ≤ b token contract

def Sound (pair : Pair) (contract : Address) (st : Store) : Prop :=
  ∀ p, st.amm.pool pair.asset = some p →
    Backed contract st.custody.balance p ∧ p.k = p.reserveX * p.reserveY

def KeepsProduct (pair : Pair) (st : Store) (t : AmmTx) : Prop :=
  match t.act with
  | .call (.swap _ _ _ _ _) => ∀ p p', st.amm.pool pair.asset = some p →
      (execAmm pair st t).amm.pool pair.asset = some p' → p.k ≤ p'.k
  | _ => True

def Pair.seeded (pair : Pair) (initialX initialY : Int) : AmmPool :=
  ⟨pair.tokenX, pair.tokenY, toU128 initialX, toU128 initialY,
    toU128 initialX * toU128 initialY, true, defaultFeeBps⟩

/-- The contract already has the tokens that a new pool records, or that a swap adds to a reserve,
and the fee of the swap makes up for its rounding. -/
def Covered (pair : Pair) (contract : Address) (st : Store) (t : AmmTx) : Prop :=
  match t.act with
  | .call (.init initialX initialY) =>
    failure (AmmCall.body pair (.init initialX initialY)) t.env st = none →
      Backed contract st.custody.balance (pair.seeded initialX initialY)
  | .call (.swap caller fromAsset toAsset amountIn minReturn) =>
    failure (AmmCall.body pair (.swap caller fromAsset toAsset amountIn minReturn)) t.env st = none →
      ∀ p d, st.amm.pool pair.asset = some p → p.direction fromAsset toAsset = some d →
        p.reserveOf fromAsset + amountIn ≤ st.custody.balance fromAsset contract ∧
          p.k % p.shifted d (toU128 amountIn) ≤
            (toU128 amountIn - p.afterFee (toU128 amountIn)) * p.quoted d (toU128 amountIn)
  | _ => True

section Steps

variable {pair : Pair} {contract : Address} {env : Env} {st : Store}

/-- Both tokens are honest, and the contract is called under its own address. -/
def Hosts (pair : Pair) (contract : Address) (env : Env) : Prop :=
  Hosted pair.tokenX contract env ∧ Hosted pair.tokenY contract env

theorem Hosts.hosted (h : Hosts pair contract env) {token : Address} (ht : pair.Has token) :
    Hosted token contract env := by
  rcases ht with rfl | rfl
  · exact h.1
  · exact h.2

/-- What every step keeps, backed or not. -/
structure Shaped (pair : Pair) (contract : Address) (st : Store) : Prop where
  bounded : ∀ token, pair.Has token → st.custody.balance token contract ≤ i128Max
  pool : ∀ p, st.amm.pool pair.asset = some p →
    p.assetX = pair.tokenX ∧ p.assetY = pair.tokenY ∧ p.feeBps = defaultFeeBps

theorem toU128_cast {x : Int} (hpos : 0 < x) (hmax : x ≤ i128Max) : (toU128 x : Int) = x := by
  unfold toU128
  unfold i128Max at hmax
  omega

theorem move_out {token other caller : Address} {amount : Int} {b : Balances}
    (h : contract ≠ caller) :
    b.move token contract caller amount other contract =
      b other contract - if other = token then amount else 0 := by
  by_cases hother : other = token
  · subst hother
    rw [move_sender h,if_pos rfl]
  · simp [Balances.move,hother]

theorem move_in {token other caller : Address} {amount : Int} {b : Balances}
    (h : caller ≠ contract) :
    b.move token caller contract amount other contract =
      b other contract + if other = token then amount else 0 := by
  by_cases hother : other = token
  · subst hother
    rw [move_recipient h,if_pos rfl]
  · simp [Balances.move,hother]

/-- A swap that goes through stays backed exactly if the amount it adds was there already. -/
theorem swap_backed_iff {p : AmmPool} {d : Bool} {caller fromAsset toAsset : Address} {a : Nat}
    {b : Balances} (hcaller : contract ≠ caller)
    (hdir : p.direction fromAsset toAsset = some d) (hroom : p.reserveIn d + a ≤ u128Max)
    (hquoted : p.quoted d a ≤ p.reserveOut d) (hb : Backed contract b p) :
    Backed contract (b.move toAsset contract caller (p.amountOut d a)) (p.traded d a) ↔
      (p.reserveOf fromAsset : Int) + a ≤ b fromAsset contract := by
  have hfrom : fromAsset = p.assetX ∨ fromAsset = p.assetY := by
    obtain ⟨htrue,hfalse⟩ := AmmPool.direction_eq_some hdir
    cases d with
    | true => exact .inl (htrue rfl).1
    | false => exact .inr (hfalse rfl).1
  have hrecorded (token : Address) := AmmPool.reserveOf_traded hdir hroom hquoted token
  unfold Backed
  rw [AmmPool.traded_assetX,AmmPool.traded_assetY]
  constructor
  · intro h
    have hown := h fromAsset hfrom
    have hsum := hrecorded fromAsset
    rw [move_out hcaller] at hown
    rw [if_pos rfl] at hsum
    split_ifs at hown hsum <;> omega
  · intro h token htoken
    have hbefore := hb token htoken
    have hsum := hrecorded token
    rw [move_out hcaller]
    by_cases htoken' : token = fromAsset
    · subst htoken'
      split_ifs at hsum ⊢ <;> omega
    · split_ifs at hsum ⊢ <;> omega

theorem reserve_le {p : AmmPool} {b : Balances} (hb : Backed contract b p)
    (hbounded : ∀ token, token = p.assetX ∨ token = p.assetY → b token contract ≤ i128Max)
    (d : Bool) : (p.reserveIn d : Int) ≤ i128Max ∧ (p.reserveOut d : Int) ≤ i128Max := by
  have hx := (hb p.assetX (.inl rfl)).trans (hbounded p.assetX (.inl rfl))
  have hy := (hb p.assetY (.inr rfl)).trans (hbounded p.assetY (.inr rfl))
  have hrx : p.reserveX ≤ p.reserveOf p.assetX := AmmPool.reserveX_le_reserveOf
  have hry : p.reserveY ≤ p.reserveOf p.assetY := AmmPool.reserveY_le_reserveOf
  cases d with
  | true =>
    change (p.reserveX : Int) ≤ i128Max ∧ (p.reserveY : Int) ≤ i128Max
    omega
  | false =>
    change (p.reserveY : Int) ≤ i128Max ∧ (p.reserveX : Int) ≤ i128Max
    omega

variable (hhosts : Hosts pair contract env)
include hhosts

theorem Shaped.hosted (h : Shaped pair contract st) {p : AmmPool}
    (hp : st.amm.pool pair.asset = some p) {token : Address}
    (ht : token = p.assetX ∨ token = p.assetY) : Hosted token contract env := by
  obtain ⟨hx,hy,-⟩ := h.pool p hp
  rw [hx,hy] at ht
  exact hhosts.hosted ht

omit hhosts in
theorem move_bounded {token : Address} {w w' : Balances} {sender recipient other : Address}
    {amount : Int} (hhost : Hosted token contract env) (h : w token contract ≤ i128Max)
    (ht : env.host.transfer other sender recipient amount w = some w') :
    w' token contract ≤ i128Max := by
  have hbound := hhost.honest.bounded ht
  rw [hhost.contractAddress] at hbound
  exact hbound h

theorem swap_step_iff {caller fromAsset toAsset : Address} {amountIn minReturn : Int}
    (h : Shaped pair contract st) (hsound : Sound pair contract st) (hmax : amountIn ≤ i128Max)
    (hrun : failure (AmmCall.body pair (.swap caller fromAsset toAsset amountIn minReturn)) env st =
      none) :
    let t : AmmTx := ⟨env,.call (.swap caller fromAsset toAsset amountIn minReturn)⟩
    Shaped pair contract (execAmm pair st t) ∧
      ((Sound pair contract (execAmm pair st t) ∧ KeepsProduct pair st t) ↔
        Covered pair contract st t) := by
  intro t
  have hsat : Sat (AmmCall.body pair (.swap caller fromAsset toAsset amountIn minReturn))
      (World.enter env st) fun _ w => ∃ p d,
        Swapped env st pair.asset caller fromAsset toAsset amountIn p d w.store :=
    (swap_sat fromAsset toAsset amountIn minReturn).andThen fun _ w hw => (sat_pure ()).2 hw
  obtain ⟨p,d,hdone⟩ := invoke_of_success (Q := fun u => ∃ p d,
    Swapped env st pair.asset caller fromAsset toAsset amountIn p d u) hrun hsat
  change Swapped env st pair.asset caller fromAsset toAsset amountIn p d (execAmm pair st t) at hdone
  have htokens (token : Address) (ht : token = p.assetX ∨ token = p.assetY) :=
    h.hosted hhosts hdone.found ht
  obtain ⟨hx,hy,hfee⟩ := h.pool p hdone.found
  obtain ⟨hbacked,hk⟩ := hsound p hdone.found
  have hbounded (token : Address) (ht : token = p.assetX ∨ token = p.assetY) :
      st.custody.balance token contract ≤ i128Max := by
    rw [hx,hy] at ht
    exact h.bounded token ht
  obtain ⟨hinMax,houtMax⟩ := reserve_le hbacked hbounded d
  have hcast : (toU128 amountIn : Int) = amountIn := toU128_cast hdone.positive hmax
  have hroom : p.reserveIn d + toU128 amountIn ≤ u128Max := by
    unfold i128Max at hinMax hmax
    unfold u128Max
    omega
  have hto : toAsset = p.assetX ∨ toAsset = p.assetY := by
    obtain ⟨htrue,hfalse⟩ := AmmPool.direction_eq_some hdone.directed
    cases d with
    | true => exact .inr (htrue rfl).2
    | false => exact .inl (hfalse rfl).2
  have hcaller : contract ≠ caller := (not_contract (htokens toAsset hto) hdone.authorized).symm
  have hwrap : wrap (p.amountOut d (toU128 amountIn)) = p.amountOut d (toU128 amountIn) := by
    have hle : p.amountOut d (toU128 amountIn) ≤ p.reserveOut d := Nat.sub_le _ _
    unfold i128Max at houtMax
    unfold wrap
    omega
  have hpaid := hdone.paid
  rw [hwrap,(htokens toAsset hto).contractAddress] at hpaid
  obtain ⟨-,hbalance⟩ := (htokens toAsset hto).honest.moves hpaid
  refine ⟨⟨fun token ht => ?_,fun p' hp' => ?_⟩,?_⟩
  · exact move_bounded (hhosts.hosted ht) (h.bounded token ht) hdone.paid
  · rw [hdone.written,Option.some.injEq] at hp'
    rw [← hp',AmmPool.traded_assetX,AmmPool.traded_assetY,AmmPool.traded_feeBps]
    exact ⟨hx,hy,hfee⟩
  · have hsoundIff : Sound pair contract (execAmm pair st t) ↔
        (p.reserveOf fromAsset : Int) + amountIn ≤ st.custody.balance fromAsset contract := by
      rw [← hcast,← swap_backed_iff hcaller hdone.directed hroom hdone.quoted.le hbacked,
        ← hbalance]
      constructor
      · intro hnext
        exact (hnext _ hdone.written).1
      · intro hnext p' hp'
        rw [hdone.written,Option.some.injEq] at hp'
        subst hp'
        exact ⟨hnext,AmmPool.traded_k⟩
    have hproductIff : KeepsProduct pair st t ↔ p.k % p.shifted d (toU128 amountIn) ≤
        (toU128 amountIn - p.afterFee (toU128 amountIn)) * p.quoted d (toU128 amountIn) := by
      have hfee' : p.feeBps ≤ 10000 := by
        rw [hfee]
        decide
      rw [← AmmPool.k_le_traded hfee' hroom hdone.quoted.le]
      constructor
      · intro hkeeps
        exact hkeeps _ _ hdone.found hdone.written
      · intro hle p₁ p₂ hp₁ hp₂
        rw [hdone.found,Option.some.injEq] at hp₁
        rw [hdone.written,Option.some.injEq] at hp₂
        rw [← hp₁,← hp₂]
        exact hle
    rw [hsoundIff,hproductIff]
    constructor
    · rintro hboth - p₁ d₁ hp₁ hd₁
      rw [hdone.found,Option.some.injEq] at hp₁
      subst hp₁
      rw [hdone.directed,Option.some.injEq] at hd₁
      subst hd₁
      exact hboth
    · intro hcovered
      exact hcovered hrun p d hdone.found hdone.directed

omit hhosts in
theorem sound_of_pool {u : Store} {p : AmmPool} (hp : u.amm.pool pair.asset = some p)
    (hb : Backed contract u.custody.balance p) (hk : p.k = p.reserveX * p.reserveY) :
    Sound pair contract u := by
  intro q hq
  rw [hp,Option.some.injEq] at hq
  subst hq
  exact ⟨hb,hk⟩

theorem add_step {caller : Address} {amountX amountY : Int} (h : Shaped pair contract st)
    (hsound : Sound pair contract st) (hmax : amountX ≤ i128Max ∧ amountY ≤ i128Max)
    (hrun : failure (AmmCall.body pair (.addLiquidity caller amountX amountY)) env st = none) :
    let t : AmmTx := ⟨env,.call (.addLiquidity caller amountX amountY)⟩
    Shaped pair contract (execAmm pair st t) ∧ Sound pair contract (execAmm pair st t) := by
  intro t
  obtain ⟨p,hdone⟩ := invoke_of_success (Q := fun u => ∃ p,
    Added env st pair.asset caller amountX amountY p u) hrun (addLiquidity_sat amountX amountY)
  change Added env st pair.asset caller amountX amountY p (execAmm pair st t) at hdone
  obtain ⟨c,hpaidX,hpaidY⟩ := hdone.paid
  obtain ⟨hx,hy,hfee⟩ := h.pool p hdone.found
  have hhostX := h.hosted hhosts hdone.found (.inl rfl)
  have hhostY := h.hosted hhosts hdone.found (.inr rfl)
  have hcaller : caller ≠ contract := not_contract hhostX hdone.authorized
  refine ⟨⟨fun token ht => ?_,fun p' hp' => ?_⟩,sound_of_pool hdone.written ?_ rfl⟩
  · have hmid := move_bounded (hhosts.hosted ht) (h.bounded token ht) hpaidX
    exact move_bounded (hhosts.hosted ht) hmid hpaidY
  · rw [hdone.written,Option.some.injEq] at hp'
    subst hp'
    exact ⟨hx,hy,hfee⟩
  · intro token ht
    have hbefore := (hsound p hdone.found).1 token ht
    obtain ⟨-,hc⟩ := hhostX.honest.moves hpaidX
    obtain ⟨-,hbalance⟩ := hhostY.honest.moves hpaidY
    rw [hhostX.contractAddress] at hc hbalance
    rw [hbalance,move_in hcaller,hc,move_in hcaller]
    have hcastX := toU128_cast hdone.positive.1 hmax.1
    have hcastY := toU128_cast hdone.positive.2 hmax.2
    have haddX : satAdd128 p.reserveX (toU128 amountX) ≤ p.reserveX + toU128 amountX :=
      Nat.min_le_left _ _
    have haddY : satAdd128 p.reserveY (toU128 amountY) ≤ p.reserveY + toU128 amountY :=
      Nat.min_le_left _ _
    unfold AmmPool.reserveOf at hbefore ⊢
    split_ifs at hbefore ⊢ <;> simp only at * <;> omega

omit hhosts in
theorem init_step_iff {initialX initialY : Int} (h : Shaped pair contract st)
    (hrun : failure (AmmCall.body pair (.init initialX initialY)) env st = none) :
    let t : AmmTx := ⟨env,.call (.init initialX initialY)⟩
    Shaped pair contract (execAmm pair st t) ∧
      (Sound pair contract (execAmm pair st t) ↔ Covered pair contract st t) := by
  intro t
  obtain ⟨-,hpool,hcustody⟩ := invoke_of_success (Q := fun u =>
    (0 < initialX ∧ 0 < initialY ∧ st.amm.pool pair.asset = none) ∧
      u.amm.pool pair.asset = some (pair.seeded initialX initialY) ∧ u.custody = st.custody) hrun
    (initAmm_sat pair.tokenX pair.tokenY initialX initialY)
  change (execAmm pair st t).amm.pool pair.asset = _ at hpool
  change (execAmm pair st t).custody = _ at hcustody
  refine ⟨⟨fun token ht => ?_,fun p hp => ?_⟩,?_⟩
  · rw [hcustody]
    exact h.bounded token ht
  · rw [hpool,Option.some.injEq] at hp
    subst hp
    exact ⟨rfl,rfl,rfl⟩
  · constructor
    · intro hsound _
      rw [← hcustody]
      exact (hsound _ hpool).1
    · intro hcovered
      refine sound_of_pool hpool ?_ rfl
      rw [hcustody]
      exact hcovered hrun

omit hhosts in
theorem status_step {enabled : Bool} (h : Shaped pair contract st) (hsound : Sound pair contract st)
    (hrun : failure (AmmCall.body pair (.setStatus enabled)) env st = none) :
    let t : AmmTx := ⟨env,.call (.setStatus enabled)⟩
    Shaped pair contract (execAmm pair st t) ∧ Sound pair contract (execAmm pair st t) := by
  intro t
  obtain ⟨p,hp,hpool,hcustody⟩ := invoke_of_success (Q := fun u => ∃ p,
    st.amm.pool pair.asset = some p ∧ u.amm.pool pair.asset = some { p with enabled := enabled } ∧
      u.custody = st.custody) hrun (setAmmStatus_sat enabled)
  change (execAmm pair st t).amm.pool pair.asset = _ at hpool
  change (execAmm pair st t).custody = _ at hcustody
  obtain ⟨hb,hk⟩ := hsound p hp
  refine ⟨⟨fun token ht => ?_,fun q hq => ?_⟩,sound_of_pool hpool ?_ hk⟩
  · rw [hcustody]
    exact h.bounded token ht
  · rw [hpool,Option.some.injEq] at hq
    subst hq
    exact h.pool p hp
  · rw [hcustody]
    exact hb

theorem elsewhere_step {rest : Store} (h : Shaped pair contract st)
    (hsound : Sound pair contract st)
    (htyped : ∀ token holder, rest.custody.balance token holder ≤ i128Max) :
    let t : AmmTx := ⟨env,.elsewhere rest⟩
    Shaped pair contract (execAmm pair st t) ∧ Sound pair contract (execAmm pair st t) := by
  intro t
  have hpool : (execAmm pair st t).amm.pool pair.asset = st.amm.pool pair.asset :=
    Function.update_self ..
  have hfunds (token : Address) (ht : pair.Has token) :
      (execAmm pair st t).custody.balance token contract =
        max (rest.custody.balance token contract) (st.custody.balance token contract) :=
    if_pos ⟨ht,(hhosts.hosted ht).contractAddress.symm⟩
  refine ⟨⟨fun token ht => ?_,fun p hp => ?_⟩,fun p hp => ?_⟩
  · rw [hfunds token ht]
    exact max_le (htyped token contract) (h.bounded token ht)
  · rw [hpool] at hp
    exact h.pool p hp
  · rw [hpool] at hp
    obtain ⟨hx,hy,-⟩ := h.pool p hp
    obtain ⟨hb,hk⟩ := hsound p hp
    refine ⟨fun token ht => (hb token ht).trans ?_,hk⟩
    rw [hx,hy] at ht
    rw [hfunds token ht]
    exact le_max_right _ _

/-- One step keeps what is claimed of the pool exactly if it is covered. -/
theorem execAmm_iff {t : AmmTx} (ht : t.env = env) (htyped : t.Typed)
    (h : Shaped pair contract st) (hsound : Sound pair contract st) :
    Shaped pair contract (execAmm pair st t) ∧
      ((Sound pair contract (execAmm pair st t) ∧ KeepsProduct pair st t) ↔
        Covered pair contract st t) := by
  subst ht
  obtain ⟨env,act⟩ := t
  cases act with
  | elsewhere rest =>
    obtain ⟨hshape,hnext⟩ := elsewhere_step hhosts h hsound htyped
    exact ⟨hshape,iff_of_true ⟨hnext,trivial⟩ trivial⟩
  | call call =>
    cases hrun : failure (call.body pair) env st with
    | some e =>
      have hsame : execAmm pair st ⟨env,.call call⟩ = st := invoke_of_failure hrun
      refine ⟨by rwa [hsame],iff_of_true ⟨by rwa [hsame],?_⟩ ?_⟩
      · cases call with
        | swap caller fromAsset toAsset amountIn minReturn =>
          intro p p' hp hp'
          rw [hsame,hp,Option.some.injEq] at hp'
          rw [hp']
        | _ => trivial
      · cases call with
        | swap caller fromAsset toAsset amountIn minReturn =>
          intro hnone
          rw [hrun] at hnone
          cases hnone
        | init initialX initialY =>
          intro hnone
          rw [hrun] at hnone
          cases hnone
        | _ => trivial
    | none =>
      cases call with
      | init initialX initialY =>
        obtain ⟨hshape,hiff⟩ := init_step_iff h hrun
        exact ⟨hshape,(and_iff_left trivial).trans hiff⟩
      | addLiquidity caller amountX amountY =>
        obtain ⟨hshape,hnext⟩ := add_step hhosts h hsound htyped hrun
        exact ⟨hshape,iff_of_true ⟨hnext,trivial⟩ trivial⟩
      | swap caller fromAsset toAsset amountIn minReturn =>
        exact swap_step_iff hhosts h hsound htyped hrun
      | setStatus enabled =>
        obtain ⟨hshape,hnext⟩ := status_step h hsound hrun
        exact ⟨hshape,iff_of_true ⟨hnext,trivial⟩ trivial⟩

end Steps

/-- In a run that begins before the pool is there, the reserves stay backed and the product neither
drifts from them nor falls in a swap exactly if the contract has the tokens that it records without
taking them, and the fee of every swap makes up for its rounding. -/
theorem pool_sound_iff {pair : Pair} {contract : Address} {st : Store} (ts : List AmmTx)
    (hfresh : st.amm.pool pair.asset = none)
    (hbounded : ∀ token, pair.Has token → st.custody.balance token contract ≤ i128Max)
    (hhosts : ∀ t ∈ ts, Hosts pair contract t.env) (htyped : ∀ t ∈ ts, t.Typed) :
    (∀ x ∈ steps (execAmm pair) st ts,
      Sound pair contract (execAmm pair x.1 x.2) ∧ KeepsProduct pair x.1 x.2) ↔
      ∀ x ∈ steps (execAmm pair) st ts, Covered pair contract x.1 x.2 := by
  refine steps_iff_while (I := fun s => Shaped pair contract s ∧ Sound pair contract s)
    (P := fun s t => Sound pair contract (execAmm pair s t) ∧ KeepsProduct pair s t)
    (C := Covered pair contract) ?_ ?_ ?_
  · intro t ht s hs hP
    exact ⟨(execAmm_iff (hhosts t ht) rfl (htyped t ht) hs.1 hs.2).1,hP.1⟩
  · intro t ht s hs
    exact (execAmm_iff (hhosts t ht) rfl (htyped t ht) hs.1 hs.2).2
  · refine ⟨⟨hbounded,fun p hp => ?_⟩,fun p hp => ?_⟩
    · rw [hfresh] at hp
      cases hp
    · rw [hfresh] at hp
      cases hp

/-- The contract is at address 0 and has `funds` of every token; everybody else has 5000. -/
def ammStore (funds : Int) : Store where
  config := { admin := some 9 }
  custody := { balance := fun _ holder => if holder = 0 then funds else 5000 }

def ammPair : Pair := ⟨"XY", 20, 21⟩

theorem hosts_concrete {sequence timestamp : Nat} {signers : List Address}
    (h : signers.contains 0 = false) :
    Hosts ammPair 0 (Env.concrete sequence timestamp signers) :=
  ⟨hosted_concrete h,hosted_concrete h⟩

/-- A pool of a thousand of each token, and a swap of a hundred of the first. -/
def tradingRun : List AmmTx :=
  [⟨.concrete 100 5 [9], .call (.init 1000 1000)⟩,
    ⟨.concrete 101 6 [5], .call (.swap 5 20 21 100 0)⟩]

theorem tradingRun_typed : ∀ t ∈ tradingRun, Hosts ammPair 0 t.env ∧ t.Typed := by
  simp only [tradingRun,List.forall_mem_cons]
  exact ⟨⟨hosts_concrete (by decide),by decide,by decide⟩,
    ⟨hosts_concrete (by decide),by change (100 : Int) ≤ i128Max; decide⟩,by simp⟩

/-- The pool is unbacked from the start; where the contract has just its reserves, the swap adds a
hundred that nobody pays; and where that is there too, the product falls by a hundred. -/
theorem pool_unsound :
    (∀ t ∈ tradingRun, Hosts ammPair 0 t.env ∧ t.Typed) ∧
      (¬Sound ammPair 0 (run (execAmm ammPair) (ammStore 0) (tradingRun.take 1))) ∧
      (¬∀ x ∈ steps (execAmm ammPair) (ammStore 0) tradingRun,
        Sound ammPair 0 (execAmm ammPair x.1 x.2) ∧ KeepsProduct ammPair x.1 x.2) ∧
      (¬Sound ammPair 0 (run (execAmm ammPair) (ammStore 1000) tradingRun)) ∧
      ((run (execAmm ammPair) (ammStore 2000) (tradingRun.take 1)).amm.pool "XY").map AmmPool.k =
        some 1000000 ∧
      ((run (execAmm ammPair) (ammStore 2000) tradingRun).amm.pool "XY").map AmmPool.k =
        some 999900 := by
  have hfirst : ¬Sound ammPair 0 (run (execAmm ammPair) (ammStore 0) (tradingRun.take 1)) := by
    intro h
    have hbacked := (h (ammPair.seeded 1000 1000) (by decide +kernel)).1 20 (.inl rfl)
    exact absurd hbacked (by decide +kernel)
  refine ⟨tradingRun_typed,hfirst,fun h => ?_,fun h => ?_,by decide +kernel,by decide +kernel⟩
  · exact hfirst (h (ammStore 0,⟨.concrete 100 5 [9],.call (.init 1000 1000)⟩)
      (by simp [tradingRun])).1
  · have hbacked := (h ((ammPair.seeded 1000 1000).traded true 100) (by decide +kernel)).1 20
      (.inl rfl)
    exact absurd hbacked (by decide +kernel)

/-- The contract has more than the pool records, and the swap is large enough for its fee. -/
def coveredRun : List AmmTx :=
  [⟨.concrete 100 5 [9], .call (.init 1000 1000)⟩,
    ⟨.concrete 101 6 [5], .call (.addLiquidity 5 100 100)⟩,
    ⟨.concrete 102 7 [5], .call (.swap 5 20 21 1000 0)⟩,
    ⟨.concrete 103 8 [9], .call (.setStatus false)⟩]

theorem covered_run :
    ((∀ x ∈ steps (execAmm ammPair) (ammStore 4000) coveredRun,
      Sound ammPair 0 (execAmm ammPair x.1 x.2) ∧ KeepsProduct ammPair x.1 x.2) ↔
      ∀ x ∈ steps (execAmm ammPair) (ammStore 4000) coveredRun, Covered ammPair 0 x.1 x.2) ∧
      ((run (execAmm ammPair) (ammStore 4000) coveredRun).amm.pool "XY").map AmmPool.k =
        some 1211700 := by
  have hbounded : (4000 : Int) ≤ i128Max := by decide
  refine ⟨pool_sound_iff coveredRun rfl (fun _ _ => hbounded) ?_ ?_,by decide +kernel⟩
  · simp only [coveredRun,List.forall_mem_cons]
    exact ⟨hosts_concrete (by decide),hosts_concrete (by decide),hosts_concrete (by decide),
      hosts_concrete (by decide),by simp⟩
  · simp only [coveredRun,List.forall_mem_cons]
    refine ⟨⟨by decide,by decide⟩,⟨by decide,by decide⟩,?_,trivial,by simp⟩
    change (1000 : Int) ≤ i128Max
    decide

end PriceOracle.Amm
