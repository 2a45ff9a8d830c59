import PriceOracle.Lib.Graphs
import PriceOracle.Lib.Run
import PriceOracle.Model.Baskets
import PriceOracle.Model.Invocation

/-! # What a basket is made of

Every stored basket is well formed. Whether baskets stay one level deep is decided by the address
that a basket is stored under: the constituents are checked against the baskets there are, but not
the address against the constituents there are. -/

namespace PriceOracle.Baskets

open Model Lib.Transaction Lib.Run Lib.OneLevel

def assetsOf (constituents : List BasketConstituent) : List Address := constituents.map (·.asset)

def weightsOf (constituents : List BasketConstituent) : List Nat := constituents.map (·.weight)

/-- The baskets as a table of the assets they list. -/
def compositions (baskets : Map Address BasketConfig) : Address → Option (List Address) :=
  fun basket => (baskets basket).map fun config => assetsOf config.constituents

structure WellFormed (config : BasketConfig) : Prop where
  nonempty : 1 ≤ config.constituents.length
  bounded : config.constituents.length ≤ maxBasketConstituents
  nodup : (assetsOf config.constituents).Nodup
  weights : 0 ∉ weightsOf config.constituents
  total : (weightsOf config.constituents).sum = basketWeightScale
  totalWeight : config.totalWeight = (weightsOf config.constituents).sum

/-- No basket lists a basket, and every basket is well formed. -/
structure Sound (st : Store) : Prop where
  flat : Flat (compositions st.baskets)
  wellFormed : ∀ basket config, st.baskets basket = some config → WellFormed config

section Validation

variable {st : Store} {basket : Address} {constituents : List BasketConstituent}

/-- What `validate_constituents` accepts. -/
structure Composed (st : Store) (basket : Address) (constituents : List BasketConstituent) :
    Prop where
  nonempty : 1 ≤ constituents.length
  bounded : constituents.length ≤ maxBasketConstituents
  nodup : (assetsOf constituents).Nodup
  weights : 0 ∉ weightsOf constituents
  total : (weightsOf constituents).sum = basketWeightScale
  self : basket ∉ assetsOf constituents
  unconfigured : ∀ asset ∈ assetsOf constituents, st.baskets asset = none

theorem checkConstituents_eq_ok {seen : List Address} {total sum : Nat} :
    st.checkConstituents basket seen total constituents = .ok sum ↔
      sum = total + (weightsOf constituents).sum ∧ (assetsOf constituents).Nodup ∧
      ∀ c ∈ constituents,
        c.weight ≠ 0 ∧ c.asset ≠ basket ∧ st.baskets c.asset = none ∧ c.asset ∉ seen := by
  induction constituents generalizing seen total with
  | nil => simp [Store.checkConstituents,assetsOf,weightsOf,eq_comm]
  | cons c rest ih =>
    unfold Store.checkConstituents
    simp only [assetsOf,weightsOf,List.map_cons,List.sum_cons,List.nodup_cons,
      List.forall_mem_cons,← Nat.add_assoc]
    split_ifs with hweight hself hbasket hseen
    · simp [hweight]
    · simp [hself]
    · simp [Option.isSome_iff_ne_none.1 hbasket]
    · simp [hseen]
    · rw [ih]
      have hnone : st.baskets c.asset = none := by simpa using hbasket
      simp only [List.mem_append,List.mem_singleton,not_or,List.mem_map,not_exists,not_and]
      constructor
      · rintro ⟨hsum,hnodup,hrest⟩
        refine ⟨hsum,⟨fun d hd => (hrest d hd).2.2.2.2,hnodup⟩,
          ⟨hweight,hself,hnone,hseen⟩,fun d hd => ?_⟩
        obtain ⟨h1,h2,h3,h4,-⟩ := hrest d hd
        exact ⟨h1,h2,h3,h4⟩
      · rintro ⟨hsum,⟨hfirst,hnodup⟩,-,hrest⟩
        refine ⟨hsum,hnodup,fun d hd => ?_⟩
        obtain ⟨h1,h2,h3,h4⟩ := hrest d hd
        exact ⟨h1,h2,h3,h4,hfirst d hd⟩

/-- A composition is accepted for the one sum that its weights can have. -/
theorem validateConstituents_eq_ok {total : Nat} :
    st.validateConstituents basket constituents = .ok total ↔
      total = basketWeightScale ∧ Composed st basket constituents := by
  unfold Store.validateConstituents
  split_ifs with hlength
  · refine iff_of_false (by simp) ?_
    rintro ⟨-,h⟩
    have hnonempty := h.nonempty
    have hbounded := h.bounded
    omega
  · cases hcheck : st.checkConstituents basket [] 0 constituents with
    | error e =>
      refine iff_of_false (by simp [bind,Except.bind]) ?_
      rintro ⟨-,h⟩
      have hok : st.checkConstituents basket [] 0 constituents =
          .ok (0 + (weightsOf constituents).sum) := by
        refine checkConstituents_eq_ok.2 ⟨rfl,h.nodup,fun c hc => ⟨fun hzero => ?_,fun hself => ?_,
          h.unconfigured c.asset (List.mem_map_of_mem hc),List.not_mem_nil⟩⟩
        · exact h.weights (hzero ▸ List.mem_map_of_mem hc)
        · exact h.self (hself ▸ List.mem_map_of_mem hc)
      rw [hok] at hcheck
      cases hcheck
    | ok sum =>
      obtain ⟨hsum,hnodup,hall⟩ := checkConstituents_eq_ok.1 hcheck
      simp only [bind,Except.bind]
      have hscale : sum = basketWeightScale → Composed st basket constituents := by
        intro hsum'
        refine ⟨by omega,by omega,hnodup,fun hzero => ?_,by omega,fun hself => ?_,?_⟩
        · obtain ⟨c,hc,hweight⟩ := List.mem_map.1 hzero
          exact (hall c hc).1 hweight
        · obtain ⟨c,hc,hasset⟩ := List.mem_map.1 hself
          exact (hall c hc).2.1 hasset
        · intro asset hasset
          obtain ⟨c,hc,rfl⟩ := List.mem_map.1 hasset
          exact (hall c hc).2.2.1
      split_ifs with hne
      · refine iff_of_false (by simp) ?_
        rintro ⟨-,h⟩
        exact hne (by rw [hsum,h.total,Nat.zero_add])
      · rw [Except.ok.injEq]
        constructor
        · rintro rfl
          exact ⟨not_not.1 hne,hscale (not_not.1 hne)⟩
        · rintro ⟨rfl,-⟩
          exact not_not.1 hne

end Validation

section Updates

variable {st : Store} {basket : Address} {config : BasketConfig} {weights : List Nat}
  {constituents : List BasketConstituent}

def withBasket (st : Store) (basket : Address) (config : BasketConfig) : Store :=
  { st with baskets := Function.update st.baskets basket (some config) }

@[simp] theorem withBasket_baskets :
    (withBasket st basket config).baskets = Function.update st.baskets basket (some config) := rfl

def scaled (config : BasketConfig) : BasketConfig :=
  { config with totalWeight := basketWeightScale }

/-- The configuration that `rebalance_basket` stores. -/
def rebalanced (config : BasketConfig) (weights : List Nat) : BasketConfig :=
  { config with
    constituents := reweigh config.constituents weights
    totalWeight := weights.sum }

theorem compositions_update :
    compositions (withBasket st basket config).baskets =
      Function.update (compositions st.baskets) basket (some (assetsOf config.constituents)) := by
  funext b
  by_cases hb : b = basket
  · subst hb
    rw [Function.update_self,compositions,withBasket_baskets,Function.update_self,Option.map_some]
  · rw [Function.update_of_ne hb,compositions,withBasket_baskets,Function.update_of_ne hb,
      compositions]

def AllWellFormed (st : Store) : Prop :=
  ∀ basket config, st.baskets basket = some config → WellFormed config

theorem wellFormed_update (h : AllWellFormed st) (hconfig : WellFormed config) :
    AllWellFormed (withBasket st basket config) := by
  intro b c hc
  rw [withBasket_baskets] at hc
  by_cases hb : b = basket
  · subst hb
    rw [Function.update_self,Option.some.injEq] at hc
    exact hc ▸ hconfig
  · rw [Function.update_of_ne hb] at hc
    exact h b c hc

theorem Composed.wellFormed (h : Composed st basket config.constituents) :
    WellFormed (scaled config) :=
  ⟨h.nonempty,h.bounded,h.nodup,h.weights,h.total,h.total.symm⟩

theorem sound_update_iff (h : Sound st) (hcomposed : Composed st basket config.constituents) :
    Sound (withBasket st basket (scaled config)) ↔ ¬Listed (compositions st.baskets) basket := by
  have hmembers : ∀ asset ∈ assetsOf config.constituents,
      compositions st.baskets asset = none := by
    intro asset hasset
    rw [compositions,hcomposed.unconfigured asset hasset,Option.map_none]
  rw [← flat_update_iff h.flat hcomposed.self hmembers]
  constructor
  · intro hsound
    have hflat := hsound.flat
    rwa [compositions_update] at hflat
  · intro hflat
    refine ⟨?_,wellFormed_update h.wellFormed hcomposed.wellFormed⟩
    rw [compositions_update]
    exact hflat

theorem assetsOf_reweigh (h : weights.length = constituents.length) :
    assetsOf (reweigh constituents weights) = assetsOf constituents := by
  induction constituents generalizing weights with
  | nil => rfl
  | cons c rest ih =>
    cases weights with
    | nil => simp at h
    | cons weight weights =>
      rw [List.length_cons,List.length_cons,Nat.succ_inj] at h
      exact congrArg (c.asset :: ·) (ih h)

theorem weightsOf_reweigh (h : weights.length = constituents.length) :
    weightsOf (reweigh constituents weights) = weights := by
  induction constituents generalizing weights with
  | nil => rw [List.length_nil,List.length_eq_zero_iff] at h; rw [h]; rfl
  | cons c rest ih =>
    cases weights with
    | nil => simp at h
    | cons weight weights =>
      rw [List.length_cons,List.length_cons,Nat.succ_inj] at h
      exact congrArg (weight :: ·) (ih h)

theorem WellFormed.rebalanced (hold : WellFormed config)
    (hlength : weights.length = config.constituents.length) (hzero : 0 ∉ weights)
    (hsum : weights.sum = basketWeightScale) : WellFormed (rebalanced config weights) := by
  have hassets : assetsOf (Baskets.rebalanced config weights).constituents =
      assetsOf config.constituents := assetsOf_reweigh hlength
  have hweights : weightsOf (Baskets.rebalanced config weights).constituents = weights :=
    weightsOf_reweigh hlength
  have hlen : (Baskets.rebalanced config weights).constituents.length =
      config.constituents.length := by
    rw [Baskets.rebalanced,reweigh,List.length_zipWith,hlength,Nat.min_self]
  constructor
  · exact hlen ▸ hold.nonempty
  · exact hlen ▸ hold.bounded
  · exact hassets ▸ hold.nodup
  · exact hweights.symm ▸ hzero
  · exact hweights.symm ▸ hsum
  · rw [hweights,Baskets.rebalanced]

theorem sound_reweigh (h : Sound st) (hconfig : st.baskets basket = some config)
    (hlength : weights.length = config.constituents.length) (hzero : 0 ∉ weights)
    (hsum : weights.sum = basketWeightScale) :
    Sound (withBasket st basket (rebalanced config weights)) := by
  have hold := h.wellFormed basket config hconfig
  have hassets : assetsOf (rebalanced config weights).constituents =
      assetsOf config.constituents := assetsOf_reweigh hlength
  refine ⟨?_,wellFormed_update h.wellFormed (hold.rebalanced hlength hzero hsum)⟩
  have hsame : some (assetsOf config.constituents) = compositions st.baskets basket := by
    rw [compositions,hconfig,Option.map_some]
  rw [compositions_update,hassets,hsame,Function.update_eq_self]
  exact h.flat

end Updates

section Calls

variable (basket : Address) {config : BasketConfig} {weights : List Nat} {env : Env} {st : Store}

theorem setBasket_sat : Sat (setBasket basket config) (World.enter env st) fun _ w =>
    AdminSigned env st ∧ Composed st basket config.constituents ∧
      w.store = withBasket st basket (scaled config) := by
  refine sat_asAdmin_signed fun admin => ?_
  simp only [sat_bind,sat_consult,writeBasket,modifyBaskets,sat_update]
  intro total htotal
  obtain ⟨rfl,hcomposed⟩ := validateConstituents_eq_ok.1 htotal
  exact ⟨hcomposed,rfl⟩

theorem setBasket_succeeds (hsigned : AdminSigned env st)
    (hcomposed : Composed st basket config.constituents) :
    failure (setBasket basket config) env st = none := by
  refine succeeds_of_no_failure (fails_asAdmin_signed hsigned fun admin => ?_)
  have hok : st.validateConstituents basket config.constituents = .ok basketWeightScale :=
    validateConstituents_eq_ok.2 ⟨rfl,hcomposed⟩
  simp [writeBasket,hok,World.enter]

theorem rebalanceBasket_sat : Sat (rebalanceBasket basket weights) (World.enter env st) fun _ w =>
    ∃ config, st.baskets basket = some config ∧ weights.length = config.constituents.length ∧
      0 ∉ weights ∧ weights.sum = basketWeightScale ∧
      w.store = withBasket st basket (rebalanced config weights) := by
  rw [rebalanceBasket,sat_asAdmin]
  intro admin _ _
  simp only [sat_bind,getBasket,sat_consult,sat_ensure,writeBasket,modifyBaskets,sat_update]
  intro config hconfig hlength hzero hsum
  refine ⟨config,found_of_ok ?_ hconfig,hlength,hzero,hsum,rfl⟩
  dsimp only [authorizedBy_store,World.enter]
  cases st.baskets basket <;> rfl

end Calls

section Runs

inductive BasketCall
  | set (basket : Address) (config : BasketConfig)
  | rebalance (basket : Address) (weights : List Nat)

def BasketCall.body : BasketCall → Contract Unit
  | set basket config => setBasket basket config
  | rebalance basket weights => rebalanceBasket basket weights

/-- A call, or a change elsewhere. -/
inductive BasketAct
  | call (call : BasketCall)
  | elsewhere (rest : Store)

structure BasketTx where
  env : Env
  act : BasketAct

def execBasket (st : Store) (t : BasketTx) : Store :=
  match t.act with
  | .call call => invoke call.body t.env st
  | .elsewhere rest => { rest with baskets := st.baskets }

/-- A basket that passes its checks is stored where no basket lists it. -/
def SetUnlisted (st : Store) (t : BasketTx) : Prop :=
  match t.act with
  | .call (.set basket config) =>
    AdminSigned t.env st → Composed st basket config.constituents →
      ¬Listed (compositions st.baskets) basket
  | _ => True

variable {st : Store}

theorem Sound.of_baskets {st' : Store} (h : Sound st) (hbaskets : st'.baskets = st.baskets) :
    Sound st' := by
  refine ⟨?_,?_⟩
  · rw [hbaskets]
    exact h.flat
  · rw [hbaskets]
    exact h.wellFormed

theorem execBasket_sound_iff (h : Sound st) (t : BasketTx) :
    Sound (execBasket st t) ↔ SetUnlisted st t := by
  obtain ⟨env,act⟩ := t
  cases act with
  | elsewhere rest => exact iff_of_true (h.of_baskets rfl) trivial
  | call call =>
    cases call with
    | set basket config =>
      change Sound (invoke (setBasket basket config) env st) ↔ (AdminSigned env st →
        Composed st basket config.constituents → ¬Listed (compositions st.baskets) basket)
      by_cases hchecks : AdminSigned env st ∧ Composed st basket config.constituents
      · obtain ⟨hsigned,hcomposed⟩ := hchecks
        have hstore := invoke_of_success (setBasket_succeeds basket hsigned hcomposed)
          (Q := fun u => u = withBasket st basket (scaled config))
          ((setBasket_sat basket).mono fun _ _ hw => hw.2.2)
        rw [hstore,sound_update_iff h hcomposed]
        exact ⟨fun hunlisted _ _ => hunlisted,fun hunlisted => hunlisted hsigned hcomposed⟩
      · refine iff_of_true ?_ fun hsigned hcomposed => (hchecks ⟨hsigned,hcomposed⟩).elim
        refine invoke_of_sat (P := Sound) h ((setBasket_sat basket).mono fun _ w hw => ?_)
        exact (hchecks ⟨hw.1,hw.2.1⟩).elim
    | rebalance basket weights =>
      refine iff_of_true (invoke_of_sat (P := Sound) h ?_) trivial
      refine (rebalanceBasket_sat basket).mono fun _ w hw => ?_
      obtain ⟨config,hconfig,hlength,hzero,hsum,hstore⟩ := hw
      rw [hstore]
      exact sound_reweigh h hconfig hlength hzero hsum

theorem execBasket_wellFormed (h : AllWellFormed st) (t : BasketTx) :
    AllWellFormed (execBasket st t) := by
  obtain ⟨env,act⟩ := t
  cases act with
  | elsewhere rest => exact h
  | call call =>
    cases call with
    | set basket config =>
      refine invoke_of_sat (P := AllWellFormed) h ((setBasket_sat basket).mono fun _ w hw => ?_)
      rw [hw.2.2]
      exact wellFormed_update h hw.2.1.wellFormed
    | rebalance basket weights =>
      refine invoke_of_sat (P := AllWellFormed) h ((rebalanceBasket_sat basket).mono fun _ w hw => ?_)
      obtain ⟨config,hconfig,hlength,hzero,hsum,hstore⟩ := hw
      rw [hstore]
      exact wellFormed_update h ((h basket config hconfig).rebalanced hlength hzero hsum)

theorem run_wellFormed (h : AllWellFormed st) (ts : List BasketTx) :
    AllWellFormed (run execBasket st ts) := by
  induction ts generalizing st with
  | nil => exact h
  | cons t ts ih =>
    exact ih (execBasket_wellFormed h t)

theorem wellFormed_of_empty (h : ∀ basket, st.baskets basket = none) : AllWellFormed st := by
  intro basket config hconfig
  rw [h basket] at hconfig
  cases hconfig

theorem sound_of_empty (h : ∀ basket, st.baskets basket = none) : Sound st := by
  constructor
  · intro asset _
    rw [compositions,h asset,Option.map_none]
  · exact wellFormed_of_empty h

/-- From a contract without baskets, every state of a run is sound exactly if no basket is ever
stored where another basket already lists it. -/
theorem baskets_sound_iff (ts : List BasketTx) (hst : ∀ basket, st.baskets basket = none) :
    (∀ x ∈ steps execBasket st ts, Sound (execBasket x.1 x.2)) ↔
      ∀ x ∈ steps execBasket st ts, SetUnlisted x.1 x.2 :=
  steps_keep_iff (fun _ t hs => execBasket_sound_iff hs t) (sound_of_empty hst)

end Runs

/-- The whole weight on one asset. -/
def single (asset : Address) : BasketConfig where
  constituents := [⟨asset, basketWeightScale⟩]
  totalWeight := 0
  stalenessPolicy := .reject
  rebalancePolicy := .manual

def basketStore : Store where
  config := { admin := some 9 }

def setAt (basket asset : Address) : BasketTx :=
  ⟨.concrete 100 5 [9], .call (.set basket (single asset))⟩

/-- A basket of asset 2, then a basket of asset 3 at address 2. -/
theorem baskets_nested :
    (∀ basket, basketStore.baskets basket = none) ∧
      ¬∀ x ∈ steps execBasket basketStore [setAt 1 2, setAt 2 3], Sound (execBasket x.1 x.2) := by
  refine ⟨fun _ => rfl,fun h => ?_⟩
  have hlast : Sound (run execBasket basketStore [setAt 1 2,setAt 2 3]) :=
    h (run execBasket basketStore [setAt 1 2],setAt 2 3) (by simp)
  have hnone := hlast.flat 2 ⟨1,[2],by decide +kernel,by simp⟩
  revert hnone
  decide +kernel

/-- Two baskets of the same asset, side by side. -/
theorem baskets_apart :
    (∀ basket, basketStore.baskets basket = none) ∧
      ∀ x ∈ steps execBasket basketStore [setAt 1 2, setAt 3 2], Sound (execBasket x.1 x.2) := by
  refine ⟨fun _ => rfl,(baskets_sound_iff [setAt 1 2,setAt 3 2] fun _ => rfl).2 ?_⟩
  have hfirst : execBasket basketStore (setAt 1 2) =
      withBasket basketStore 1 (scaled (single 2)) := rfl
  rw [steps_cons,steps_cons,steps_nil,hfirst,List.forall_mem_cons,List.forall_mem_singleton]
  refine ⟨fun _ _ ⟨a,l,ha,_⟩ => ?_,fun _ _ ⟨a,l,ha,hmem⟩ => ?_⟩
  · cases ha
  · rw [compositions_update] at ha
    by_cases h1 : a = 1
    · subst h1
      rw [Function.update_self,Option.some.injEq] at ha
      subst ha
      revert hmem
      decide
    · rw [Function.update_of_ne h1] at ha
      cases ha

end PriceOracle.Baskets
