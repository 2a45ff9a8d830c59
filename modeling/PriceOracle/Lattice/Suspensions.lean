import Mathlib.Tactic.Ring
import PriceOracle.Lattice.Relations

/-! # The reach of a suspension

A suspension switches off the relations that are declared on its own asset. The relations of other
assets still look at the price of the suspended one, and some candidate breaks each relation that
expects anything; and a quarantine outlives the suspension. -/

namespace PriceOracle.Lattice

open Lib.Transaction Lib.Run Lib.MachineInt Model

/-- A relation of `asset` that touches `x`, on either side. -/
def Touches (x asset : Address) (r : SanityRelation) : Prop :=
  asset = x ∨ r.peer = x ∨ r.peer2 = some x

/-- No relation that touches the asset is reported for any candidate of any asset, and no candidate
of its own is blocked. -/
def LeftAlone (env : Env) (st : Store) (x : Address) : Prop :=
  (∀ asset price, IsI128 price → ∀ r ∈ st.getRelations asset, Touches x asset r →
    ¬Reported env st asset price r) ∧
  ∀ price, IsI128 price → (st.sanityVerdict env x price).2 = false

/-- The peers of the relation have prices, and they make a positive expectation. -/
def Expects (st : Store) (r : SanityRelation) : Prop :=
  match r.kind, st.storedPrice r.peer, r.peer2.bind st.storedPrice with
  | .peg, some reference, _ => 0 < (min i128Max (reference * r.ratioNum)).tdiv r.ratioDen
  | .triangle, some _, some _ => True
  | .spread, some _, _ => True
  | _, _, _ => False

/-- The asset is not quarantined, and whoever expects something of its price is suspended too. -/
def Released (env : Env) (st : Store) (x : Address) : Prop :=
  ¬Quarantined st x ∧ ∀ asset, st.sanitySuspendedAt env asset = false →
    ∀ r ∈ st.getRelations asset, r.peer = x ∨ r.peer2 = some x → ¬Expects st r

section Candidates

variable {toleranceBps : Nat} {expected : Int}

theorem scaled_below {price : Int} (h : price = expected - 2 ^ 127) :
    satMul (wrapAbs (wrapSub price expected)) 10000 = -2 ^ 127 := by
  have hdistance : wrapAbs (wrapSub price expected) = -2 ^ 127 := by
    unfold wrapAbs wrapSub wrap
    omega
  rw [hdistance]
  decide

theorem cast_below {d : Int} (hd : 0 < d) (hsmall : 2 ^ 127 < (maxToleranceBps+2) * d)
    (hdMax : d < 2 ^ 127) (htolerance : toleranceBps ≤ maxToleranceBps) :
    (-2 ^ 127 : Int).tdiv d ≤ u32Max ∧
      toleranceBps < wrap32 (toU128 ((-2 ^ 127 : Int).tdiv d)) := by
  rw [Int.neg_tdiv,Int.tdiv_eq_ediv_of_nonneg (by decide)]
  have hfew : 2 ^ 127 / d < maxToleranceBps+2 := Int.ediv_lt_of_lt_mul hd hsmall
  have hone : 1 ≤ 2 ^ 127 / d := (Int.le_ediv_iff_mul_le hd).2 (by omega)
  unfold maxToleranceBps at *
  unfold wrap32 toU128 u32Max
  omega

/-- Some candidate deviates beyond every tolerance from whatever is expected. -/
theorem exists_deviating (hexpected : 0 < expected) (hexpectedMax : expected ≤ i128Max)
    (hpositive : 0 < toleranceBps) (htolerance : toleranceBps ≤ maxToleranceBps) :
    ∃ price, IsI128 price ∧ toleranceBps < Store.deviationBps price expected := by
  by_cases hfits : (toleranceBps+1) * expected ≤ i128Max
  · refine ⟨i128Max,⟨by decide,le_rfl⟩,?_⟩
    rw [lt_deviationBps_iff (by decide) le_rfl hexpected hexpectedMax htolerance,
      deviates_iff hexpected]
    have hdouble : 2 * expected ≤ (toleranceBps+1) * expected :=
      Int.mul_le_mul_of_nonneg_right (by omega) hexpected.le
    omega
  · refine ⟨expected - 2 ^ 127,?_,?_⟩
    · unfold IsI128 i128Min
      omega
    · have hwide : (toleranceBps+1) * expected ≤ (maxToleranceBps+1) * expected :=
        Int.mul_le_mul_of_nonneg_right (by omega) hexpected.le
      have hnext : (maxToleranceBps+2 : Int) * expected =
          (maxToleranceBps+1) * expected + expected := by ring
      unfold i128Max at hfits hexpectedMax
      obtain ⟨hsmall,hlarge⟩ := cast_below hexpected (by omega) (by omega) htolerance
      have habs : wrapAbs expected = expected := by
        unfold wrapAbs wrap
        omega
      unfold Store.deviationBps
      rw [if_neg hexpected.ne',scaled_below rfl,habs]
      rwa [if_neg (Int.not_lt.2 hsmall)]

theorem exists_spreading {r : SanityRelation} {reference : Int} (hkind : r.kind = .spread)
    (hreference : 0 < reference) (hreferenceMax : reference ≤ i128Max)
    (htolerance : r.toleranceBps ≤ maxToleranceBps) :
    ∃ price, IsI128 price ∧
      r.toleranceBps < Store.relationMagnitude r price reference reference := by
  by_cases hhalf : reference ≤ 2 ^ 126
  · refine ⟨reference - 2 ^ 127,?_,?_⟩
    · unfold IsI128 i128Min
      omega
    · have hbase : max (wrapAbs (reference - 2 ^ 127)) 1 = 2 ^ 127 - reference := by
        unfold wrapAbs wrap
        omega
      unfold Store.relationMagnitude
      rw [hkind]
      rw [scaled_below rfl,hbase]
      refine (cast_below (by omega) ?_ (by omega) htolerance).2
      unfold maxToleranceBps
      omega
  · refine ⟨2 ^ 100,⟨by decide,by decide⟩,?_⟩
    rw [spread_magnitude hkind hreference hreferenceMax (by decide) (by decide)]
    have hclip : min i128Max.toNat ((2 ^ 100 - reference).natAbs * 10000) = i128Max.toNat := by
      unfold i128Max
      omega
    rw [hclip]
    exact lt_of_le_of_lt htolerance (by decide)

end Candidates

section Suspension

variable {env : Env} {st : Store} {x asset : Address} {r : SanityRelation}

theorem expects_iff (hvalid : Valid asset r) : Expects st r ↔
    ∃ reference expected, st.expectedPrice r = some (reference,expected) ∧ 0 < expected := by
  unfold Expects Store.expectedPrice
  cases hpeer : st.storedPrice r.peer with
  | none => cases r.kind <;> simp
  | some reference =>
    have hpos := storedPrice_pos hpeer
    cases hkind : r.kind with
    | peg =>
      have hclip : satMul reference r.ratioNum = min i128Max (reference * r.ratioNum) :=
        satMul_of_nonneg hpos.le (hvalid.rated hkind).le
      have hproduct := Int.mul_pos hpos (hvalid.rated hkind)
      simp only [Option.bind_eq_bind,Option.bind_some,hclip,Option.some.injEq,Prod.mk.injEq]
      rw [checkedDiv_getD (by unfold i128Max; omega)]
      simp
    | triangle =>
      cases hpeer2 : r.peer2.bind st.storedPrice with
      | none => simp
      | some p2 =>
        obtain ⟨a,-,ha⟩ := Option.bind_eq_some_iff.1 hpeer2
        simp [storedPrice_pos ha]
    | spread => simp [hpos]

/-- An expectation is a value of 128 bits, and a spread expects its reference. -/
theorem expected_le {reference expected : Int} (hvalid : Valid asset r)
    (hstored : ∀ a p, st.storedPrice a = some p → p ≤ i128Max)
    (h : st.expectedPrice r = some (reference,expected)) :
    expected ≤ i128Max ∧ (r.kind = .spread → expected = reference) := by
  obtain ⟨price,hpeer,h⟩ := Option.bind_eq_some_iff.1 h
  have hpos := storedPrice_pos hpeer
  cases hkind : r.kind with
  | peg =>
    rw [hkind] at h
    obtain ⟨-,rfl⟩ := Prod.mk.injEq _ _ _ _ ▸ Option.some.inj h
    have hproduct := Int.mul_pos hpos (hvalid.rated hkind)
    have hclip : 0 ≤ min i128Max (price * r.ratioNum) := by
      unfold i128Max
      omega
    rw [satMul_of_nonneg hpos.le (hvalid.rated hkind).le,checkedDiv_getD hclip]
    exact ⟨(Int.tdiv_le_self _ hclip).trans (min_le_left _ _),fun hspread => by cases hspread⟩
  | triangle =>
    rw [hkind] at h
    obtain ⟨p2,hp2,heq⟩ := Option.map_eq_some_iff.1 h
    obtain ⟨-,rfl⟩ := Prod.mk.injEq _ _ _ _ ▸ heq
    obtain ⟨a,-,ha⟩ := Option.bind_eq_some_iff.1 hp2
    exact ⟨hstored a p2 ha,fun hspread => by cases hspread⟩
  | spread =>
    rw [hkind] at h
    obtain ⟨rfl,rfl⟩ := Prod.mk.injEq _ _ _ _ ▸ Option.some.inj h
    exact ⟨hstored _ _ hpeer,fun _ => rfl⟩

/-- A relation breaks for some candidate exactly if it expects anything. -/
theorem breakable_iff (env : Env) (hvalid : Valid asset r)
    (hstored : ∀ a p, st.storedPrice a = some p → p ≤ i128Max) :
    (∃ price, IsI128 price ∧ (st.relationViolation env asset price r).isSome) ↔ Expects st r := by
  rw [expects_iff hvalid]
  constructor
  · rintro ⟨price,-,hsome⟩
    cases hexpected : st.expectedPrice r with
    | none => exact (violation_isSome_of_none hexpected hsome).elim
    | some y =>
      obtain ⟨reference,expected⟩ := y
      exact ⟨reference,expected,rfl,((violation_isSome_iff hexpected).1 hsome).1⟩
  · rintro ⟨reference,expected,hexpected,hpos⟩
    simp only [violation_isSome_iff hexpected,and_iff_right hpos]
    have hmax := expected_le hvalid hstored hexpected
    cases hkind : r.kind with
    | spread =>
      obtain rfl := hmax.2 hkind
      exact exists_spreading hkind hpos hmax.1 hvalid.tight
    | peg =>
      unfold Store.relationMagnitude
      rw [hkind]
      exact exists_deviating hpos hmax.1 hvalid.positive hvalid.tight
    | triangle =>
      unfold Store.relationMagnitude
      rw [hkind]
      exact exists_deviating hpos hmax.1 hvalid.positive hvalid.tight

theorem leftAlone_iff (hdeclared : AllDeclared st)
    (hstored : ∀ a p, st.storedPrice a = some p → p ≤ i128Max)
    (hsuspended : st.sanitySuspendedAt env x = true) : LeftAlone env st x ↔ Released env st x := by
  have hquiet {asset : Address} (h : st.sanitySuspendedAt env asset = true) (price : Int) :
      st.sanityViolations env asset price = [] := by
    unfold Store.sanityViolations
    rw [if_pos h]
  have hblocked (price : Int) : (st.sanityVerdict env x price).2 = true ↔ Quarantined st x := by
    rw [verdict_blocked_iff,hquiet hsuspended]
    simp
  constructor
  · rintro ⟨hsilent,hfree⟩
    refine ⟨fun hquarantined => ?_,fun asset hactive r hr htouches hexpects => ?_⟩
    · have hstops := (hblocked 0).2 hquarantined
      rw [hfree 0 ⟨by decide,by decide⟩] at hstops
      cases hstops
    · obtain ⟨price,hprice,hsome⟩ :=
        (breakable_iff env ((hdeclared asset).valid r hr) hstored).2 hexpects
      exact hsilent asset price hprice r hr (.inr htouches)
        ((reported_iff hactive (hdeclared asset) hr).2 hsome)
  · rintro ⟨hclear,hunexpected⟩
    refine ⟨fun asset price hprice r hr htouches hreported => ?_,fun price _ => ?_⟩
    · cases hactive : st.sanitySuspendedAt env asset with
      | true =>
        obtain ⟨e,he,-⟩ := hreported
        rw [hquiet hactive] at he
        cases he
      | false =>
        have hother : r.peer = x ∨ r.peer2 = some x := by
          refine htouches.resolve_left fun hsame => ?_
          rw [hsame,hsuspended] at hactive
          cases hactive
        refine hunexpected asset hactive r hr hother ?_
        rw [← breakable_iff env ((hdeclared asset).valid r hr) hstored]
        exact ⟨price,hprice,(reported_iff hactive (hdeclared asset) hr).1 hreported⟩
    · rw [← Bool.not_eq_true,hblocked]
      exact hclear

end Suspension

/-- Among relations that a run has declared, a suspended asset is left alone exactly if it is not
quarantined and no asset that is not suspended expects anything of its price. -/
theorem suspension_reaches_iff (st : Store) (hst : st.config.sanityRelations = fun _ => none)
    (ts : List LatticeTx) (env : Env) (x : Address)
    (hsuspended : (run execLattice st ts).sanitySuspendedAt env x = true)
    (hstored : ∀ a p, (run execLattice st ts).storedPrice a = some p → p ≤ i128Max) :
    LeftAlone env (run execLattice st ts) x ↔ Released env (run execLattice st ts) x :=
  leftAlone_iff (allDeclared_run hst ts) hstored hsuspended

/-- The first asset is declared to be at parity with the second, and `x` is suspended. -/
def suspendedRun (x : Address) : List LatticeTx :=
  [administered (.addRelation 1 parity), administered (.declareDepeg x 100)]

theorem parity_left_alone :
    LeftAlone (.concrete 6 30 []) (run execLattice (latticeStore 1000000 1) (suspendedRun 1)) 1 :=
  (suspension_reaches_iff (latticeStore 1000000 1) rfl (suspendedRun 1) (.concrete 6 30 []) 1
    (by decide +kernel) (peerPrices_typed rfl (by decide))).2 (by
    refine ⟨fun hquarantined => ?_,fun asset hactive r hr => ?_⟩
    · obtain ⟨status,hstatus,-⟩ := hquarantined
      cases hstatus
    · have hrelations : (run execLattice (latticeStore 1000000 1)
          (suspendedRun 1)).config.sanityRelations =
            Function.update (fun _ : Address => none) 1 (some [parity]) := rfl
      have hother : asset ≠ 1 := by
        rintro rfl
        revert hactive
        decide +kernel
      rw [Store.getRelations,hrelations,Function.update_of_ne hother] at hr
      cases hr)

/-- The peer of the parity is suspended, and a candidate of the other asset is still rejected. -/
theorem suspended_peer_rejects :
    let st := run execLattice (latticeStore 1000000 1) (suspendedRun 2)
    st.sanitySuspendedAt (.concrete 6 30 []) 2 = true ∧ ¬LeftAlone (.concrete 6 30 []) st 2 := by
  refine ⟨by decide +kernel,fun halone => ?_⟩
  have hmem : parity ∈ (run execLattice (latticeStore 1000000 1) (suspendedRun 2)).getRelations 1 := by
    decide +kernel
  refine halone.1 1 2000000 ⟨by decide,by decide⟩ parity hmem (.inr (.inl rfl)) ?_
  unfold Reported
  decide +kernel

end PriceOracle.Lattice
