import PriceOracle.Lattice.Declared

/-! # The relations that a check reports

A check compares a candidate with what a relation expects of it. The product of a peg saturates, a
triangle is compared without the product, and the quotient of a spread loses all but its lowest 32
bits; so the report is right exactly for the candidates on which both readings agree. -/

namespace PriceOracle.Lattice

open Lib.Run Lib.MachineInt Model

/-- The deviation in basis points, rounded down, exceeds the tolerance. -/
def Deviates (toleranceBps : Nat) (expected price : Int) : Prop :=
  expected = 0 ∨ toleranceBps < (price - expected).natAbs * 10000 / expected.natAbs

instance (toleranceBps : Nat) (expected price : Int) :
    Decidable (Deviates toleranceBps expected price) := inferInstanceAs (Decidable (_ ∨ _))

/-- The documented relation fails, in exact arithmetic; it says nothing without its peers. -/
def Broken (st : Store) (price : Int) (r : SanityRelation) : Prop :=
  match r.kind, st.storedPrice r.peer, r.peer2.bind st.storedPrice with
  | .peg, some reference, _ =>
    Deviates r.toleranceBps ((reference * r.ratioNum).tdiv r.ratioDen) price
  | .triangle, some reference, some p2 => Deviates r.toleranceBps p2 (price * reference)
  | .spread, some reference, _ =>
    r.toleranceBps < (price - reference).natAbs * 10000 / price.natAbs
  | _, _, _ => False

/-- The deviation that the clipped product of the check shows is the exact one. -/
def Agree (toleranceBps : Nat) (expected price exactExpected exactPrice : Int) : Prop :=
  Deviates toleranceBps expected price ∧ (toleranceBps + 1) * expected ≤ i128Max ∧
      Deviates toleranceBps exactExpected exactPrice ∨
    (¬Deviates toleranceBps expected price ∨ i128Max < (toleranceBps + 1) * expected) ∧
      ¬Deviates toleranceBps exactExpected exactPrice

/-- The check sees the relation as it is documented. The candidate of a peg deviates from the clipped
expectation as from the exact one, or it tolerates an exact one that is clipped to nothing. The
candidate of a triangle deviates alone as its product does. That of a spread is tolerated, or the
lowest 32 bits of the clipped quotient exceed the tolerance too. -/
def Faithful (st : Store) (price : Int) (r : SanityRelation) : Prop :=
  match r.kind, st.storedPrice r.peer, r.peer2.bind st.storedPrice with
  | .peg, some reference, _ =>
    let exact := (reference * r.ratioNum).tdiv r.ratioDen
    let clipped := (min i128Max (reference * r.ratioNum)).tdiv r.ratioDen
    0 < clipped ∧ Agree r.toleranceBps clipped price exact price ∨
      clipped ≤ 0 ∧ ¬Deviates r.toleranceBps exact price
  | .triangle, some reference, some p2 => Agree r.toleranceBps p2 price p2 (price * reference)
  | .spread, some reference, _ =>
    (price - reference).natAbs * 10000 / price.natAbs ≤ r.toleranceBps ∨
      r.toleranceBps <
        min i128Max.toNat ((price - reference).natAbs * 10000) / price.natAbs % 2 ^ 32
  | _, _, _ => True

/-- The check of the candidate publishes a violation of this relation. -/
def Reported (env : Env) (st : Store) (asset : Address) (price : Int) (r : SanityRelation) : Prop :=
  ∃ e ∈ st.sanityViolations env asset price, e.conflictingAsset = r.peer ∧ e.kind = r.kind

section Arithmetic

variable {toleranceBps : Nat} {expected price : Int}

theorem deviates_iff (h : 0 < expected) : Deviates toleranceBps expected price ↔
    (toleranceBps+1) * expected ≤ (price - expected).natAbs * 10000 := by
  unfold Deviates
  lift expected to ℕ using h.le
  rw [or_iff_right h.ne',Int.natAbs_natCast,Nat.lt_iff_add_one_le,
    Nat.le_div_iff_mul_le (Int.natCast_pos.1 h)]
  norm_cast

theorem distance_eq (hprice : 0 < price) (hpriceMax : price ≤ i128Max) (hexpected : 0 < expected)
    (hexpectedMax : expected ≤ i128Max) :
    wrapAbs (wrapSub price expected) = (price - expected).natAbs := by
  unfold i128Max at hpriceMax hexpectedMax
  unfold wrapAbs wrapSub wrap
  omega

theorem scaled_eq (hprice : 0 < price) (hpriceMax : price ≤ i128Max) (hexpected : 0 < expected)
    (hexpectedMax : expected ≤ i128Max) :
    satMul (wrapAbs (wrapSub price expected)) 10000 =
      min i128Max ((price - expected).natAbs * 10000) := by
  rw [distance_eq hprice hpriceMax hexpected hexpectedMax,
    satMul_of_nonneg (Int.natCast_nonneg _) (by decide)]

/-- A deviation exceeds a tolerance when the exact one does and the bound fits. -/
theorem lt_deviationBps_iff (hprice : 0 < price) (hpriceMax : price ≤ i128Max)
    (hexpected : 0 < expected) (hexpectedMax : expected ≤ i128Max)
    (htolerance : toleranceBps ≤ maxToleranceBps) :
    toleranceBps < Store.deviationBps price expected ↔
      Deviates toleranceBps expected price ∧ (toleranceBps+1) * expected ≤ i128Max := by
  have habs : wrapAbs expected = expected := by
    unfold i128Max at hexpectedMax
    unfold wrapAbs wrap
    omega
  unfold Store.deviationBps
  rw [if_neg hexpected.ne',scaled_eq hprice hpriceMax hexpected hexpectedMax,habs,
    deviates_iff hexpected,and_comm,← le_min_iff,Int.tdiv_eq_ediv_of_nonneg (by
      omega)]
  obtain ⟨q,hq⟩ : ∃ q, q = min i128Max ((price - expected).natAbs * 10000) / expected := ⟨_,rfl⟩
  rw [← Int.le_ediv_iff_mul_le hexpected,← hq]
  have hqpos : 0 ≤ q := by
    rw [hq]
    exact Int.ediv_nonneg (by unfold i128Max; omega) hexpected.le
  unfold maxToleranceBps at htolerance
  dsimp only
  split_ifs with hlarge
  · unfold u32Max at hlarge ⊢
    omega
  · unfold u32Max at hlarge
    unfold wrap32 toU128
    omega

end Arithmetic

section Reports

variable {env : Env} {st : Store} {asset : Address} {price : Int} {r : SanityRelation}
  {reference : Int}

theorem storedPrice_pos {a : Address} {p : Int} (h : st.storedPrice a = some p) : 0 < p := by
  obtain ⟨aggregate,hfilter,rfl⟩ := Option.map_eq_some_iff.1 h
  exact of_decide_eq_true (Option.filter_eq_some_iff.1 hfilter).2

theorem violation_isSome_iff {reference expected : Int}
    (h : st.expectedPrice r = some (reference,expected)) :
    (st.relationViolation env asset price r).isSome ↔
      0 < expected ∧ r.toleranceBps < Store.relationMagnitude r price reference expected := by
  unfold Store.relationViolation
  rw [h]
  dsimp only
  split_ifs with hskips
  · simp only [Option.isSome_none,Bool.false_eq_true,false_iff]
    omega
  · simp only [Option.isSome_some,true_iff]
    omega

theorem violation_isSome_of_none (h : st.expectedPrice r = none) :
    ¬(st.relationViolation env asset price r).isSome := by
  unfold Store.relationViolation
  rw [h]
  exact Bool.false_ne_true

/-- A relation is reported exactly if its own step of the check reports it. -/
theorem reported_iff (hactive : st.sanitySuspendedAt env asset = false)
    (hdeclared : Declared asset (st.getRelations asset)) (hr : r ∈ st.getRelations asset) :
    Reported env st asset price r ↔ (st.relationViolation env asset price r).isSome := by
  have hfields {s : SanityRelation} {e : SanityRelationViolatedEvent}
      (h : st.relationViolation env asset price s = some e) :
      e.conflictingAsset = s.peer ∧ e.kind = s.kind := by
    unfold Store.relationViolation at h
    cases hs : st.expectedPrice s with
    | none =>
      rw [hs] at h
      cases h
    | some x =>
      rw [hs] at h
      dsimp only at h
      split_ifs at h with hskips
      cases h
      exact ⟨rfl,rfl⟩
  unfold Reported Store.sanityViolations
  rw [hactive,if_neg Bool.false_ne_true]
  constructor
  · rintro ⟨e,he,hpeer,hkind⟩
    obtain ⟨s,hs,hviolation⟩ := List.mem_filterMap.1 he
    obtain ⟨hspeer,hskind⟩ := hfields hviolation
    have hsame : s = r := by
      refine List.inj_on_of_nodup_map hdeclared.distinct hs hr ?_
      rw [← hspeer,← hskind,hpeer,hkind]
    rw [← hsame,hviolation]
    rfl
  · intro hsome
    obtain ⟨e,he⟩ := Option.isSome_iff_exists.1 hsome
    exact ⟨e,List.mem_filterMap.2 ⟨r,hr,he⟩,hfields he⟩

theorem agree_iff {toleranceBps : Nat} {expected price exactExpected exactPrice : Int}
    (hprice : 0 < price) (hpriceMax : price ≤ i128Max) (hexpected : 0 < expected)
    (hexpectedMax : expected ≤ i128Max) (htolerance : toleranceBps ≤ maxToleranceBps) :
    (toleranceBps < Store.deviationBps price expected ↔
        Deviates toleranceBps exactExpected exactPrice) ↔
      Agree toleranceBps expected price exactExpected exactPrice := by
  rw [lt_deviationBps_iff hprice hpriceMax hexpected hexpectedMax htolerance,Agree,← not_le]
  exact iff_iff_and_or_not_and_not.trans (by rw [and_assoc,not_and_or])

theorem checkedDiv_getD {a b : Int} (ha : 0 ≤ a) : (checkedDiv a b).getD 0 = a.tdiv b := by
  unfold checkedDiv i128Min
  split_ifs with h
  · rcases h with rfl | ⟨hmin,-⟩
    · simp
    · omega
  · rfl

theorem peg_faithful_iff (hkind : r.kind = .peg)
    (hpeer : st.storedPrice r.peer = some reference) (hvalid : Valid asset r)
    (hprice : 0 < price) (hpriceMax : price ≤ i128Max) :
    ((st.relationViolation env asset price r).isSome ↔ Broken st price r) ↔
      Faithful st price r := by
  have hproduct : 0 < reference * r.ratioNum :=
    Int.mul_pos (storedPrice_pos hpeer) (hvalid.rated hkind)
  obtain ⟨clipped,hclipped⟩ :
      ∃ c, c = (min i128Max (reference * r.ratioNum)).tdiv r.ratioDen := ⟨_,rfl⟩
  have hexpected : st.expectedPrice r = some (reference,clipped) := by
    unfold Store.expectedPrice
    rw [hpeer,hkind,hclipped]
    simp only [Option.bind_eq_bind,Option.bind_some]
    rw [satMul_of_nonneg (storedPrice_pos hpeer).le (hvalid.rated hkind).le,
      checkedDiv_getD (by unfold i128Max; omega)]
  have hmax : clipped ≤ i128Max := by
    rw [hclipped]
    refine (Int.tdiv_le_self _ ?_).trans (min_le_left _ _)
    omega
  rw [violation_isSome_iff hexpected]
  unfold Broken Faithful Store.relationMagnitude
  rw [hkind,hpeer]
  dsimp only
  rw [← hclipped]
  rcases Int.lt_or_le 0 clipped with hpos | hneg
  · rw [and_iff_right hpos,agree_iff hprice hpriceMax hpos hmax hvalid.tight]
    simp [hpos]
  · simp [hneg,Int.not_lt.2 hneg]

theorem triangle_faithful_iff {reference p2 : Int} (hkind : r.kind = .triangle)
    (hpeer : st.storedPrice r.peer = some reference)
    (hpeer2 : r.peer2.bind st.storedPrice = some p2) (hp2 : 0 < p2 ∧ p2 ≤ i128Max)
    (hvalid : Valid asset r) (hprice : 0 < price) (hpriceMax : price ≤ i128Max) :
    ((st.relationViolation env asset price r).isSome ↔ Broken st price r) ↔
      Faithful st price r := by
  have hexpected : st.expectedPrice r = some (reference,p2) := by
    unfold Store.expectedPrice
    rw [hpeer,hkind,hpeer2]
    rfl
  rw [violation_isSome_iff hexpected,and_iff_right hp2.1]
  unfold Broken Faithful Store.relationMagnitude
  rw [hkind,hpeer,hpeer2]
  exact agree_iff hprice hpriceMax hp2.1 hp2.2 hvalid.tight

theorem spread_magnitude (hkind : r.kind = .spread) (hreference : 0 < reference)
    (hreferenceMax : reference ≤ i128Max) (hprice : 0 < price) (hpriceMax : price ≤ i128Max) :
    Store.relationMagnitude r price reference reference =
      min i128Max.toNat ((price - reference).natAbs * 10000) / price.natAbs % 2 ^ 32 := by
  have hbase : max (wrapAbs price) 1 = price.natAbs := by
    unfold i128Max at hpriceMax
    unfold wrapAbs wrap
    omega
  have hclip : min i128Max (((price - reference).natAbs : Int) * 10000) =
      (min i128Max.toNat ((price - reference).natAbs * 10000) : Nat) := by
    omega
  unfold Store.relationMagnitude
  rw [hkind]
  dsimp only
  rw [scaled_eq hprice hpriceMax hreference hreferenceMax,hbase,hclip,
    Int.tdiv_eq_ediv_of_nonneg (Int.natCast_nonneg _),← Int.natCast_ediv]
  unfold wrap32 toU128
  omega

theorem spread_faithful_iff (hkind : r.kind = .spread)
    (hpeer : st.storedPrice r.peer = some reference) (hreference : reference ≤ i128Max)
    (hprice : 0 < price) (hpriceMax : price ≤ i128Max) :
    ((st.relationViolation env asset price r).isSome ↔ Broken st price r) ↔
      Faithful st price r := by
  have hpos := storedPrice_pos hpeer
  have hexpected : st.expectedPrice r = some (reference,reference) := by
    unfold Store.expectedPrice
    rw [hpeer,hkind]
    rfl
  rw [violation_isSome_iff hexpected,and_iff_right hpos,
    spread_magnitude hkind hpos hreference hprice hpriceMax]
  unfold Broken Faithful
  rw [hkind,hpeer]
  have hclipped : min i128Max.toNat ((price - reference).natAbs * 10000) / price.natAbs ≤
      (price - reference).natAbs * 10000 / price.natAbs :=
    Nat.div_le_div_right (min_le_right _ _)
  have hlow := Nat.mod_le
    (min i128Max.toNat ((price - reference).natAbs * 10000) / price.natAbs) (2 ^ 32)
  omega

/-- Every relation is reported as it is documented exactly if the check sees it so. -/
theorem faithful_iff (hvalid : Valid asset r) (hprice : 0 < price) (hpriceMax : price ≤ i128Max)
    (hstored : ∀ a p, st.storedPrice a = some p → p ≤ i128Max) :
    ((st.relationViolation env asset price r).isSome ↔ Broken st price r) ↔
      Faithful st price r := by
  have hunpriced (h : st.expectedPrice r = none) (hbroken : ¬Broken st price r)
      (hfaithful : Faithful st price r) :
      ((st.relationViolation env asset price r).isSome ↔ Broken st price r) ↔
        Faithful st price r :=
    iff_of_true (iff_of_false (violation_isSome_of_none h) hbroken) hfaithful
  cases hpeer : st.storedPrice r.peer with
  | none =>
    refine hunpriced (by simp [Store.expectedPrice,hpeer]) ?_ ?_
    · unfold Broken
      rw [hpeer]
      cases r.kind <;> exact id
    · unfold Faithful
      rw [hpeer]
      cases r.kind <;> trivial
  | some reference =>
    cases hkind : r.kind with
    | peg => exact peg_faithful_iff hkind hpeer hvalid hprice hpriceMax
    | spread =>
      exact spread_faithful_iff hkind hpeer (hstored _ _ hpeer) hprice hpriceMax
    | triangle =>
      cases hpeer2 : r.peer2.bind st.storedPrice with
      | some p2 =>
        obtain ⟨a,-,ha⟩ := Option.bind_eq_some_iff.1 hpeer2
        exact triangle_faithful_iff hkind hpeer hpeer2 ⟨storedPrice_pos ha,hstored a p2 ha⟩ hvalid
          hprice hpriceMax
      | none =>
        refine hunpriced (by simp [Store.expectedPrice,hpeer,hkind,hpeer2]) ?_ ?_
        · unfold Broken
          rw [hkind,hpeer,hpeer2]
          exact id
        · unfold Faithful
          rw [hkind,hpeer,hpeer2]
          trivial

end Reports

/-- Among relations that a run has declared, an asset that is not suspended reports for a candidate
those that fail as documented, and no others, exactly if the check sees each of them so. -/
theorem reports_exact_iff (st : Store) (hst : st.config.sanityRelations = fun _ => none)
    (ts : List LatticeTx) (env : Env) (asset : Address) (price : Int) (hprice : 0 < price)
    (hpriceMax : price ≤ i128Max)
    (hactive : (run execLattice st ts).sanitySuspendedAt env asset = false)
    (hstored : ∀ a p, (run execLattice st ts).storedPrice a = some p → p ≤ i128Max) :
    (∀ r ∈ (run execLattice st ts).getRelations asset,
      (Reported env (run execLattice st ts) asset price r ↔
        Broken (run execLattice st ts) price r)) ↔
      ∀ r ∈ (run execLattice st ts).getRelations asset,
        Faithful (run execLattice st ts) price r := by
  have hdeclared := allDeclared_run hst ts asset
  refine forall₂_congr fun r hr => ?_
  rw [reported_iff hactive hdeclared hr]
  exact faithful_iff (hdeclared.valid r hr) hprice hpriceMax hstored

def peerPrices (peer peer2 : Int) : Map Address AggregatePrice :=
  fun a => some ⟨if a = 2 then peer else peer2, 10, 3, 7, false, 0⟩

/-- A contract with an administrator and registered assets, all of which have prices. -/
def latticeStore (peer peer2 : Int) : Store :=
  { ({} : Store) with
    config := { ({} : Config) with admin := some 9 }
    registry := { ({} : Registry) with assetRegistered := fun _ => some true }
    aggregate := peerPrices peer peer2 }

def administered (c : LatticeCall) : LatticeTx := ⟨.concrete 5 20 [9], .call c⟩

theorem peerPrices_typed {st : Store} {peer peer2 : Int} (hst : st.aggregate = peerPrices peer peer2)
    (h : peer ≤ i128Max ∧ peer2 ≤ i128Max) (a : Address) (p : Int)
    (hp : st.storedPrice a = some p) : p ≤ i128Max := by
  obtain ⟨aggregate,hfilter,rfl⟩ := Option.map_eq_some_iff.1 hp
  have haggregate := (Option.filter_eq_some_iff.1 hfilter).1
  rw [hst,peerPrices,Option.some.injEq] at haggregate
  rw [← haggregate]
  split_ifs
  · exact h.1
  · exact h.2

def parity : SanityRelation := ⟨1, 2, none, .peg, 100, 1, 1, .reject⟩

def cross : SanityRelation := ⟨1, 2, some 3, .triangle, 100, 0, 0, .reject⟩

theorem parity_reports_exact :
    let st := run execLattice (latticeStore 1000000 1) [administered (.addRelation 1 parity)]
    ∀ r ∈ st.getRelations 1,
      (Reported (.concrete 6 30 []) st 1 1020000 r ↔ Broken st 1020000 r) :=
  (reports_exact_iff (latticeStore 1000000 1) rfl [administered (.addRelation 1 parity)]
    (.concrete 6 30 []) 1 1020000 (by decide) (by decide) (by decide +kernel)
    (peerPrices_typed rfl (by decide))).2 (by
    intro r hr
    have hrelations : (run execLattice (latticeStore 1000000 1)
        [administered (.addRelation 1 parity)]).getRelations 1 = [parity] := by decide +kernel
    rw [hrelations,List.mem_singleton] at hr
    rw [hr]
    exact .inl ⟨by decide,.inl ⟨by decide,by decide,by decide⟩⟩)

/-- The cross rate closes, and the candidate is compared with it without its other leg. -/
theorem cross_reports_closed_triangle :
    let st := run execLattice (latticeStore 3 6) [administered (.addRelation 1 cross)]
    st.sanitySuspendedAt (.concrete 6 30 []) 1 = false ∧ ¬Quarantined st 1 ∧
      ¬∀ r ∈ st.getRelations 1, (Reported (.concrete 6 30 []) st 1 2 r ↔ Broken st 2 r) := by
  refine ⟨by decide +kernel,?_,fun hexact => ?_⟩
  · rintro ⟨status,hstatus,-⟩
    cases hstatus
  · have hmem : cross ∈ (run execLattice (latticeStore 3 6)
        [administered (.addRelation 1 cross)]).getRelations 1 := by decide +kernel
    have hreported : Reported (.concrete 6 30 []) (run execLattice (latticeStore 3 6)
        [administered (.addRelation 1 cross)]) 1 2 cross := by
      unfold Reported
      decide +kernel
    have hbroken : Deviates 100 6 (2 * 3) := (hexact cross hmem).1 hreported
    revert hbroken
    decide

end PriceOracle.Lattice
