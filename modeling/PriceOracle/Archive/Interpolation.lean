import PriceOracle.Archive.Index
import PriceOracle.Model.HistoryReaders

/-! # Interpolated prices

Between two entries the price lies on the line through them. The difference of the prices is
multiplied by the number of ledgers before it is divided, in 128 bits: where the largest product
does not fit, the line breaks. -/

namespace PriceOracle.Archive

open Lib.MachineInt Lib.Run Lib.Transaction Model
open Model.Pricing (IsPrice)

section Line

variable {p q : Int} {range offset : Nat}

/-- The price `offset` ledgers after `p` on the line that reaches `q` after `range` ledgers. -/
def linePrice (p q : Int) (range offset : Nat) : Int :=
  wrapAdd p ((wrapMul (wrapSub q p) offset).tdiv range)

theorem tdiv_between_up {x d : Int} (hrange : 0 < range) (hx : 0 ≤ x) (hxd : x ≤ d * range) :
    0 ≤ x.tdiv range ∧ x.tdiv range ≤ d := by
  have hpos : (0 : Int) < range := by exact_mod_cast hrange
  have hlow := Int.tdiv_le_tdiv hpos hx
  have hhigh := Int.tdiv_le_tdiv hpos hxd
  rw [Int.zero_tdiv] at hlow
  rw [Int.mul_tdiv_cancel _ hpos.ne'] at hhigh
  exact ⟨hlow,hhigh⟩

theorem tdiv_between_down {x d : Int} (hrange : 0 < range) (hx : x ≤ 0) (hxd : d * range ≤ x) :
    d ≤ x.tdiv range ∧ x.tdiv range ≤ 0 := by
  have hpos : (0 : Int) < range := by exact_mod_cast hrange
  have hlow := Int.tdiv_le_tdiv hpos hxd
  have hhigh := Int.tdiv_le_tdiv hpos hx
  rw [Int.zero_tdiv] at hhigh
  rw [Int.mul_tdiv_cancel _ hpos.ne'] at hlow
  exact ⟨hlow,hhigh⟩

theorem linePrice_def (hp : IsPrice p) (hq : IsPrice q) :
    linePrice p q range offset = wrap (p + (wrap ((q - p) * offset)).tdiv range) := by
  have hdiff : wrapSub q p = q - p := by
    obtain ⟨hp,-,hp'⟩ := hp
    obtain ⟨hq,-,hq'⟩ := hq
    apply wrap_of_isI128
    unfold IsI128 i128Min
    unfold i128Max at hp' hq' ⊢
    omega
  unfold linePrice
  rw [hdiff]
  rfl

/-- Where the product fits, the price is on the line, between its ends. -/
theorem linePrice_eq (hp : IsPrice p) (hq : IsPrice q) (hrange : 0 < range)
    (hoffset : offset ≤ range) (hfits : IsI128 ((q - p) * offset)) :
    linePrice p q range offset = p + ((q - p) * offset).tdiv range ∧
      min p q ≤ linePrice p q range offset ∧ linePrice p q range offset ≤ max p q := by
  have hle : (offset : Int) ≤ range := by exact_mod_cast hoffset
  have hbetween : min p q ≤ p + ((q - p) * offset).tdiv range ∧
      p + ((q - p) * offset).tdiv range ≤ max p q := by
    rcases le_total p q with hpq | hqp
    · have hd : 0 ≤ q - p := by omega
      obtain ⟨hlow,hhigh⟩ := tdiv_between_up hrange (mul_nonneg hd (Int.natCast_nonneg offset))
        (mul_le_mul_of_nonneg_left hle hd)
      omega
    · have hd : q - p ≤ 0 := by omega
      obtain ⟨hlow,hhigh⟩ := tdiv_between_down hrange
        (mul_nonpos_of_nonpos_of_nonneg hd (Int.natCast_nonneg offset))
        (mul_le_mul_of_nonpos_left hle hd)
      omega
  have heq : linePrice p q range offset = p + ((q - p) * offset).tdiv range := by
    rw [linePrice_def hp hq,wrap_of_isI128 hfits]
    apply wrap_of_isI128
    obtain ⟨hp,-,hp'⟩ := hp
    obtain ⟨hq,-,hq'⟩ := hq
    unfold IsI128 i128Min
    omega
  rw [heq]
  exact ⟨rfl,hbetween⟩

theorem one_le_tdiv {x : Int} (hrange : 0 < range) (hx : (range : Int) ≤ x) : 1 ≤ x.tdiv range := by
  have hpos : (0 : Int) < range := by exact_mod_cast hrange
  have hle := Int.tdiv_le_tdiv hpos hx
  rwa [Int.tdiv_self hpos.ne'] at hle

theorem tdiv_le_neg_one {x : Int} (hrange : 0 < range) (hx : x ≤ -(range : Int)) :
    x.tdiv range ≤ -1 := by
  have hle := one_le_tdiv (x := -x) hrange (by omega)
  rw [Int.neg_tdiv] at hle
  omega

theorem tdiv_nonneg_le {x : Int} (hrange : 0 < range) (hx : 0 ≤ x) :
    0 ≤ x.tdiv range ∧ x.tdiv range ≤ x := by
  have hone : (1 : Int) ≤ range := by exact_mod_cast hrange
  exact tdiv_between_up hrange hx (le_mul_of_one_le_right hx hone)

theorem le_tdiv_nonpos {x : Int} (hrange : 0 < range) (hx : x ≤ 0) :
    x ≤ x.tdiv range ∧ x.tdiv range ≤ 0 := by
  have hneg := tdiv_nonneg_le (x := -x) hrange (by omega)
  rw [Int.neg_tdiv] at hneg
  omega

/-- On a rising line the first product that does not fit lets the price fall below its start or
back to it, and then it rises again. -/
theorem breaks_up {d y : Int} (hp : 0 < p) (hd : 0 < d) (hq : p + d ≤ i128Max) (hdy : d ≤ y)
    (hy : y ≤ d * range) (hfits : y ≤ i128Max) (hover : i128Max < y + d) (hpos : 0 < range)
    (hrange : range ≤ u32Max) :
    p < wrap (p + (wrap y).tdiv range) ∧ (wrap (p + (wrap (y + d)).tdiv range) < p ∨
      wrap (p + (wrap (y + d)).tdiv range) = p ∧ 2 ^ 128 - range < y + d ∧
        p < wrap (p + (wrap (y + d + d)).tdiv range)) := by
  unfold i128Max at hq hfits hover
  unfold u32Max at hrange
  constructor
  · have hwrap : wrap y = y := by unfold wrap; omega
    have hrise := one_le_tdiv (x := y) hpos (by omega)
    obtain ⟨-,htop⟩ := tdiv_between_up hpos (show 0 ≤ y by omega) hy
    rw [hwrap]
    unfold wrap
    omega
  · have hwrap : wrap (y + d) = y + d - 2 ^ 128 := by unfold wrap; omega
    have hfall := le_tdiv_nonpos (x := y + d - 2 ^ 128) hpos (by omega)
    have hsecond : wrap (p + (y + d - 2 ^ 128).tdiv range) =
        p + (y + d - 2 ^ 128).tdiv range := by
      unfold wrap
      omega
    rw [hwrap,hsecond]
    rcases hfall.2.lt_or_eq with hneg | hzero
    · exact Or.inl (by omega)
    · -- the product wrapped to almost nothing, and the next one is large again
      have hnear : -(range : Int) < y + d - 2 ^ 128 := by
        by_contra hfar
        have := tdiv_le_neg_one hpos (not_lt.1 hfar)
        omega
      have hwrap' : wrap (y + d + d) = y + d + d - 2 ^ 128 := by unfold wrap; omega
      have hrise := one_le_tdiv (x := y + d + d - 2 ^ 128) hpos (by omega)
      have htop := tdiv_nonneg_le (x := y + d + d - 2 ^ 128) hpos (by omega)
      rw [hwrap']
      unfold wrap
      omega

/-- On a falling line it rises above its start, wraps, or comes back to it and falls again. -/
theorem breaks_down {d y : Int} (hp : p ≤ i128Max) (hd : d < 0) (hq : 0 < p + d) (hdy : y ≤ d)
    (hy : d * range ≤ y) (hfits : i128Min ≤ y) (hover : y + d < i128Min) (hpos : 0 < range)
    (hrange : range ≤ u32Max) :
    wrap (p + (wrap y).tdiv range) < p ∧ (p < wrap (p + (wrap (y + d)).tdiv range) ∨
      wrap (p + (wrap (y + d)).tdiv range) < 0 ∨
      wrap (p + (wrap (y + d)).tdiv range) = p ∧ y + d < range - 2 ^ 128 ∧
        wrap (p + (wrap (y + d + d)).tdiv range) < p) := by
  unfold i128Max at hp
  unfold i128Min at hfits hover
  unfold u32Max at hrange
  constructor
  · have hwrap : wrap y = y := by unfold wrap; omega
    have hfall := tdiv_le_neg_one (x := y) hpos (by omega)
    obtain ⟨hbottom,-⟩ := tdiv_between_down hpos (show y ≤ 0 by omega) hy
    rw [hwrap]
    unfold wrap
    omega
  · have hwrap : wrap (y + d) = y + d + 2 ^ 128 := by unfold wrap; omega
    have hrise := tdiv_nonneg_le (x := y + d + 2 ^ 128) hpos (by omega)
    rw [hwrap]
    rcases hrise.1.lt_or_eq with hup | hzero
    · by_cases hmax : p + (y + d + 2 ^ 128).tdiv range < 2 ^ 127
      · unfold wrap
        omega
      · unfold wrap
        omega
    · have hnear : y + d + 2 ^ 128 < range := by
        by_contra hfar
        have := one_le_tdiv hpos (not_lt.1 hfar)
        omega
      have hwrap' : wrap (y + d + d) = y + d + d + 2 ^ 128 := by unfold wrap; omega
      have hfall := tdiv_le_neg_one (x := y + d + d + 2 ^ 128) hpos (by omega)
      have hbottom := le_tdiv_nonpos (x := y + d + d + 2 ^ 128) hpos (by omega)
      right; right
      refine ⟨?_,by omega,?_⟩
      · unfold wrap
        omega
      · rw [hwrap']
        unfold wrap
        omega

/-- The prices before the end of the line stay between its ends and go one way. -/
structure Straight (p q : Int) (range : Nat) : Prop where
  between : ∀ o, 0 < o → o < range →
    min p q ≤ linePrice p q range o ∧ linePrice p q range o ≤ max p q
  monotone : (∀ o o', 0 < o → o ≤ o' → o' < range →
      linePrice p q range o ≤ linePrice p q range o') ∨
    ∀ o o', 0 < o → o ≤ o' → o' < range → linePrice p q range o' ≤ linePrice p q range o

theorem straight_of_fits (hp : IsPrice p) (hq : IsPrice q)
    (hfits : IsI128 ((q - p) * (range - 1 : Nat))) : Straight p q range := by
  have hall : ∀ o, o < range → IsI128 ((q - p) * o) := by
    intro o ho
    have hle : (o : Int) ≤ (range - 1 : Nat) := by omega
    have hzero : IsI128 0 := ⟨by decide,by decide⟩
    rcases le_total 0 (q - p) with hd | hd
    · have hup := mul_le_mul_of_nonneg_left hle hd
      exact ⟨hzero.1.trans (mul_nonneg hd (Int.natCast_nonneg o)),hup.trans hfits.2⟩
    · have hdown := mul_le_mul_of_nonpos_left hle hd
      exact ⟨hfits.1.trans hdown,
        (mul_nonpos_of_nonpos_of_nonneg hd (Int.natCast_nonneg o)).trans hzero.2⟩
  have heq : ∀ o, 0 < o → o < range →
      linePrice p q range o = p + ((q - p) * o).tdiv range := fun o ho hlt =>
    (linePrice_eq hp hq (by omega) hlt.le (hall o hlt)).1
  constructor
  · intro o ho hlt
    exact (linePrice_eq hp hq (by omega) hlt.le (hall o hlt)).2
  · rcases le_total 0 (q - p) with hd | hd
    · refine Or.inl fun o o' ho hoo hlt => ?_
      rw [heq o ho (by omega),heq o' (by omega) hlt]
      have hmul := mul_le_mul_of_nonneg_left (show (o : Int) ≤ o' by omega) hd
      have := Int.tdiv_le_tdiv (show (0 : Int) < range by omega) hmul
      omega
    · refine Or.inr fun o o' ho hoo hlt => ?_
      rw [heq o ho (by omega),heq o' (by omega) hlt]
      have hmul := mul_le_mul_of_nonpos_left (show (o : Int) ≤ o' by omega) hd
      have := Int.tdiv_le_tdiv (show (0 : Int) < range by omega) hmul
      omega

theorem mul_next (d : Int) (j : Nat) : d * (j+1 : Nat) = d * j + d := by
  rw [Nat.cast_add,mul_add,Nat.cast_one,mul_one]

theorem exists_last {P : Nat → Prop} (hone : P 1) {n : Nat} (hn : 1 ≤ n) (hfails : ¬P n) :
    ∃ j, 1 ≤ j ∧ j < n ∧ P j ∧ ¬P (j+1) := by
  induction n, hn using Nat.le_induction with
  | base => exact absurd hone hfails
  | succ n hn ih =>
    by_cases hholds : P n
    · exact ⟨n,hn,Nat.lt_succ_self n,hholds,hfails⟩
    · obtain ⟨j,hj,hlt,hholds,hnext⟩ := ih hholds
      exact ⟨j,hj,hlt.trans (Nat.lt_succ_self n),hholds,hnext⟩

section Overflow

variable {j : Nat} (hp : IsPrice p) (hq : IsPrice q) (hj : 1 ≤ j) (hlast : j + 1 < range)
  (hrange : range ≤ u32Max) (hfits : IsI128 ((q - p) * j))
  (hover : ¬IsI128 ((q - p) * (j + 1 : Nat)))

include hp hq hj hlast hrange hfits hover

/-- The first product that does not fit leaves a rising line. -/
theorem not_straight_up (hpq : p < q) : ¬Straight p q range := by
  intro hstraight
  have hsum := mul_next (q - p) j
  have hsum' : (q - p) * (j+2 : Nat) = (q - p) * j + (q - p) + (q - p) := by
    rw [← hsum]
    exact mul_next (q - p) (j+1)
  have hd : 0 < q - p := by omega
  have hdy : q - p ≤ (q - p) * j := le_mul_of_one_le_right hd.le (by exact_mod_cast hj)
  have hy : (q - p) * j ≤ (q - p) * range := mul_le_mul_of_nonneg_left (by omega) hd.le
  have hmax : i128Max < (q - p) * j + (q - p) := by
    by_contra hle
    apply hover
    rw [hsum]
    exact ⟨hfits.1.trans (by omega),not_lt.1 hle⟩
  obtain ⟨hrise,hback⟩ := breaks_up hp.1 hd (by have := hq.2.2; omega) hdy hy hfits.2 hmax
    (show 0 < range by omega) hrange
  rw [← hsum',← hsum,← linePrice_def hp hq,← linePrice_def hp hq] at hback
  rw [← linePrice_def hp hq] at hrise
  have hbetween := hstraight.between (j+1) (by omega) hlast
  rcases hback with hback | ⟨hstart,hwrapped,hagain⟩
  · omega
  · -- another ledger follows, for the wrapped product is not that small at the last one
    have hmore : j+2 < range := by
      by_contra hend
      have hpM := hp.1
      have hqM := hq.2.2
      have hfits' := hfits.2
      unfold i128Max at hqM hfits'
      unfold u32Max at hrange
      rcases Nat.lt_or_ge j 2 with hone | htwo
      · omega
      · have htwice : (q - p) * 2 ≤ (q - p) * j :=
          mul_le_mul_of_nonneg_left (by exact_mod_cast htwo) hd.le
        omega
    rcases hstraight.monotone with hup | hdown
    · have := hup j (j+1) (by omega) (Nat.le_succ j) hlast
      omega
    · have := hdown (j+1) (j+2) (by omega) (Nat.le_succ _) hmore
      omega

/-- It leaves a falling line as well. -/
theorem not_straight_down (hqp : q < p) : ¬Straight p q range := by
  intro hstraight
  have hsum := mul_next (q - p) j
  have hsum' : (q - p) * (j+2 : Nat) = (q - p) * j + (q - p) + (q - p) := by
    rw [← hsum]
    exact mul_next (q - p) (j+1)
  have hd : q - p < 0 := by omega
  have hdy : (q - p) * j ≤ q - p := by
    have hmul := mul_le_mul_of_nonpos_left (show (1 : Int) ≤ j by exact_mod_cast hj) hd.le
    rwa [mul_one] at hmul
  have hy : (q - p) * range ≤ (q - p) * j := mul_le_mul_of_nonpos_left (by omega) hd.le
  have hmin : (q - p) * j + (q - p) < i128Min := by
    by_contra hle
    apply hover
    rw [hsum]
    exact ⟨not_lt.1 hle,le_trans (by omega) hfits.2⟩
  obtain ⟨hfall,hback⟩ := breaks_down hp.2.2 hd (by have := hq.1; omega) hdy hy hfits.1 hmin
    (show 0 < range by omega) hrange
  rw [← hsum',← hsum,← linePrice_def hp hq,← linePrice_def hp hq] at hback
  rw [← linePrice_def hp hq] at hfall
  have hbetween := hstraight.between (j+1) (by omega) hlast
  have hqpos := hq.1
  rcases hback with hback | hback | ⟨hstart,hwrapped,hagain⟩
  · omega
  · omega
  · have hmore : j+2 < range := by
      by_contra hend
      have hpM := hp.2.2
      have hfits' := hfits.1
      unfold i128Max at hpM
      unfold i128Min at hfits'
      unfold u32Max at hrange
      rcases Nat.lt_or_ge j 2 with hone | htwo
      · have hsame : (q - p) * (j : Int) = q - p := by
          rw [show j = 1 by omega,Nat.cast_one,mul_one]
        omega
      · have htwice : (q - p) * j ≤ (q - p) * 2 :=
          mul_le_mul_of_nonpos_left (by exact_mod_cast htwo) hd.le
        omega
    rcases hstraight.monotone with hup | hdown
    · have := hup (j+1) (j+2) (by omega) (Nat.le_succ _) hmore
      omega
    · have := hdown j (j+1) (by omega) (Nat.le_succ j) hlast
      omega

end Overflow

theorem straight_iff (hp : IsPrice p) (hq : IsPrice q) (hrange : range ≤ u32Max) :
    Straight p q range ↔ IsI128 ((q - p) * (range - 1 : Nat)) := by
  refine ⟨fun hstraight => ?_,straight_of_fits hp hq⟩
  by_contra hover
  have hone : IsI128 ((q - p) * (1 : Nat)) := by
    obtain ⟨hp0,-,hpM⟩ := hp
    obtain ⟨hq0,-,hqM⟩ := hq
    unfold IsI128 i128Min
    unfold i128Max at hpM hqM ⊢
    omega
  have hlong : 1 ≤ range - 1 := by
    by_contra hshort
    rw [Nat.eq_zero_of_not_pos hshort,Nat.cast_zero,mul_zero] at hover
    exact hover ⟨by decide,by decide⟩
  obtain ⟨j,hj,hlt,hfits,hnext⟩ :=
    exists_last (P := fun n => IsI128 ((q - p) * (n : Nat))) hone hlong hover
  rcases lt_trichotomy p q with hpq | rfl | hqp
  · exact not_straight_up hp hq hj (by omega) hrange hfits hnext hpq hstraight
  · rw [sub_self,zero_mul] at hover
    exact hover ⟨by decide,by decide⟩
  · exact not_straight_down hp hq hj (by omega) hrange hfits hnext hqp hstraight

end Line

section Neighbours

variable {h : History} {asset : Address} {ledger : Nat} {ls : List Nat}
  {before after : Option PriceHistoryEntry}

theorem neighbours_below {xs : List Nat} (hxs : ∀ l ∈ xs, l ≤ ledger) (h : History)
    (asset : Address) (ls : List Nat) (before after : Option PriceHistoryEntry) :
    ∃ before', h.neighbours asset ledger (xs ++ ls) before after =
      h.neighbours asset ledger ls before' after := by
  induction xs generalizing before with
  | nil => exact ⟨before,rfl⟩
  | cons x xs ih =>
    obtain ⟨before',heq⟩ := ih (fun l hl => hxs l (List.mem_cons_of_mem x hl))
      ((h.readHistoryEntry asset x).or before)
    refine ⟨before',?_⟩
    rw [List.cons_append,History.neighbours,if_pos (hxs x List.mem_cons_self),heq]

theorem neighbours_unreadable {xs : List Nat}
    (hxs : ∀ l ∈ xs, h.readHistoryEntry asset l = none) :
    h.neighbours asset ledger (xs ++ ls) before after =
      h.neighbours asset ledger ls before after := by
  induction xs with
  | nil => rfl
  | cons x xs ih =>
    have hrest := ih fun l hl => hxs l (List.mem_cons_of_mem x hl)
    rw [List.cons_append,History.neighbours,hxs x List.mem_cons_self,Option.none_or,
      Option.or_none,ite_self,hrest]

theorem neighbours_above {a : PriceHistoryEntry} (hls : ∀ l ∈ ls, ledger < l) :
    h.neighbours asset ledger ls before (some a) = (before,some a) := by
  induction ls with
  | nil => rfl
  | cons x xs ih =>
    rw [History.neighbours,if_neg (not_le.2 (hls x List.mem_cons_self)),Option.some_or]
    exact ih fun l hl => hls l (List.mem_cons_of_mem x hl)

variable {lower upper : Nat} {b a : PriceHistoryEntry}

/-- Between two adjacent entries the scan finds the two. -/
theorem neighbours_eq (hindex : (h.ledgerList asset).Pairwise (· < ·))
    (hlower : lower ∈ h.ledgerList asset) (hupper : upper ∈ h.ledgerList asset)
    (hb : h.readHistoryEntry asset lower = some b) (ha : h.readHistoryEntry asset upper = some a)
    (hadjacent : ∀ l, lower < l → l < upper → h.readHistoryEntry asset l = none)
    (hbelow : lower < ledger) (habove : ledger < upper) :
    h.neighbours asset ledger (h.ledgerList asset) none none = (some b,some a) := by
  obtain ⟨xs,rest,hsplit⟩ := List.append_of_mem hlower
  rw [hsplit] at hindex hupper ⊢
  obtain ⟨-,hrest,hfirst⟩ := List.pairwise_append.1 hindex
  obtain ⟨hlater,hrest⟩ := List.pairwise_cons.1 hrest
  have hupper' : upper ∈ rest := by
    rcases List.mem_append.1 hupper with hmem | hmem
    · have := hfirst upper hmem lower List.mem_cons_self
      omega
    · rcases List.mem_cons.1 hmem with heq | hmem
      · omega
      · exact hmem
  obtain ⟨ys,zs,rfl⟩ := List.append_of_mem hupper'
  obtain ⟨-,hlast,hmiddle⟩ := List.pairwise_append.1 hrest
  have hunreadable : ∀ l ∈ ys, h.readHistoryEntry asset l = none := fun l hl =>
    hadjacent l (hlater l (List.mem_append_left _ hl)) (hmiddle l hl upper List.mem_cons_self)
  have hxs : ∀ l ∈ xs, l ≤ ledger := fun l hl =>
    (hfirst l hl lower List.mem_cons_self).le.trans hbelow.le
  have hzs : ∀ l ∈ zs, ledger < l := fun l hl => habove.trans ((List.pairwise_cons.1 hlast).1 l hl)
  obtain ⟨before',heq⟩ :=
    neighbours_below hxs h asset (lower :: (ys ++ upper :: zs)) none none
  rw [heq,History.neighbours,if_pos hbelow.le,hb,Option.some_or,
    neighbours_unreadable hunreadable,History.neighbours,if_neg (not_le.2 habove),ha,
    Option.none_or,neighbours_above hzs]

end Neighbours

section Entries

variable {asset : Address} {b a : PriceHistoryEntry} {ledger : Nat} {w : World}

/-- A recorded entry: a positive price, and counters in their ranges. -/
structure Recorded (e : PriceHistoryEntry) : Prop where
  price : IsPrice e.price
  ledger : e.ledger ≤ u32Max
  timestamp : e.timestamp ≤ u64Max

theorem interpolated_price (ha : Recorded a) (hbelow : b.ledger < ledger)
    (habove : ledger < a.ledger) :
    (interpolated b a ledger).price =
      linePrice b.price a.price (a.ledger - b.ledger) (ledger - b.ledger) := by
  have hmax := ha.ledger
  unfold interpolated linePrice
  rw [wrapSub32_eq (by omega) hmax,wrapSub32_eq hbelow.le (by omega)]

theorem interpolated_timestamp (hb : Recorded b) (ha : Recorded a) (hbelow : b.ledger < ledger)
    (habove : ledger < a.ledger) :
    min b.timestamp a.timestamp ≤ (interpolated b a ledger).timestamp ∧
      (interpolated b a ledger).timestamp ≤ max b.timestamp a.timestamp := by
  have hmax := ha.ledger
  have hrange : 0 < a.ledger - b.ledger := by omega
  obtain ⟨hlow,hhigh⟩ := tdiv_between_up
    (x := (a.timestamp - b.timestamp : Nat) * (ledger - b.ledger : Nat))
    (d := (a.timestamp - b.timestamp : Nat)) hrange (by positivity)
    (mul_le_mul_of_nonneg_left (by omega) (Int.natCast_nonneg _))
  have hproduct : wrapMul (a.timestamp - b.timestamp : Nat) (ledger - b.ledger : Nat) =
      (a.timestamp - b.timestamp : Nat) * (ledger - b.ledger : Nat) := by
    have hfits : (a.timestamp - b.timestamp) * (ledger - b.ledger) ≤ u64Max * u32Max :=
      Nat.mul_le_mul ((Nat.sub_le _ _).trans ha.timestamp) (by omega)
    have hcast : ((a.timestamp - b.timestamp : Nat) : Int) * (ledger - b.ledger : Nat) ≤
        u64Max * u32Max := by exact_mod_cast hfits
    exact wrap_of_isI128
      ⟨(show i128Min ≤ 0 by decide).trans (by positivity),hcast.trans (by decide)⟩
  unfold interpolated
  dsimp only
  rw [wrapSub32_eq (by omega) hmax,wrapSub32_eq hbelow.le (by omega),hproduct]
  have hb' := hb.timestamp
  have ha' := ha.timestamp
  unfold u64Max at hb' ha'
  unfold wrap64 toU128
  omega

/-- Two readable entries of the index with none in between. -/
structure Adjacent (asset : Address) (h : History) (b a : PriceHistoryEntry) : Prop where
  lower : b.ledger ∈ h.ledgerList asset
  upper : a.ledger ∈ h.ledgerList asset
  before : h.readHistoryEntry asset b.ledger = some b
  after : h.readHistoryEntry asset a.ledger = some a
  ordered : b.ledger < a.ledger
  between : ∀ l, b.ledger < l → l < a.ledger → h.readHistoryEntry asset l = none

theorem historicalPrice_eq {st : Store} (ha : Recorded a)
    (hindex : (st.history.ledgerList asset).Pairwise (· < ·))
    (hadjacent : Adjacent asset st.history b a) (henabled : st.getInterpolationEnabled = true)
    (hbelow : b.ledger < ledger) (habove : ledger < a.ledger) :
    st.historicalPrice asset ledger = .ok (interpolated b a ledger) := by
  have hmax := ha.ledger
  have hrange : wrapSub32 a.ledger b.ledger ≠ 0 := by
    rw [wrapSub32_eq (by omega) hmax]
    omega
  unfold Store.historicalPrice
  rw [hadjacent.between ledger hbelow habove,neighbours_eq hindex hadjacent.lower hadjacent.upper
    hadjacent.before hadjacent.after hadjacent.between hbelow habove]
  simp [henabled,hrange]

theorem getHistoricalPrice_eq (hregistered : w.store.isRegisteredAsset asset = true)
    (ha : Recorded a) (hindex : (w.store.history.ledgerList asset).Pairwise (· < ·))
    (hadjacent : Adjacent asset w.store.history b a)
    (henabled : w.store.getInterpolationEnabled = true) (hbelow : b.ledger < ledger)
    (habove : ledger < a.ledger) :
    ∃ w', getHistoricalPrice asset ledger w = .ok (interpolated b a ledger) w' := by
  obtain ⟨w',hcheck,hframe⟩ := checkRegisteredAsset_ok hregistered
  have hhistory : w'.store.history = w.store.history := hframe .history (by simp)
  have hconfig : w'.store.config = w.store.config := hframe .config (by simp)
  have henabled' : w'.store.getInterpolationEnabled = true := by
    unfold Store.getInterpolationEnabled
    rw [hconfig]
    exact henabled
  rw [← hhistory] at hindex hadjacent
  refine ⟨w',?_⟩
  rw [getHistoricalPrice,bind_of_ok hcheck,consult,
    historicalPrice_eq ha hindex hadjacent henabled' hbelow habove]

/-- Every ledger between two adjacent entries has an entry between theirs, and the prices go one
way. -/
structure Interpolates (asset : Address) (b a : PriceHistoryEntry) (w : World) : Prop where
  between : ∀ l, b.ledger < l → l < a.ledger →
    ∃ e w', getHistoricalPrice asset l w = .ok e w' ∧
      min b.price a.price ≤ e.price ∧ e.price ≤ max b.price a.price ∧
      min b.timestamp a.timestamp ≤ e.timestamp ∧ e.timestamp ≤ max b.timestamp a.timestamp
  monotone : (∀ l l' e e' v v', b.ledger < l → l ≤ l' → l' < a.ledger →
      getHistoricalPrice asset l w = .ok e v → getHistoricalPrice asset l' w = .ok e' v' →
        e.price ≤ e'.price) ∨
    ∀ l l' e e' v v', b.ledger < l → l ≤ l' → l' < a.ledger →
      getHistoricalPrice asset l w = .ok e v → getHistoricalPrice asset l' w = .ok e' v' →
        e'.price ≤ e.price

section Reads

variable (hregistered : w.store.isRegisteredAsset asset = true)
  (hindex : (w.store.history.ledgerList asset).Pairwise (· < ·))
  (henabled : w.store.getInterpolationEnabled = true) (hb : Recorded b) (ha : Recorded a)
  (hadjacent : Adjacent asset w.store.history b a)

include hregistered hindex henabled hb ha hadjacent

omit hb in
/-- How two prices that are read compare is how two points of the line do. -/
theorem ordered_iff_line (R : Int → Int → Prop) :
    (∀ l l' e e' v v', b.ledger < l → l ≤ l' → l' < a.ledger →
      getHistoricalPrice asset l w = .ok e v → getHistoricalPrice asset l' w = .ok e' v' →
        R e.price e'.price) ↔
    ∀ o o', 0 < o → o ≤ o' → o' < a.ledger - b.ledger →
      R (linePrice b.price a.price (a.ledger - b.ledger) o)
        (linePrice b.price a.price (a.ledger - b.ledger) o') := by
  have hread : ∀ l, b.ledger < l → l < a.ledger →
      ∃ w', getHistoricalPrice asset l w = .ok (interpolated b a l) w' := fun l hbelow habove =>
    getHistoricalPrice_eq hregistered ha hindex hadjacent henabled hbelow habove
  constructor
  · intro h o o' ho hoo hlt
    obtain ⟨v,hrun⟩ := hread (b.ledger + o) (by omega) (by omega)
    obtain ⟨v',hrun'⟩ := hread (b.ledger + o') (by omega) (by omega)
    have hboth := h _ _ _ _ v v' (by omega) (by omega) (by omega) hrun hrun'
    rwa [interpolated_price ha (by omega) (by omega),interpolated_price ha (by omega) (by omega),
      Nat.add_sub_cancel_left,Nat.add_sub_cancel_left] at hboth
  · intro h l l' e e' v v' hbelow hll habove hrun hrun'
    obtain ⟨u,hfirst⟩ := hread l hbelow (by omega)
    obtain ⟨u',hsecond⟩ := hread l' (by omega) habove
    rw [hfirst] at hrun
    rw [hsecond] at hrun'
    cases hrun
    cases hrun'
    rw [interpolated_price ha hbelow (by omega),interpolated_price ha (by omega) habove]
    exact h _ _ (by omega) (by omega) (by omega)

theorem interpolates_iff_straight :
    Interpolates asset b a w ↔ Straight b.price a.price (a.ledger - b.ledger) := by
  have hread : ∀ l, b.ledger < l → l < a.ledger →
      ∃ w', getHistoricalPrice asset l w = .ok (interpolated b a l) w' := fun l hbelow habove =>
    getHistoricalPrice_eq hregistered ha hindex hadjacent henabled hbelow habove
  have hup := ordered_iff_line hregistered hindex henabled ha hadjacent (· ≤ ·)
  have hdown := ordered_iff_line hregistered hindex henabled ha hadjacent (· ≥ ·)
  constructor
  · intro h
    refine ⟨fun o ho hlt => ?_,h.monotone.imp hup.1 hdown.1⟩
    obtain ⟨e,w',hrun,hlow,hhigh,-⟩ := h.between (b.ledger + o) (by omega) (by omega)
    obtain ⟨v,hline⟩ := hread (b.ledger + o) (by omega) (by omega)
    rw [hline] at hrun
    cases hrun
    rw [interpolated_price ha (by omega) (by omega),Nat.add_sub_cancel_left] at hlow hhigh
    exact ⟨hlow,hhigh⟩
  · intro h
    refine ⟨fun l hbelow habove => ?_,h.monotone.imp hup.2 hdown.2⟩
    obtain ⟨w',hrun⟩ := hread l hbelow habove
    refine ⟨_,w',hrun,?_⟩
    rw [interpolated_price ha hbelow habove]
    obtain ⟨hlow,hhigh⟩ := h.between (l - b.ledger) (by omega) (by omega)
    exact ⟨hlow,hhigh,interpolated_timestamp hb ha hbelow habove⟩

theorem interpolates_iff_fits :
    Interpolates asset b a w ↔
      IsI128 ((a.price - b.price) * (a.ledger - b.ledger - 1 : Nat)) := by
  rw [interpolates_iff_straight hregistered hindex henabled hb ha hadjacent,
    straight_iff hb.price ha.price ((Nat.sub_le _ _).trans ha.ledger)]

end Reads

/-- At every index a run leads to, the prices between two adjacent entries lie on the line through
them exactly when the difference of the two prices, times the number of ledgers in between, fits. -/
theorem interpolates_iff (st₀ : Store) (ts : List HistoryTx) (hnone : NoHistory asset st₀.history)
    (hledgers : ts.Pairwise fun t u => t.env.sequence ≤ u.env.sequence)
    (hregistered : w.store.isRegisteredAsset asset = true)
    (hindex : w.store.history.ledgerList asset =
      (run execHistory st₀ ts).history.ledgerList asset)
    (henabled : w.store.getInterpolationEnabled = true) (hb : Recorded b) (ha : Recorded a)
    (hadjacent : Adjacent asset w.store.history b a) :
    Interpolates asset b a w ↔
      IsI128 ((a.price - b.price) * (a.ledger - b.ledger - 1 : Nat)) := by
  apply interpolates_iff_fits hregistered _ henabled hb ha hadjacent
  rw [hindex]
  exact ledgerList_sorted asset st₀ ts hnone hledgers

/-- Asset `10` has the prices `p` and `q` on record, four ledgers apart. -/
def twoPrices (p q : Int) : World :=
  ⟨.concrete 6 5 [], { thresholdStore 0 with history := {
    ledgers := fun _ => some [1, 5]
    entry := fun k => if k.2 = 1 then some ⟨p, 5, 1, 1, false⟩
      else if k.2 = 5 then some ⟨q, 25, 5, 1, false⟩ else none } }, {}⟩

theorem twoPrices_adjacent (p q : Int) :
    Adjacent 10 (twoPrices p q).store.history ⟨p,5,1,1,false⟩ ⟨q,25,5,1,false⟩ where
  lower := List.mem_cons_self
  upper := List.mem_cons_of_mem _ List.mem_cons_self
  before := rfl
  after := rfl
  ordered := show 1 < 5 by decide
  between l hlow hhigh := by
    have hne : l ≠ 1 ∧ l ≠ 5 := by
      dsimp only at hlow hhigh
      omega
    simp only [twoPrices,History.readHistoryEntry,if_neg hne.1,if_neg hne.2]
    rfl

/-- Publications of asset `10` at ledgers one and five. -/
def spacedRun : List HistoryTx :=
  [⟨.concrete 1 5 [], .call (.priced (.aggregate (.recomputeAssetPrice 10)))⟩,
    ⟨.concrete 5 25 [], .call (.priced (.aggregate (.recomputeAssetPrice 10)))⟩]

theorem interpolates_small :
    Interpolates 10 ⟨100, 5, 1, 1, false⟩ ⟨300, 25, 5, 1, false⟩ (twoPrices 100 300) :=
  (interpolates_iff (thresholdStore 0) spacedRun ⟨rfl,fun _ => rfl⟩ (by decide) (by decide)
    (by decide) (by decide) ⟨by decide,by decide,by decide⟩
    ⟨by decide,by decide,by decide⟩ (twoPrices_adjacent 100 300)).2
    ⟨by decide,by decide⟩

/-- Two ledgers after the price one, on the way to the greatest price, the product wraps. -/
theorem not_interpolates_greatest :
    ¬Interpolates 10 ⟨1, 5, 1, 1, false⟩ ⟨i128Max, 25, 5, 1, false⟩ (twoPrices 1 i128Max) := by
  rw [interpolates_iff_fits (by decide) (by decide) (by decide)
    ⟨by decide,by decide,by decide⟩ ⟨by decide,by decide,by decide⟩
    (twoPrices_adjacent 1 i128Max)]
  intro hfits
  exact absurd hfits.2 (by decide)

end Entries

end PriceOracle.Archive
