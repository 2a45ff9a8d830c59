import Mathlib.Algebra.Order.Ring.Int
import Mathlib.Data.Nat.Sqrt
import Mathlib.Tactic.Linarith

/-! # Integer square roots

The two usual loops for the floor of a square root. Newton's iteration goes down from an upper bound
and stops at the root, because no step crosses it; bisection keeps the root between two bounds until
they are neighbours. -/

namespace PriceOracle.Lib.SquareRoot

section Newton

variable {n x : Nat}

def newtonStep (n x : Nat) : Nat := (x + n / x) / 2

theorem mul_le_square (a b : Nat) : 4 * (a * b) ≤ (a + b) * (a + b) := by
  rcases Nat.le_total a b with h | h
  · obtain ⟨d,rfl⟩ := Nat.exists_eq_add_of_le h
    nlinarith only [Nat.zero_le (d * d)]
  · obtain ⟨d,rfl⟩ := Nat.exists_eq_add_of_le h
    nlinarith only [Nat.zero_le (d * d)]

theorem sqrt_le_newtonStep (hx : 0 < x) : n.sqrt ≤ newtonStep n x := by
  have hn : n < x * (n / x + 1) := Nat.lt_mul_div_succ n hx
  have hproduct := mul_le_square x (n / x + 1)
  unfold newtonStep
  by_contra hlt
  have hsum : x + (n / x + 1) ≤ 2 * n.sqrt := by omega
  have hsquare := Nat.mul_le_mul hsum hsum
  have hroot := Nat.sqrt_le n
  rw [Nat.mul_mul_mul_comm] at hsquare
  omega

theorem le_sqrt_of_le_newtonStep (hx : 0 < x) (hstop : x ≤ newtonStep n x) : x ≤ n.sqrt := by
  have hle : x ≤ n / x := by
    unfold newtonStep at hstop
    omega
  rw [Nat.le_sqrt]
  exact (Nat.le_div_iff_mul_le hx).1 hle

/-- Newton's iteration with a guess and the next one, for at most so many steps. -/
def newton (n : Nat) : Nat → Nat → Nat → Nat
  | 0, x, _ => x
  | fuel + 1, x, y => if y < x then newton n fuel y (newtonStep n y) else x

/-- From a guess that is not below the root, as many steps as the guess is large reach it. -/
theorem newton_eq {fuel : Nat} (hn : 0 < n) (hx : n.sqrt ≤ x) (hfuel : x ≤ fuel) :
    newton n fuel x (newtonStep n x) = n.sqrt := by
  have hroot : 0 < n.sqrt := Nat.sqrt_pos.2 hn
  induction fuel generalizing x with
  | zero => omega
  | succ fuel ih =>
    have hxpos : 0 < x := by omega
    rw [newton]
    split_ifs with hlower
    · exact ih (sqrt_le_newtonStep hxpos) (by omega)
    · exact Nat.le_antisymm (le_sqrt_of_le_newtonStep hxpos (Nat.le_of_not_lt hlower)) hx

end Newton

section Bisection

/-- Bisection for the last value that passes a test, between one that does and one that does not. -/
def bisect (test : Int → Bool) : Nat → Int → Int → Int
  | 0, lo, _ => lo
  | fuel + 1, lo, hi =>
    if lo + 1 < hi then
      let mid := lo + (hi - lo).tdiv 2
      if test mid then bisect test fuel mid hi else bisect test fuel lo mid
    else lo

variable {test : Int → Bool} {fuel : Nat} {lo hi : Int}

/-- The result passes and its successor does not, once the steps halve the distance to one. -/
theorem bisect_spec (hlo : test lo = true) (hhi : test hi = false) (hlt : lo < hi)
    (hfuel : hi - lo ≤ 2 ^ fuel) :
    lo ≤ bisect test fuel lo hi ∧ bisect test fuel lo hi < hi ∧
      test (bisect test fuel lo hi) = true ∧ test (bisect test fuel lo hi + 1) = false := by
  induction fuel generalizing lo hi with
  | zero =>
    have hnext : lo+1 = hi := by omega
    rw [bisect,hnext]
    exact ⟨le_rfl,hlt,hlo,hhi⟩
  | succ fuel ih =>
    rw [bisect]
    split_ifs with hopen
    · have hhalf : (hi - lo).tdiv 2 = (hi - lo) / 2 := Int.tdiv_eq_ediv_of_nonneg (by omega)
      dsimp only
      split_ifs with hpass
      · obtain ⟨hlow,hhigh,hends⟩ := ih hpass hhi (by omega) (by omega)
        exact ⟨by omega,hhigh,hends⟩
      · obtain ⟨hlow,hhigh,hends⟩ := ih hlo (Bool.not_eq_true _ ▸ hpass) (by omega) (by omega)
        exact ⟨hlow,by omega,hends⟩
    · have hnext : lo+1 = hi := by omega
      rw [hnext]
      exact ⟨le_rfl,hlt,hlo,hhi⟩

theorem eq_sqrt_of_bracket {n r : Int} (hr : 0 ≤ r) (hlow : r * r ≤ n)
    (hhigh : n < (r+1) * (r+1)) : r = n.toNat.sqrt := by
  obtain ⟨k,rfl⟩ := Int.eq_ofNat_of_zero_le hr
  obtain ⟨m,rfl⟩ := Int.eq_ofNat_of_zero_le ((mul_nonneg hr hr).trans hlow)
  rw [Int.toNat_natCast,Nat.cast_inj]
  exact Nat.eq_sqrt.2 ⟨by exact_mod_cast hlow,by exact_mod_cast hhigh⟩

end Bisection

end PriceOracle.Lib.SquareRoot
