import Mathlib.Algebra.Order.Ring.Int
import Mathlib.Tactic.SplitIfs

/-! # Machine integers

Signed 128-bit values are integers and unsigned counters are naturals; only the operations that
can leave the range are spelled out. A plain operator of an optimised build wraps, a
`saturating_` operator clamps, and division truncates towards zero. -/

namespace PriceOracle.Lib.MachineInt

variable {a b : Nat} {x : Int} {n : Nat} (l : List UInt8) (v : UInt32)

def i128Max : Int := 2 ^ 127 - 1

def i128Min : Int := -2 ^ 127

def IsI128 (x : Int) : Prop := i128Min ≤ x ∧ x ≤ i128Max

/-- Two's complement reduction of an exact result to 128 bits. -/
def wrap (x : Int) : Int := (x + 2 ^ 127) % 2 ^ 128 - 2 ^ 127

def saturate (x : Int) : Int := max i128Min (min i128Max x)

theorem saturate_of_isI128 (h : IsI128 x) : saturate x = x := by
  unfold saturate
  rw [min_eq_right h.2,max_eq_right h.1]

def satAdd (a b : Int) : Int := saturate (a + b)

def satSub (a b : Int) : Int := saturate (a - b)

def satMul (a b : Int) : Int := saturate (a * b)

def wrapAdd (a b : Int) : Int := wrap (a + b)

def wrapSub (a b : Int) : Int := wrap (a - b)

def wrapMul (a b : Int) : Int := wrap (a * b)

/-- The wrapping absolute value: the minimum is its own absolute value. -/
def wrapAbs (a : Int) : Int := wrap a.natAbs

/-- `checked_div`: no result for a zero divisor or an unrepresentable quotient. -/
def checkedDiv (a b : Int) : Option Int :=
  if b = 0 ∨ a = i128Min ∧ b = -1 then none else some (a.tdiv b)

def u32Max : Nat := 2 ^ 32 - 1

def u64Max : Nat := 2 ^ 64 - 1

def u128Max : Nat := 2 ^ 128 - 1

def satAdd32 (a b : Nat) : Nat := min (a + b) u32Max

def satMul32 (a b : Nat) : Nat := min (a * b) u32Max

def satAdd64 (a b : Nat) : Nat := min (a + b) u64Max

def wrap32 (a : Nat) : Nat := a % 2 ^ 32

def wrapSub32 (a b : Nat) : Nat := (a + 2 ^ 32 - b) % 2 ^ 32

def wrap64 (a : Nat) : Nat := a % 2 ^ 64

def wrapSub64 (a b : Nat) : Nat := (a + 2 ^ 64 - b) % 2 ^ 64

def wrap128 (a : Nat) : Nat := a % 2 ^ 128

def satAdd128 (a b : Nat) : Nat := min (a + b) u128Max

def satMul128 (a b : Nat) : Nat := min (a * b) u128Max

def toU128 (a : Int) : Nat := (a % 2 ^ 128).toNat

/-- Little-endian bytes of a natural, least significant first. -/
def leBytes : Nat → Nat → List UInt8
  | 0, _ => []
  | n + 1, x => UInt8.ofNat (x % 256) :: leBytes n (x / 256)

def ofLeBytes : List UInt8 → Nat
  | [] => 0
  | b :: bs => b.toNat + 256 * ofLeBytes bs

/-- Successor of a 32-bit counter that stays at the maximum once it is reached. -/
def satSucc (v : UInt32) : UInt32 := if v.toNat = u32Max then v else v + 1

theorem satSucc_toNat : (satSucc v).toNat = min (v.toNat+1) u32Max := by
  have hv : v.toNat < 2 ^ 32 := v.toNat_lt
  unfold satSucc
  split_ifs with h
  · rw [h]
    simp [u32Max]
  · have hlt : v.toNat+1 < 2 ^ 32 := by
      unfold u32Max at h
      omega
    rw [UInt32.toNat_add,UInt32.toNat_one,Nat.mod_eq_of_lt hlt]
    unfold u32Max
    omega

theorem le_satSucc : v ≤ satSucc v := by
  have hv : v.toNat < 2 ^ 32 := v.toNat_lt
  rw [UInt32.le_iff_toNat_le,satSucc_toNat]
  unfold u32Max
  omega

theorem lt_satSucc {v : UInt32} (h : v.toNat ≠ u32Max) : v < satSucc v := by
  have hv : v.toNat < 2 ^ 32 := v.toNat_lt
  rw [UInt32.lt_iff_toNat_lt,satSucc_toNat]
  unfold u32Max at h ⊢
  omega

theorem wrapSub32_le (h : b ≤ a) : wrapSub32 a b ≤ a - b := by
  unfold wrapSub32
  omega

theorem wrapSub32_eq (h : b ≤ a) (ha : a ≤ u32Max) : wrapSub32 a b = a - b := by
  unfold wrapSub32
  unfold u32Max at ha
  omega

theorem wrapSub64_eq (h : b ≤ a) (ha : a ≤ u64Max) : wrapSub64 a b = a - b := by
  unfold wrapSub64
  unfold u64Max at ha
  omega

theorem wrap32_succ (h : n < u32Max) : wrap32 (n+1) = n+1 := by
  unfold wrap32
  unfold u32Max at h
  omega

theorem wrap32_succ_ne (n : Nat) : wrap32 (n+1) ≠ n := by
  unfold wrap32
  omega

theorem leBytes_length (n x : Nat) : (leBytes n x).length = n := by
  induction n generalizing x with
  | zero => rfl
  | succ n ih => rw [leBytes,List.length_cons,ih]

/-- Little-endian bytes determine a natural that fits them. -/
theorem leBytes_inj {n x y : Nat} (hx : x < 256 ^ n) (hy : y < 256 ^ n)
    (h : leBytes n x = leBytes n y) : x = y := by
  induction n generalizing x y with
  | zero => omega
  | succ n ih =>
    rw [leBytes,leBytes,List.cons.injEq] at h
    obtain ⟨hbyte,hrest⟩ := h
    have hdiv : x / 256 = y / 256 := ih (by omega) (by omega) hrest
    have hmod : x % 256 = y % 256 := by
      have hnat := congrArg UInt8.toNat hbyte
      rw [UInt8.toNat_ofNat',UInt8.toNat_ofNat'] at hnat
      omega
    omega

theorem ofLeBytes_lt : ofLeBytes l < 256 ^ l.length := by
  induction l with
  | nil => simp [ofLeBytes]
  | cons b bs ih =>
    have hb : b.toNat < 256 := b.toNat_lt
    rw [ofLeBytes,List.length_cons,Nat.pow_succ]
    omega

theorem leBytes_ofLeBytes : leBytes l.length (ofLeBytes l) = l := by
  induction l with
  | nil => rfl
  | cons b bs ih =>
    have hb : b.toNat < 256 := b.toNat_lt
    have hmod : (b.toNat + 256 * ofLeBytes bs) % 256 = b.toNat := by omega
    have hdiv : (b.toNat + 256 * ofLeBytes bs) / 256 = ofLeBytes bs := by omega
    rw [List.length_cons,leBytes,ofLeBytes,hmod,hdiv,ih,UInt8.ofNat_toNat]

theorem satMul_of_nonneg {a b : Int} (ha : 0 ≤ a) (hb : 0 ≤ b) :
    satMul a b = min i128Max (a * b) := by
  have hab := mul_nonneg ha hb
  unfold satMul saturate i128Max i128Min
  omega

theorem wrap_of_isI128 (h : IsI128 x) : wrap x = x := by
  unfold IsI128 i128Min i128Max at h
  unfold wrap
  omega

theorem isI128_wrap (x : Int) : IsI128 (wrap x) := by
  unfold IsI128 i128Min i128Max wrap
  omega

theorem wrap_toU128 {a : Int} (ha : IsI128 a) : wrap (toU128 a) = a := by
  unfold IsI128 i128Min i128Max at ha
  unfold wrap toU128
  omega

theorem toU128_wrap (hn : n < 2 ^ 128) : toU128 (wrap n) = n := by
  unfold wrap toU128
  omega

theorem toU128_inj {a b : Int} (ha : IsI128 a) (hb : IsI128 b) (h : toU128 a = toU128 b) :
    a = b := by
  unfold IsI128 i128Min i128Max at ha hb
  unfold toU128 at h
  omega

theorem toU128_lt (a : Int) : toU128 a < 256 ^ 16 := by
  unfold toU128
  omega

end PriceOracle.Lib.MachineInt
