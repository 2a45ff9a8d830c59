import PriceOracle.Model.Types

/-! # Derived price feeds

`derived_feeds.rs` computes inverses, ratios and cross rates of base prices. Every product is formed
in an unsigned 128-bit integer and every quotient is truncated; a plain product of that type wraps in
an optimised build. -/

namespace PriceOracle.Model.DerivedFeeds

open Lib.MachineInt

def maxDerivationDecimals : Nat := 18

/-- `checked_mul`. -/
def checkedMul (a b : Int) : Option Int :=
  if i128Min ≤ a * b ∧ a * b ≤ i128Max then some (a * b) else none

/-- One iteration of the loop of `scale_for`. -/
def nextScale (scale : Int) : Except ErrorCode Int :=
  match checkedMul scale 10 with
  | some s => .ok s
  | none => .error .invalidConfiguration

def scaleFor (decimals : Nat) : Except ErrorCode Int :=
  if maxDerivationDecimals < decimals then .error .invalidConfiguration
  else (List.range decimals).foldlM (fun scale _ => nextScale scale) 1

def mulDiv (a b c : Int) : Except ErrorCode Int :=
  if c ≤ 0 then .error .derivedFeedZeroDenominator
  else
    let wide := wrap128 (toU128 a * toU128 b) / toU128 c
    if i128Max < wide then .error .invalidConfiguration else .ok wide

def invert (p scale : Int) : Except ErrorCode Int :=
  if p = 0 then .error .derivedFeedZeroDenominator else mulDiv scale scale p

def ratio (pBase pQuote scale : Int) : Except ErrorCode Int :=
  if pQuote = 0 then .error .derivedFeedZeroDenominator else mulDiv pBase scale pQuote

/-- The cross rate by way of the pivot, truncated at each of the two steps. -/
def triangulate (pBase pPivot pQuote scale : Int) : Except ErrorCode Int :=
  if pPivot = 0 then .error .derivedFeedZeroDenominator
  else if pQuote = 0 then .error .derivedFeedZeroDenominator
  else do
    let r1 ← mulDiv pBase scale pPivot
    mulDiv r1 pPivot pQuote

end PriceOracle.Model.DerivedFeeds
