import RequireInjection.Text

/-!
The fewest decimal digits that read back as a given double. A double m · 2^q stands for all numbers
nearer to it than to its neighbours; on the grid of multiples of a power of ten the two points
beside the double are tried, coarse grids first, and the nearer one in that interval is taken.
-/
namespace RequireInjection.Decimal

structure Scaled where
  digits : Nat
  exponent : Int
  deriving DecidableEq, Repr

/-- Significand, exponent and whether the gap below is half the gap above. -/
structure Binary where
  significand : Nat
  exponent : Int
  narrowBelow : Bool
  deriving DecidableEq, Repr

def Binary.ofBits (bits : UInt64) : Binary :=
  let fraction : Nat := bits.toNat % Nat.pow 2 52
  let biased : Nat := bits.toNat / Nat.pow 2 52 % Nat.pow 2 11
  if biased = 0 then ⟨fraction, -1074, false⟩
  else ⟨fraction + Nat.pow 2 52, (biased : Int) - 1075, fraction = 0 && biased != 1⟩

structure Ratio where
  num : Nat
  den : Nat

def Ratio.of (n : Nat) (two ten : Int) : Ratio where
  num := n * Nat.pow 2 two.toNat * Nat.pow 10 ten.toNat
  den := Nat.pow 2 (-two).toNat * Nat.pow 10 (-ten).toNat

def Ratio.lt (a b : Ratio) : Bool := a.num * b.den < b.num * a.den

def Ratio.le (a b : Ratio) : Bool := a.num * b.den ≤ b.num * a.den

/-- The point of the grid of step `10^k` that lies in the double's interval and nearest to it. -/
def onGrid? (x : Binary) (k : Int) : Option Nat :=
  let value := Ratio.of (4 * x.significand) (x.exponent - 2) (-k)
  let low := Ratio.of (4 * x.significand - (if x.narrowBelow then 1 else 2)) (x.exponent - 2) (-k)
  let high := Ratio.of (4 * x.significand + 2) (x.exponent - 2) (-k)
  let ends := x.significand % 2 = 0
  let inside (n : Nat) : Bool :=
    let p : Ratio := ⟨n, 1⟩
    if ends then low.le p && p.le high else low.lt p && p.lt high
  let below := value.num / value.den
  let above := below + 1
  let belowNearer := 2 * value.num ≤ (2 * below + 1) * value.den
  if inside below && below != 0 && (belowNearer || !inside above) then some below
  else if inside above then some above
  else none

def search (x : Binary) : Nat → Int → Scaled
  | 0, k => ⟨x.significand, k⟩
  | n + 1, k =>
    match onGrid? x k with
    | some d => ⟨d, k⟩
    | none => search x n (k - 1)

def magnitude (x : Binary) : Int :=
  let r := Ratio.of x.significand x.exponent 0
  let n := r.num / r.den
  if n != 0 then (Nat.toDigits 10 n).length - 1
  else -((Nat.toDigits 10 (r.den / r.num)).length : Int)

def shortest (bits : UInt64) : Scaled :=
  let x := Binary.ofBits bits
  search x 20 (magnitude x + 1)

end RequireInjection.Decimal
