import RequireInjection.Text

namespace RequireInjection.Decimal

def roundedQuotient (num den : Nat) : Nat :=
  let q := num / den
  let r := num % den
  if 2 * r < den || (2 * r = den && q % 2 = 0) then q else q + 1

/-- Bits of the double nearest to a positive fraction, or of infinity. Significands have 53 bits
unless the exponent would fall below that of the least double. -/
def nearestBits (num den : Nat) : Nat :=
  let scaled (q : Int) : Nat :=
    roundedQuotient (num * Nat.pow 2 (-q).toNat) (den * Nat.pow 2 q.toNat)
  let guess : Int := (num.log2 : Int) - den.log2 - 53
  let q : Int := max (-1074) (if scaled guess < Nat.pow 2 53 then guess else guess + 1)
  let m := scaled q
  let (m, q) := if m = Nat.pow 2 53 then (Nat.pow 2 52, q + 1) else (m, q)
  if m < Nat.pow 2 52 then m
  else if 971 < q then 2047 * Nat.pow 2 52
  else (q + 1075).toNat * Nat.pow 2 52 + (m - Nat.pow 2 52)

/-- The double nearest to `digits · 10^exponent`. Exponents that lie beyond all doubles for the
given number of digits are not multiplied out. -/
def nearest (digits : Nat) (exponent : Int) : Float :=
  let magnitude : Int := (Text.ofNat digits).length + exponent
  let bits : Nat :=
    if digits = 0 || magnitude < -400 then 0
    else if 400 < magnitude then 2047 * Nat.pow 2 52
    else nearestBits (digits * Nat.pow 10 exponent.toNat) (Nat.pow 10 (-exponent).toNat)
  Float.ofBits (UInt64.ofNat bits)

end RequireInjection.Decimal
