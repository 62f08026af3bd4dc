import RequireInjection.Decimal.Shortest

namespace RequireInjection.Decimal

def Scaled.positional (s : Scaled) : Text :=
  let digits := Text.ofNat s.digits
  if 0 ≤ s.exponent then digits ++ List.replicate s.exponent.toNat '0' ++ ['.', '0']
  else
    let places := (-s.exponent).toNat
    let padded := List.replicate (places + 1 - digits.length) '0' ++ digits
    padded.take (padded.length - places) ++ '.' :: padded.drop (padded.length - places)

def positional (x : Float) : Text :=
  if x.isNaN then "NaN"
  else
    let bits := UInt64.ofNat (x.toBits.toNat % Nat.pow 2 63)
    let body : Text :=
      if x.isInf then "inf" else if bits == 0 then "0.0" else (shortest bits).positional
    if x.toBits.toNat ≥ Nat.pow 2 63 then '-' :: body else body

end RequireInjection.Decimal
