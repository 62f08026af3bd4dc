import RequireInjection.Json.Value
import RequireInjection.Decimal.Shortest

namespace RequireInjection.Json

def hexDigit (n : Nat) : Char := (Nat.digitChar n)

def escaped (c : Char) : Text :=
  if c = '"' then ['\\', '"']
  else if c = '\\' then ['\\', '\\']
  else if c = '\n' then ['\\', 'n']
  else if c = '\r' then ['\\', 'r']
  else if c = '\t' then ['\\', 't']
  else if c.toNat = 8 then ['\\', 'b']
  else if c.toNat = 12 then ['\\', 'f']
  else if c.toNat < 32 then
    ['\\', 'u', '0', '0', hexDigit (c.toNat / 16), hexDigit (c.toNat % 16)]
  else [c]

def quoted (s : Text) : Text := '"' :: (s.flatMap escaped ++ ['"'])

/-- Doubles below 10^16 and from 10^-5 on are written with a point, others with an exponent. -/
def ofDouble (x : Float) : Text :=
  if x.isNaN || x.isInf then "null"
  else
    let negative := x.toBits.toNat ≥ Nat.pow 2 63
    let bits := UInt64.ofNat (x.toBits.toNat % Nat.pow 2 63)
    let body : Text :=
      if bits == 0 then "0.0"
      else
        let s := Decimal.shortest bits
        let digits := Text.ofNat s.digits
        let trimmed := (digits.reverse.dropWhile (· == '0')).reverse
        let exponent := s.exponent + (digits.length - 1 : Nat)
        if 0 ≤ exponent && exponent < 16 then
          let whole := exponent.toNat + 1
          if trimmed.length ≤ whole then
            trimmed ++ List.replicate (whole - trimmed.length) '0' ++ ['.', '0']
          else trimmed.take whole ++ ['.'] ++ trimmed.drop whole
        else if exponent < 0 && -5 ≤ exponent then
          ['0', '.'] ++ List.replicate ((-exponent).toNat - 1) '0' ++ trimmed
        else
          let point : Text := if trimmed.length ≤ 1 then [] else ['.']
          trimmed.take 1 ++ point ++ trimmed.drop 1 ++ ['e'] ++
            (if exponent < 0 then ['-'] else ['+']) ++ Text.ofNat exponent.natAbs
    if negative then '-' :: body else body

mutual
def compact : Json → Text
  | null => "null"
  | bool true => "true"
  | bool false => "false"
  | int n => Text.ofInt n
  | double x => ofDouble x
  | string s => quoted s
  | array items => '[' :: (compactItems items ++ [']'])
  | object members => '{' :: (compactMembers members ++ ['}'])
def compactItems : List Json → Text
  | [] => []
  | [v] => compact v
  | v :: vs => compact v ++ ',' :: compactItems vs
def compactMembers : List (Text × Json) → Text
  | [] => []
  | [(k, v)] => quoted k ++ ':' :: compact v
  | (k, v) :: ms => quoted k ++ ':' :: (compact v ++ ',' :: compactMembers ms)
end

end RequireInjection.Json
