import RequireInjection.Text
import RequireInjection.Decimal.Nearest

namespace RequireInjection.Yaml

inductive Scalar where
  | null
  | bool (b : Bool)
  | int (n : Int)
  | double (x : Float)
  | text (t : Text)

namespace Scalar

def isNullWord (t : Text) : Bool := ["null", "Null", "NULL", "~"].contains (String.ofList t)

def truthValue? (t : Text) : Option Bool :=
  if ["true", "True", "TRUE"].contains (String.ofList t) then some true
  else if ["false", "False", "FALSE"].contains (String.ofList t) then some false
  else none

def digitValue? (c : Char) : Option Nat :=
  if '0' ≤ c && c ≤ '9' then some (c.toNat - 48)
  else if 'a' ≤ c && c ≤ 'z' then some (c.toNat - 87)
  else if 'A' ≤ c && c ≤ 'Z' then some (c.toNat - 55)
  else none

def natural? (base : Nat) (t : Text) : Option Nat :=
  if t.isEmpty then none
  else t.foldlM (fun n c => (digitValue? c).bind fun d =>
    if d < base then some (base * n + d) else none) 0

def hasLeadingZero (t : Text) : Bool :=
  let digits := match t with
    | '-' :: cs | '+' :: cs => cs
    | cs => cs
  match digits with
  | '0' :: c :: cs => (c :: cs).all fun d => '0' ≤ d && d ≤ '9'
  | _ => false

def magnitude? (t : Text) : Option Nat :=
  match t with
  | '0' :: 'x' :: digits => natural? 16 digits
  | '0' :: 'o' :: digits => natural? 8 digits
  | '0' :: 'b' :: digits => natural? 2 digits
  | _ => if hasLeadingZero t then none else natural? 10 t

/-- Integers of 128 bits, signed or not; larger ones are no integers. -/
def integer? (t : Text) : Option Int :=
  match t with
  | '-' :: rest =>
    (magnitude? rest).bind fun n => if n ≤ Nat.pow 2 127 then some (-(n : Int)) else none
  | '+' :: rest =>
    (magnitude? rest).bind fun n => if n < Nat.pow 2 128 then some (n : Int) else none
  | _ => (magnitude? t).bind fun n => if n < Nat.pow 2 128 then some (n : Int) else none

def isDigit (c : Char) : Bool := '0' ≤ c && c ≤ '9'

def exponent? (t : Text) : Option Int :=
  match t with
  | [] => some 0
  | e :: rest =>
    if e != 'e' && e != 'E' then none
    else
      match rest with
      | '-' :: digits => (natural? 10 digits).map fun n => -(n : Int)
      | '+' :: digits => (natural? 10 digits).map Int.ofNat
      | digits => (natural? 10 digits).map Int.ofNat

def decimal? (t : Text) : Option Float := do
  let whole := t.takeWhile isDigit
  let rest := t.dropWhile isDigit
  let (fraction, rest) := match rest with
    | '.' :: more => (more.takeWhile isDigit, more.dropWhile isDigit)
    | _ => ([], rest)
  let digits ← natural? 10 (whole ++ fraction)
  let exponent ← exponent? rest
  return Decimal.nearest digits (exponent - fraction.length)

def infinity : Float := 1.0 / 0.0

/-- A double; decimals beyond all finite doubles are none. -/
def double? (t : Text) : Option Float :=
  let (negative, unsigned) : Bool × Text := match t with
    | '-' :: cs => (true, cs)
    | '+' :: cs => (false, cs)
    | cs => (false, cs)
  if [".inf", ".Inf", ".INF"].contains (String.ofList unsigned) then
    some (if negative then -infinity else infinity)
  else if [".nan", ".NaN", ".NAN"].contains (String.ofList t) then some (0.0 / 0.0)
  else
    match decimal? unsigned with
    | some x => if x.isInf then none else some (if negative then -x else x)
    | none => none

def ofPlain (t : Text) : Scalar :=
  if t.isEmpty || isNullWord t then null
  else
    match truthValue? t with
    | some b => bool b
    | none =>
      match integer? t with
      | some n => int n
      | none =>
        match if hasLeadingZero t then none else double? t with
        | some x => double x
        | none => text t

structure Mismatch where
  value : Text
  kind : String
  deriving DecidableEq, Repr

def nullTag : Text := "tag:yaml.org,2002:null"

def ofTagged (tag value : Text) (plain : Bool) : Except Mismatch Scalar :=
  let check (kind : String) (s : Option Scalar) : Except Mismatch Scalar :=
    match s with
    | some s => .ok s
    | none => .error ⟨value, kind⟩
  if tag = "tag:yaml.org,2002:bool".toList then check "a boolean" ((truthValue? value).map bool)
  else if tag = "tag:yaml.org,2002:int".toList then check "an integer" ((integer? value).map int)
  else if tag = "tag:yaml.org,2002:float".toList then check "a float" ((double? value).map double)
  else if tag = nullTag then check "null" (if isNullWord value then some null else none)
  else if tag.head? = some '!' && plain then .ok (ofPlain value)
  else .ok (text value)

def resolve (tag : Option Text) (value : Text) (plain : Bool) : Except Mismatch Scalar :=
  match tag with
  | some tag => ofTagged tag value plain
  | none => .ok (if plain then ofPlain value else text value)

end Scalar
end RequireInjection.Yaml
