import RequireInjection.Json.Reader

/-!
The grammar of JSON texts. It says nothing of limits: how deep a text nests its arrays and objects,
and which strings and numbers stand in it, comes with the derivation, and so does what of them can
be read.
-/
namespace RequireInjection
namespace Json

section Strings

def IsHexDigit (c : Char) : Prop :=
  ('0' ≤ c ∧ c ≤ '9') ∨ ('a' ≤ c ∧ c ≤ 'f') ∨ ('A' ≤ c ∧ c ≤ 'F')

def hexDigitValue (c : Char) : Nat :=
  if c ≤ '9' then c.toNat - '0'.toNat
  else if c ≤ 'F' then c.toNat - 'A'.toNat + 10
  else c.toNat - 'a'.toNat + 10

def unitOf (digits : Text) : Nat := digits.foldl (fun n c => n * 16 + hexDigitValue c) 0

/-- What a string is made of: characters that stand for themselves, and escapes by a letter or sign
or by the digits of a UTF-16 code unit. -/
inductive StringItem where
  | plain (c : Char) (printed : 32 ≤ c.toNat) (no_quote : c ≠ '"') (no_backslash : c ≠ '\\')
  | mark (c : Char) (named : c ∈ ['"', '\\', '/', 'b', 'f', 'n', 'r', 't'])
  | unit (digits : Text) (four : digits.length = 4) (hex : ∀ c ∈ digits, IsHexDigit c)

namespace StringItem

def text : StringItem → Text
  | plain c _ _ _ => [c]
  | mark c _ => ['\\', c]
  | unit digits _ _ => '\\' :: 'u' :: digits

def unit? : StringItem → Option Nat
  | unit digits _ _ => some (unitOf digits)
  | _ => none

def IsHigh (item : StringItem) : Prop := ∃ n, item.unit? = some n ∧ 0xD800 ≤ n ∧ n ≤ 0xDBFF

def IsLow (item : StringItem) : Prop := ∃ n, item.unit? = some n ∧ 0xDC00 ≤ n ∧ n ≤ 0xDFFF

end StringItem

/-- Items that stand for one character: one that is no half of a surrogate pair, or both halves, the
high one first. -/
inductive Block : List StringItem → Prop where
  | single {item : StringItem} (no_high : ¬ item.IsHigh) (no_low : ¬ item.IsLow) : Block [item]
  | pair {high low : StringItem} (first : high.IsHigh) (second : low.IsLow) : Block [high, low]

/-- Every half of a surrogate pair stands next to the other one. -/
inductive Paired : List StringItem → Prop where
  | nil : Paired []
  | cons {block items : List StringItem} (first : Block block) (rest : Paired items) :
      Paired (block ++ items)

def LoneSurrogate (items : List StringItem) : Prop := ¬ Paired items

def stringText (items : List StringItem) : Text := '"' :: (items.flatMap StringItem.text ++ ['"'])

end Strings

section Numbers

structure Exponent where
  mark : Char
  sign : Text
  digits : Text
  marked : mark = 'e' ∨ mark = 'E'
  signed : sign = [] ∨ sign = ['+'] ∨ sign = ['-']
  nonempty : digits ≠ []
  decimal : ∀ c ∈ digits, isDigit c

namespace Exponent

variable (x : Exponent)

def text : Text := x.mark :: (x.sign ++ x.digits)

def magnitude : Nat := Nat.ofDigitChars 10 x.digits 0

def IsNegative : Prop := x.sign = ['-']

instance : Decidable x.IsNegative := inferInstanceAs (Decidable (_ = _))

def raise (e : Int) : Int := if x.IsNegative then e - x.magnitude else e + x.magnitude

end Exponent

def fractionText (digits : Text) : Text := if digits = [] then [] else '.' :: digits

def exponentText : Option Exponent → Text
  | none => []
  | some x => x.text

/-- A number as it is written. No digits behind a point means that there is no point. -/
structure Numeral where
  negative : Bool
  whole : Text
  fraction : Text
  exponent : Option Exponent
  nonempty : whole ≠ []
  no_leading_zero : whole.head? = some '0' → whole = ['0']
  whole_decimal : ∀ c ∈ whole, isDigit c
  fraction_decimal : ∀ c ∈ fraction, isDigit c

/-- Digits are taken behind a number as long as the result fits a word. The result, and the digits
that are left. -/
def fit (n : Nat) : Text → Nat × Text
  | [] => (n, [])
  | c :: rest =>
    if n * 10 + (c.toNat - 48) ≤ maxWord then fit (n * 10 + (c.toNat - 48)) rest else (n, c :: rest)

def Overflows (significand : Nat) (exponent : Int) : Prop :=
  significand ≠ 0 ∧ (308 < exponent ∨ (0 ≤ exponent ∧
    ((UInt64.ofNat significand).toFloat * Float.ofScientific 1 false exponent.toNat).isInf))

/-- A written exponent raises the power too far. Of more than 31 bits it does so whatever the
significand is, unless that is zero. -/
def Exceeds (significand : Nat) (e : Int) : Option Exponent → Prop
  | none => Overflows significand e
  | some x =>
    if x.magnitude < Nat.pow 2 31 then Overflows significand (x.raise e)
    else significand ≠ 0 ∧ ¬ x.IsNegative

namespace Numeral

variable (n : Numeral)

def sign : Text := if n.negative then ['-'] else []

def digitsText : Text := n.whole ++ (fractionText n.fraction ++ exponentText n.exponent)

def text : Text := n.sign ++ n.digitsText

def significand : Nat := (fit (fit 0 n.whole).1 n.fraction).1

/-- The power of ten that makes up for the place of the point: digits left out in front of it count
upwards, digits taken behind it downwards. -/
def power : Int :=
  (fit 0 n.whole).2.length -
    (n.fraction.length - (fit (fit 0 n.whole).1 n.fraction).2.length : Nat)

def IsWord : Prop := n.fraction = [] ∧ n.exponent = none ∧ (fit 0 n.whole).2 = []

def OutOfRange : Prop := ¬ n.IsWord ∧ Exceeds n.significand n.power n.exponent

end Numeral

end Numbers

section Texts

inductive Leaf where
  | string (items : List StringItem)
  | number (n : Numeral)

def Leaf.Refused : Leaf → Prop
  | .string items => LoneSurrogate items
  | .number n => n.OutOfRange

def Blank (gap : Text) : Prop := ∀ c ∈ gap, isSpace c

inductive Phrase where
  | value | object | element | elements | member | members

/-- The texts of each phrase, with the number of arrays and objects around their innermost value and
the strings and numbers in them, keys included. -/
inductive Derives : Phrase → Nat → List Leaf → Text → Prop where
  | word {w : Text} (named : w = "null".toList ∨ w = "true".toList ∨ w = "false".toList) :
      Derives .value 0 [] w
  | number (n : Numeral) : Derives .value 0 [.number n] n.text
  | string (items : List StringItem) : Derives .value 0 [.string items] (stringText items)
  | emptyArray {gap : Text} (blank : Blank gap) : Derives .value 1 [] ('[' :: (gap ++ [']']))
  | array {depth : Nat} {leaves : List Leaf} {t : Text} (inner : Derives .elements depth leaves t) :
      Derives .value (depth + 1) leaves ('[' :: (t ++ [']']))
  | emptyObject {gap : Text} (blank : Blank gap) : Derives .object 1 [] ('{' :: (gap ++ ['}']))
  | object {depth : Nat} {leaves : List Leaf} {t : Text} (inner : Derives .members depth leaves t) :
      Derives .object (depth + 1) leaves ('{' :: (t ++ ['}']))
  | nested {depth : Nat} {leaves : List Leaf} {t : Text} (inner : Derives .object depth leaves t) :
      Derives .value depth leaves t
  | element {depth : Nat} {leaves : List Leaf} {before t after : Text} (front : Blank before)
      (inner : Derives .value depth leaves t) (back : Blank after) :
      Derives .element depth leaves (before ++ (t ++ after))
  | lastElement {depth : Nat} {leaves : List Leaf} {t : Text}
      (last : Derives .element depth leaves t) : Derives .elements depth leaves t
  | elements {depth depth' : Nat} {leaves leaves' : List Leaf} {t t' : Text}
      (first : Derives .element depth leaves t) (rest : Derives .elements depth' leaves' t') :
      Derives .elements (max depth depth') (leaves ++ leaves') (t ++ ',' :: t')
  | member {depth : Nat} {leaves : List Leaf} {before after t : Text} (front : Blank before)
      (key : List StringItem) (back : Blank after) (inner : Derives .element depth leaves t) :
      Derives .member depth (.string key :: leaves)
        (before ++ (stringText key ++ (after ++ ':' :: t)))
  | lastMember {depth : Nat} {leaves : List Leaf} {t : Text}
      (last : Derives .member depth leaves t) : Derives .members depth leaves t
  | members {depth depth' : Nat} {leaves leaves' : List Leaf} {t t' : Text}
      (first : Derives .member depth leaves t) (rest : Derives .members depth' leaves' t') :
      Derives .members (max depth depth') (leaves ++ leaves') (t ++ ',' :: t')

end Texts

end Json
end RequireInjection
