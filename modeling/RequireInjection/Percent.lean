import RequireInjection.Utf8

namespace RequireInjection.Percent

def hexValue? (c : Char) : Option Nat :=
  if '0' ≤ c && c ≤ '9' then some (c.toNat - '0'.toNat)
  else if 'a' ≤ c && c ≤ 'f' then some (c.toNat - 'a'.toNat + 10)
  else if 'A' ≤ c && c ≤ 'F' then some (c.toNat - 'A'.toNat + 10)
  else none

def bytes : Text → List UInt8
  | [] => []
  | '%' :: x :: y :: rest =>
    match hexValue? x, hexValue? y with
    | some a, some b => UInt8.ofNat (16 * a + b) :: bytes rest
    | _, _ => String.utf8EncodeChar '%' ++ bytes (x :: y :: rest)
  | c :: rest => String.utf8EncodeChar c ++ bytes rest

def decode (t : Text) : Except Utf8.Fault Text := Utf8.decode (bytes t)

end RequireInjection.Percent
