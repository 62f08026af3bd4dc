import RequireInjection.Text.Glyph

namespace RequireInjection.Text

def hexDigits (n : Nat) : Text := Nat.toDigits 16 n

def shown (c : Char) : Text :=
  if c = '"' || c = '\\' then ['\\', c]
  else if c = '\n' then ['\\', 'n']
  else if c = '\r' then ['\\', 'r']
  else if c = '\t' then ['\\', 't']
  else if c.toNat = 0 then ['\\', '0']
  else if hasGlyph c then [c]
  else ['\\', 'u', '{'] ++ hexDigits c.toNat ++ ['}']

def quotation (t : Text) : Text := '"' :: (t.flatMap shown ++ ['"'])

end RequireInjection.Text
