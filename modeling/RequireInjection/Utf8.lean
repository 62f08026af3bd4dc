import RequireInjection.Text

namespace RequireInjection.Utf8

def encode (t : Text) : List UInt8 := t.flatMap String.utf8EncodeChar

inductive Fault where
  /-- The bytes from the index on, so many of them, begin a sequence that the next one breaks. -/
  | invalid (index count : Nat)
  /-- The bytes from the index on begin a sequence that the end cuts short. -/
  | incomplete (index : Nat)
  deriving DecidableEq, Repr

def Fault.message : Fault → Text
  | .invalid i n =>
    ("invalid utf-8 sequence of ":Text) ++ Text.ofNat n ++ (" bytes from index ":Text) ++
      Text.ofNat i
  | .incomplete i => ("incomplete utf-8 byte sequence from index ":Text) ++ Text.ofNat i

def isContinuation (b : UInt8) : Bool := 0x80 ≤ b && b ≤ 0xBF

def begins3 (a b : UInt8) : Bool :=
  if a == 0xE0 then 0xA0 ≤ b && b ≤ 0xBF
  else if a == 0xED then 0x80 ≤ b && b ≤ 0x9F
  else isContinuation b

def begins4 (a b : UInt8) : Bool :=
  if a == 0xF0 then 0x90 ≤ b && b ≤ 0xBF
  else if a == 0xF4 then 0x80 ≤ b && b ≤ 0x8F
  else isContinuation b

def low (b : UInt8) (count : Nat) : Nat := b.toNat % Nat.pow 2 count

def decodeFrom (index : Nat) : List UInt8 → Except Fault Text
  | [] => .ok []
  | a :: rest =>
    if a < 0x80 then
      (decodeFrom (index + 1) rest).map (Char.ofNat a.toNat :: ·)
    else if 0xC2 ≤ a && a ≤ 0xDF then
      match rest with
      | [] => .error (.incomplete index)
      | b :: rest =>
        if isContinuation b then
          (decodeFrom (index + 2) rest).map (Char.ofNat (low a 5 * 64 + low b 6) :: ·)
        else .error (.invalid index 1)
    else if 0xE0 ≤ a && a ≤ 0xEF then
      match rest with
      | [] => .error (.incomplete index)
      | b :: rest =>
        if begins3 a b then
          match rest with
          | [] => .error (.incomplete index)
          | c :: rest =>
            if isContinuation c then
              (decodeFrom (index + 3) rest).map
                (Char.ofNat (low a 4 * 4096 + low b 6 * 64 + low c 6) :: ·)
            else .error (.invalid index 2)
        else .error (.invalid index 1)
    else if 0xF0 ≤ a && a ≤ 0xF4 then
      match rest with
      | [] => .error (.incomplete index)
      | b :: rest =>
        if begins4 a b then
          match rest with
          | [] => .error (.incomplete index)
          | c :: rest =>
            if isContinuation c then
              match rest with
              | [] => .error (.incomplete index)
              | d :: rest =>
                if isContinuation d then
                  (decodeFrom (index + 4) rest).map
                    (Char.ofNat (low a 3 * 262144 + low b 6 * 4096 + low c 6 * 64 + low d 6) :: ·)
                else .error (.invalid index 3)
            else .error (.invalid index 2)
        else .error (.invalid index 1)
    else .error (.invalid index 1)

def decode (bytes : List UInt8) : Except Fault Text := decodeFrom 0 bytes

end RequireInjection.Utf8
