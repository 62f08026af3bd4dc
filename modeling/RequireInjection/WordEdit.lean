import RequireInjection.Edit

/-!
The edit cursor on 64-bit words. Offsets and lengths are unsigned words and the shift is a signed
one. Every cast, sum and difference is made on words and traps where the word is not the exact
number, and taking out a range traps unless it lies in the text between characters.
-/
namespace RequireInjection

inductive Trap where
  | cast
  | overflow
  | range
  deriving DecidableEq, Repr

namespace Word

def limit : Nat := 9223372036854775807

def toSigned (w : UInt64) : Except Trap Int64 :=
  if w.toInt64.toInt = w.toNat then .ok w.toInt64 else .error .cast

def toUnsigned (s : Int64) : Except Trap UInt64 :=
  if s.toInt = s.toUInt64.toNat then .ok s.toUInt64 else .error .cast

def minus (a b : UInt64) : Except Trap UInt64 :=
  if (a - b).toNat = (a.toNat : Int) - b.toNat then .ok (a - b) else .error .overflow

def add (a b : Int64) : Except Trap Int64 :=
  if (a + b).toInt = a.toInt + b.toInt then .ok (a + b) else .error .overflow

def sub (a b : Int64) : Except Trap Int64 :=
  if (a - b).toInt = a.toInt - b.toInt then .ok (a - b) else .error .overflow

end Word

structure WordEdit where
  start : UInt64
  stop : UInt64
  text : Text
  deriving DecidableEq, Repr

def WordEdit.edit (e : WordEdit) : Edit := ⟨e.start.toNat, e.stop.toNat, e.text⟩

structure WordCursor where
  text : Text
  sourceSize : UInt64
  shift : Int64
  previousStop : UInt64
  deriving DecidableEq, Repr

namespace WordCursor

def start (source : Text) : WordCursor := ⟨source, UInt64.ofNat source.size, 0, 0⟩

def shifted (w : WordCursor) (offset : UInt64) : Except Trap UInt64 := do
  let signed ← Word.toSigned offset
  let moved ← Word.add signed w.shift
  Word.toUnsigned moved

def exchange (t : Text) (first last : UInt64) (new : Text) : Except Trap Text :=
  if last < first then .error .range
  else
    match t.splitAt? first.toNat with
    | none => .error .range
    | some (before, rest) =>
      match Text.splitAt? rest (last.toNat - first.toNat) with
      | none => .error .range
      | some (_, after) => .ok (before ++ (new ++ after))

def make (w : WordCursor) (e : WordEdit) (first last : UInt64) : Except Trap WordCursor := do
  let text ← exchange w.text first last e.text
  let longer ← Word.toSigned (UInt64.ofNat e.text.size)
  let width ← Word.minus e.stop e.start
  let shorter ← Word.toSigned width
  let growth ← Word.sub longer shorter
  let shift ← Word.add w.shift growth
  return ⟨text, w.sourceSize, shift, e.stop⟩

def replace (w : WordCursor) (e : WordEdit) : Except Trap (Except EditFault WordCursor) :=
  if e.stop < e.start then return .error (.inverted e.start.toNat e.stop.toNat)
  else if e.start < w.previousStop then
    return .error (.outOfOrder e.start.toNat w.previousStop.toNat)
  else if w.sourceSize < e.stop then
    return .error (.outOfBounds e.stop.toNat w.sourceSize.toNat)
  else do
    let first ← w.shifted e.start
    let last ← w.shifted e.stop
    if ¬ w.text.IsBoundary first.toNat then return .error (.notBoundary first.toNat)
    else if ¬ w.text.IsBoundary last.toNat then return .error (.notBoundary last.toNat)
    else return .ok (← w.make e first last)

def attempt (w : WordCursor) (e : WordEdit) : Except Trap WordCursor :=
  (w.replace e).map fun
    | .ok next => next
    | .error _ => w

def run (w : WordCursor) (edits : List WordEdit) : Except Trap WordCursor :=
  edits.foldlM attempt w

def cursor (w : WordCursor) : EditCursor :=
  ⟨w.text, w.sourceSize.toNat, w.shift.toInt, w.previousStop.toNat⟩

end WordCursor
end RequireInjection
