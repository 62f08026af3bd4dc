import RequireInjection.Text

/-!
Edits of a text in ascending order, each given by offsets of the text before all edits. A cursor
keeps the edited text together with the difference in length so far, so that the place of the next
edit in the edited text is known. An edit that is refused changes nothing.
-/
namespace RequireInjection

structure Edit where
  start : Nat
  stop : Nat
  text : Text
  deriving DecidableEq, Repr

inductive EditFault where
  | inverted (start stop : Nat)
  | outOfOrder (start previousStop : Nat)
  | outOfBounds (stop size : Nat)
  | notBoundary (offset : Nat)
  deriving DecidableEq, Repr

def EditFault.message : EditFault → Text
  | .inverted start stop =>
    ("Replacement range " : Text) ++ Text.ofNat start ++ (".." : Text) ++ Text.ofNat stop ++
      (" is inverted" : Text)
  | .outOfOrder start previous =>
    ("Replacement at " : Text) ++ Text.ofNat start ++
      (" starts before the previous replacement ended at " : Text) ++ Text.ofNat previous
  | .outOfBounds stop size =>
    ("Replacement range ends at " : Text) ++ Text.ofNat stop ++
      (", past the end of the source (" : Text) ++ Text.ofNat size ++ [')']
  | .notBoundary offset =>
    ("Replacement offset " : Text) ++ Text.ofNat offset ++
      (" is not on a character boundary" : Text)

structure EditCursor where
  text : Text
  sourceSize : Nat
  /-- How much longer the edited text is than the text before all edits. -/
  shift : Int
  /-- Where the last edit ended in the text before all edits. -/
  previousStop : Nat
  deriving DecidableEq, Repr

namespace EditCursor

def start (source : Text) : EditCursor := ⟨source, source.size, 0, 0⟩

def shifted (c : EditCursor) (offset : Nat) : Nat := ((offset : Int) + c.shift).toNat

def replace (c : EditCursor) (e : Edit) : Except EditFault EditCursor :=
  if e.stop < e.start then .error (.inverted e.start e.stop)
  else if e.start < c.previousStop then .error (.outOfOrder e.start c.previousStop)
  else if c.sourceSize < e.stop then .error (.outOfBounds e.stop c.sourceSize)
  else
    let first := c.shifted e.start
    let last := c.shifted e.stop
    match c.text.splitAt? first with
    | none => .error (.notBoundary first)
    | some (before, rest) =>
      match Text.splitAt? rest (last - first) with
      | none => .error (.notBoundary last)
      | some (_, after) => .ok {
          text := before ++ (e.text ++ after)
          sourceSize := c.sourceSize
          shift := c.shift + e.text.size - ((e.stop : Int) - e.start)
          previousStop := e.stop }

/-- Edits one after another; the first that is refused ends the run. -/
def replaceAll (c : EditCursor) : List Edit → Except EditFault EditCursor
  | [] => .ok c
  | e :: es => do replaceAll (← c.replace e) es

end EditCursor
end RequireInjection
