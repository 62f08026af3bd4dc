import RequireInjection.FilterSet
import RequireInjection.Json.Reader
import RequireInjection.Percent

/-!
Filter sets written as queries. After its question mark a query is an object in braces or a list of
segments between `,` and `&`: `name` and `+name` set a flag to `true`, `-name` to `false`,
`name=value` to a text or literal, and `name[]=value` appends to an array.
-/
namespace RequireInjection.FilterSet

inductive QueryFault where
  | noQuestionMark (query : Text)
  | json (fault : Json.Fault)
  | percent (raw : Text) (fault : Utf8.Fault)
  deriving DecidableEq, Repr

def QueryFault.message : QueryFault → Text
  | .noQuestionMark q =>
    ("a loader query must begin with '?', got '" : Text) ++ q ++ ("'" : Text)
  | .json f => ("invalid JSON query: " : Text) ++ f.message
  | .percent raw f =>
    ("invalid percent-encoding in '" : Text) ++ raw ++ ("': " : Text) ++ f.message

inductive Setter where
  | assign (value : Json)
  | append (value : Json)

def decodeName (raw : Text) : Except QueryFault Text :=
  (Percent.decode raw).mapError (QueryFault.percent raw)

/-- A decoded value: three words are literals and all else is text. -/
def literal (t : Text) : Json :=
  if t = "true".toList then .bool true
  else if t = "false".toList then .bool false
  else if t = "null".toList then .null
  else .string t

def arrayName? (t : Text) : Option Text :=
  match t.reverse with
  | ']' :: '[' :: rest => some rest.reverse
  | _ => none

/-- Key and setter of a segment that is not empty. A value is decoded before its name. -/
def readSegment (segment : Text) : Except QueryFault (Text × Setter) :=
  match Text.splitOnce '=' segment with
  | some (name, rawValue) => do
    let value := literal (← decodeName rawValue)
    match arrayName? name with
    | some name => return (← decodeName name, .append value)
    | none => return (← decodeName name, .assign value)
  | none =>
    match segment with
    | '-' :: name => return (← decodeName name, .assign (.bool false))
    | '+' :: name => return (← decodeName name, .assign (.bool true))
    | _ => return (← decodeName segment, .assign (.bool true))

/-- Appending to a flag that is no array starts a new one. -/
def apply (s : FilterSet) (key : Text) : Setter → FilterSet
  | .assign v => s.insert key v
  | .append v =>
    match s.get? key with
    | some (.array vs) => s.insert key (.array (vs ++ [v]))
    | _ => s.insert key (.array [v])

def segments (body : Text) : List Text :=
  (Text.splitBy (fun c => c = ',' || c = '&') body).filter fun s => !s.isEmpty

def readSegments (s : FilterSet) : List Text → Except QueryFault FilterSet
  | [] => .ok s
  | segment :: rest => do
    let (key, setter) ← readSegment segment
    readSegments (s.apply key setter) rest

def isBraced (body : Text) : Bool := body.head? = some '{' && body.getLast? = some '}'

def ofQuery (query : Text) : Except QueryFault FilterSet :=
  match query with
  | [] => .ok empty
  | '?' :: body =>
    if isBraced body then
      match Json.read body with
      | .ok (.object members) => .ok (ofList members)
      | .ok _ => .ok empty
      | .error f => .error (.json f)
    else readSegments empty (segments body)
  | _ => .error (.noQuestionMark query)

end RequireInjection.FilterSet
