import RequireInjection.Entries

namespace RequireInjection

inductive Json where
  | null
  | bool (b : Bool)
  | int (n : Int)
  | double (x : Float)
  | string (s : Text)
  | array (items : List Json)
  | object (members : List (Text × Json))

namespace Json

def isTrue : Json → Bool
  | bool true => true
  | _ => false

end Json
end RequireInjection
