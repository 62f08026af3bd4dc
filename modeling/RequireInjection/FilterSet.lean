import RequireInjection.Json.Value

namespace RequireInjection

structure FilterSet where
  entries : Entries Text Json
  distinct : entries.keys.Nodup

inductive FilterMode where
  | all
  | allExcept
  | only
  deriving DecidableEq, Repr

namespace FilterSet

def empty : FilterSet := ⟨[], by simp [Entries.keys]⟩

def insert (s : FilterSet) (path : Text) (flag : Json) : FilterSet :=
  ⟨s.entries.put path flag, Entries.nodup_keys_put s.distinct path flag⟩

def get? (s : FilterSet) (path : Text) : Option Json := s.entries.get? path

def paths (s : FilterSet) : List Text := s.entries.keys

def ofList (es : List (Text × Json)) : FilterSet :=
  es.foldl (fun s e => s.insert e.1 e.2) empty

/-- An empty set selects all calls; one whose flags are all `true` excludes its paths; any other
includes its paths only. -/
def mode (s : FilterSet) : FilterMode :=
  if s.entries.isEmpty then .all
  else if s.entries.all fun e => e.2.isTrue then .allExcept
  else .only

end FilterSet
end RequireInjection
