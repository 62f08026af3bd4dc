import RequireInjection.ContextCall
import RequireInjection.FilterSet.Query

namespace RequireInjection

/-- Text that every use of a context loader is taken to hold. -/
def contextMark : Text := "require.context("

def transform (filters : FilterSet) (source : Text) : Except TransformFault Text :=
  let output := injectableModule (wrap (CallPattern.ofFilters filters) source)
  if Text.includes source contextMark then resolveContextCalls output else .ok output

inductive InjectionFault where
  | query (fault : FilterSet.QueryFault)
  | transform (fault : TransformFault)
  deriving DecidableEq, Repr

def inject (query source : Text) : Except InjectionFault Text := do
  let filters ← (FilterSet.ofQuery query).mapError InjectionFault.query
  (transform filters source).mapError InjectionFault.transform

end RequireInjection
