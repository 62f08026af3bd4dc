import RequireInjection.Injection
import RequireInjection.Log
import RequireInjection.Text.Quoted

namespace RequireInjection

namespace CallPattern

def excludedPaths : CallPattern → List Text
  | anyArgument excluded => excluded
  | quotedPath _ => []

def record (p : CallPattern) : LogRecord where
  level := .debug
  source := "injectloader_core::pattern"
  message := ("Built require pattern: " : Text) ++ p.regex ++ (" (excluding [" : Text) ++
    Text.join [',', ' '] (p.excludedPaths.map Text.quotation) ++ ("])" : Text)

end CallPattern

def spanText (start stop : Nat) : Text := Text.ofNat start ++ ("..".toList ++ Text.ofNat stop)

def ContextLoader.record (b : ContextLoader) : LogRecord where
  level := .debug
  source := "injectloader_core::context"
  message := ("require.context binding '" : Text) ++ b.name ++ ("' at " : Text) ++
    spanText b.start b.stop ++ (" with base path " : Text) ++ b.base

def ContextCall.skipRecord (c : ContextCall) : LogRecord where
  level := .debug
  source := "injectloader_core::context"
  message := ("Skipping nested require.context call " : Text) ++ c.call ++ (" at " : Text) ++
    spanText c.start c.stop

def Edit.record (e : Edit) (shift : Int) : LogRecord where
  level := .trace
  source := "injectloader_core::replace"
  message := ("Replacing " : Text) ++ spanText e.start e.stop ++ (" (mutated " : Text) ++
    spanText (e.start + shift).toNat (e.stop + shift).toNat ++ (") with " : Text) ++
    Text.ofNat e.text.size ++ (" bytes" : Text)

/-- Records of calls in order, of which those that start before the given offset are skipped. -/
def callRecords (covered : Nat) (shift : Int) : List ContextCall → List LogRecord
  | [] => []
  | c :: cs =>
    if c.start < covered then c.skipRecord :: callRecords covered shift cs
    else
      c.edit.record shift ::
        callRecords c.stop (shift + c.edit.text.size - ((c.stop : Int) - c.start)) cs

def structuralRecord : LogRecord where
  level := .debug
  source := "injectloader_core::injector"
  message := "Source uses require.context, running structural pass"

def transformRecords (filters : FilterSet) (source : Text) : List LogRecord :=
  if Text.includes source contextMark then
    structuralRecord ::
      match parseScript (injectableModule (wrap (CallPattern.ofFilters filters) source)) with
      | .ok tree =>
        (contextLoaders tree.root).map ContextLoader.record ++
          callRecords 0 0 (allContextCalls tree.root)
      | .error _ => []
  else []

end RequireInjection
