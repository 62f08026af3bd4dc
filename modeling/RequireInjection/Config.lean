import RequireInjection.FilterSet
import RequireInjection.FilePath

namespace RequireInjection

structure Config where
  filters : FilterSet
  extensions : List Text
  outDir : Option Text

namespace Config

def moduleExtensions : List Text := ["js", "jsx", "mjs", "cjs"].map String.toList

def default : Config := ⟨FilterSet.empty, moduleExtensions, none⟩

def isDefault (c : Config) : Bool :=
  c.filters.entries.isEmpty && c.extensions == moduleExtensions && c.outDir == none

/-- Filters given besides the configuration replace its own as a whole, and so does an output
directory. -/
def merge (c : Config) (filters : Option FilterSet) (outDir : Option Text) : Config :=
  { c with filters := filters.getD c.filters, outDir := outDir.or c.outDir }

def matchesExtension (c : Config) (path : Text) : Bool :=
  match FilePath.extension? path with
  | some e => c.extensions.contains e
  | none => false

end Config
end RequireInjection
