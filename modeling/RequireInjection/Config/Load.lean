import RequireInjection.Config.Document
import RequireInjection.Host

namespace RequireInjection.Config

def fileName : Text := "injectconfig.yaml"

inductive LoadFault where
  | file (fault : FileFault)
  | document (fault : Yaml.Fault)

def LoadFault.messages : LoadFault → List Text
  | file f => [("IO error: " : Text) ++ f.message, f.message]
  | document f =>
    [("Configuration error: " : Text) ++ (f.message?.getD "the document is not well formed")]

variable {m : Type → Type} [Monad m]

def load (host : Host m) (path : Text) : m (Except LoadFault Config) := do
  match ← host.readText path with
  | .error f => return .error (.file f)
  | .ok t => return (ofYaml t).mapError LoadFault.document

def writeDefault (host : Host m) (path : Text) : m (Except LoadFault Unit) := do
  return (← host.write path (Utf8.encode defaultYaml)).mapError LoadFault.file

end RequireInjection.Config
