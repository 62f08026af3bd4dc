import RequireInjection.Text

namespace RequireInjection

inductive LogLevel where
  | error | warn | info | debug | trace
  deriving DecidableEq, Repr

namespace LogLevel

def rank : LogLevel → Nat
  | error => 1 | warn => 2 | info => 3 | debug => 4 | trace => 5

def name : LogLevel → Text
  | error => "ERROR" | warn => "WARN" | info => "INFO" | debug => "DEBUG" | trace => "TRACE"

end LogLevel

structure LogRecord where
  level : LogLevel
  source : String
  message : Text
  deriving Repr

def LogRecord.text (r : LogRecord) : Text := r.level.name ++ ' ' :: r.message

structure LogRule where
  source : Text
  rank : Nat
  deriving DecidableEq, Repr

abbrev LogFilter := List LogRule

namespace LogFilter

def lower (t : Text) : Text := t.map Char.toLower

def rank? (t : Text) : Option Nat :=
  ["off", "error", "warn", "info", "debug", "trace"].findIdx? (·.toList == lower t) |>.or
    (["0", "1", "2", "3", "4", "5"].findIdx? (·.toList == t))

/-- `source=level`, or a source without a level, for which everything is shown. A level alone says
nothing, since the common level is fixed. -/
def rule? (t : Text) : Option LogRule :=
  match Text.splitOnce '=' t with
  | some (source, []) => some ⟨source, LogLevel.trace.rank⟩
  | some (source, level) => (rank? level).map fun r => ⟨source, r⟩
  | none => if t.isEmpty || (rank? t).isSome then none else some ⟨t, LogLevel.trace.rank⟩

/-- Rules between commas; of two for the same source the later one counts. -/
def ofText (t : Text) : LogFilter :=
  ((Text.splitBy (· = ',') t).filterMap rule?).reverse

/-- The rule with the longest source among those that fit; without one, `info` and coarser levels
are shown. -/
def rankFor (f : LogFilter) (source : Text) : Nat :=
  ((f.filter fun r => Text.startsWith source r.source).foldl (fun (best : Option LogRule) r =>
    match best with
    | some b => if b.source.length < r.source.length then some r else best
    | none => some r) none).elim LogLevel.info.rank LogRule.rank

def shows (f : LogFilter) (r : LogRecord) : Bool := r.level.rank ≤ f.rankFor r.source.toList

end LogFilter
end RequireInjection
