import RequireInjection.Injection
import RequireInjection.Proofs.CallPattern.Leftmost
import RequireInjection.Proofs.ContextCall.Outermost
import RequireInjection.Proofs.Text.Occurrence
import RequireInjection.Proofs.Wrapping.Lookups

namespace RequireInjection

variable {query source : Text}

/-- The look-up that stands for a loading call, letter by letter. -/
def lookupText (argument : Text) : Text :=
  ("(injections[" : Text) ++ argument ++ ("] || require(" : Text) ++ argument ++ ("))" : Text)

/-- The generated module around a body, letter by letter. -/
def moduleText (body : Text) : Text :=
  ("module.exports = function inject(injections) \x7b\n" : Text) ++
    ("var module = \x7bexports: \x7b\x7d\x7d;\n" : Text) ++
    ("var exports = module.exports;\n" : Text) ++ body ++
    ("\nreturn module.exports;\n\x7d" : Text)

theorem lookup_eq_lookupText (m : CallPattern.Match) :
    lookup m.argument m.text = lookupText m.argument := by
  have middle : ("] || require(" : Text) = ("] || " : Text) ++ Piece.opening := rfl
  have last : ("))" : Text) = [')'] ++ [')'] := rfl
  unfold lookup lookupText CallPattern.Match.text Piece.text
  rw [middle, last]
  simp only [List.append_assoc]

theorem injectableModule_eq_moduleText (body : Text) :
    injectableModule body = moduleText body := by
  have front : Text.join ['\n'] header ++ ['\n'] =
      ("module.exports = function inject(injections) \x7b\n" : Text) ++
        ("var module = \x7bexports: \x7b\x7d\x7d;\n" : Text) ++
        ("var exports = module.exports;\n" : Text) := rfl
  have back : '\n' :: Text.join ['\n'] footer = ("\nreturn module.exports;\n\x7d" : Text) := rfl
  have cut : injectableModule body = (Text.join ['\n'] header ++ ['\n']) ++ body ++
      '\n' :: Text.join ['\n'] footer := by
    simp [injectableModule, Text.join, header, footer]
  unfold moduleText
  rw [cut, front, back]

theorem parseScript_fault {source : Text} {fault : TransformFault}
    (refused : parseScript source = .error fault) : ∃ line column, fault = .parse line column := by
  unfold parseScript at refused
  cases parsed : Script.parse source with
  | ok tree =>
    rw [parsed] at refused
    cases refused
  | error f =>
    rw [parsed] at refused
    cases refused
    exact ⟨_, _, rfl⟩

theorem resolve_eq_error_iff {fault : TransformFault} :
    resolveContextCalls source = .error fault ↔ parseScript source = .error fault := by
  cases parsed : parseScript source with
  | ok tree => simp [resolve_of_parsed parsed]
  | error f => simp [resolveContextCalls, parsed, bind, Except.bind]

theorem transform_unmarked (filters : FilterSet) (unmarked : ¬ contextMark <:+: source) :
    transform filters source =
      .ok (injectableModule (wrap (CallPattern.ofFilters filters) source)) := by
  rw [transform, if_neg (mt Text.includes_iff.mp unmarked)]

theorem transform_eq_error_iff (filters : FilterSet) (source : Text) {fault : TransformFault} :
    transform filters source = .error fault ↔ contextMark <:+: source ∧
      parseScript (injectableModule (wrap (CallPattern.ofFilters filters) source)) =
        .error fault := by
  by_cases marked : contextMark <:+: source
  · rw [transform, if_pos (Text.includes_iff.mpr marked), resolve_eq_error_iff]
    exact (and_iff_right marked).symm
  · simp [transform_unmarked filters marked, marked]

theorem inject_of_unread {fault : FilterSet.QueryFault}
    (unread : FilterSet.ofQuery query = .error fault) :
    inject query source = .error (.query fault) := by
  simp [inject, unread, bind, Except.bind, Except.mapError]

theorem inject_of_read {filters : FilterSet} (read : FilterSet.ofQuery query = .ok filters) :
    inject query source = (transform filters source).mapError InjectionFault.transform := by
  simp [inject, read, bind, Except.bind, Except.mapError]

theorem inject_eq_query_error_iff {fault : FilterSet.QueryFault} :
    inject query source = .error (.query fault) ↔ FilterSet.ofQuery query = .error fault := by
  cases read : FilterSet.ofQuery query with
  | error f => simp [inject_of_unread read]
  | ok filters =>
    rw [inject_of_read read]
    cases transform filters source <;> simp [Except.mapError]

/-- A query that cannot be read is the fault, and it alone. With a query that can be read, the one
fault is that of the parser on the generated module, met exactly where the source holds the mark;
and without the mark the generated module is the result. In the generated module the calls that the
filters select are replaced by their look-ups and all else is kept. -/
theorem inject_faults (query source : Text) :
    (∀ fault, inject query source = .error (.query fault) ↔
      FilterSet.ofQuery query = .error fault) ∧
    ∀ filters, FilterSet.ofQuery query = .ok filters →
      let p := CallPattern.ofFilters filters
      let lookups := (p.calls source).map fun m =>
        (⟨m.start, m.stop, lookupText m.argument⟩ : Edit)
      let generated := moduleText (source.splice 0 lookups)
      CallPattern.Leftmost (p.Finds source) 0 (p.calls source) ∧
      (∀ m ∈ p.calls source,
        source.slice m.start m.stop = ("require(" : Text) ++ m.argument ++ (")" : Text)) ∧
      Edit.AllFit source 0 lookups ∧
      (∀ fault, inject query source = .error fault ↔ contextMark <:+: source ∧
        ∃ line column, fault = .transform (.parse line column) ∧
          parseScript generated = .error (.parse line column)) ∧
      (¬ contextMark <:+: source → inject query source = .ok generated) := by
  refine ⟨fun fault => inject_eq_query_error_iff, fun filters read => ?_⟩
  intro p lookups generated
  obtain ⟨spliced, fit⟩ := wrap_eq_splice p source
  have edits_eq : (p.calls source).map CallPattern.Match.edit = lookups :=
    List.map_congr_left fun m _ => by rw [CallPattern.Match.edit, lookup_eq_lookupText]
  rw [edits_eq] at spliced fit
  have module_eq : injectableModule (wrap p source) = generated := by
    rw [injectableModule_eq_moduleText, spliced]
  refine ⟨p.calls_leftmost source, fun m found => ?_, fit, fun fault => ?_, fun unmarked => ?_⟩
  · exact ((p.calls_leftmost source).is_match m found).slice_text
  · rw [inject_of_read read, ← module_eq]
    constructor
    · intro failed
      cases outcome : transform filters source with
      | ok output =>
        rw [outcome] at failed
        cases failed
      | error f =>
        rw [outcome] at failed
        cases failed
        obtain ⟨marked, refused⟩ := (transform_eq_error_iff filters source).mp outcome
        obtain ⟨line, column, rfl⟩ := parseScript_fault refused
        exact ⟨marked, line, column, rfl, refused⟩
    · rintro ⟨marked, line, column, rfl, refused⟩
      rw [(transform_eq_error_iff filters source).mpr ⟨marked, refused⟩]
      rfl
  · rw [inject_of_read read, transform_unmarked filters unmarked, module_eq]
    rfl

/-- A text that is no script is wrapped all the same. -/
theorem broken_source_injected :
    let filters := FilterSet.ofList [("a".toList, .bool false)]
    let source : Text := "var x = require('a') +; require('b')"
    FilterSet.ofQuery "?-a" = .ok filters ∧ ¬ contextMark <:+: source ∧
      inject "?-a" source = .ok (("module.exports = function inject(injections) \x7b\n" : Text) ++
        ("var module = \x7bexports: \x7b\x7d\x7d;\nvar exports = module.exports;\n" : Text) ++
        ("var x = (injections['a'] || require('a')) +; require('b')\n" : Text) ++
        ("return module.exports;\n\x7d" : Text)) := by
  intro filters source
  have read : FilterSet.ofQuery "?-a" = .ok filters := by rfl
  have unmarked : ¬ contextMark <:+: source := by
    rw [← Text.includes_iff]
    decide
  obtain ⟨-, -, -, -, output⟩ := (inject_faults "?-a" source).2 filters read
  refine ⟨read, unmarked, (output unmarked).trans (congrArg Except.ok ?_)⟩
  rfl

end RequireInjection
