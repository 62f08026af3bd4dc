import RequireInjection.Proofs.CallPattern.QuotedCall
import RequireInjection.Wrapping

/-!
Wrapping by the set of keys. Excluded paths refuse a call together, whatever their order. Of the
paths to be found the first that fits decides, but two different ones can only fit at one place if
the longer goes on behind the quote and bracket that end a call of the shorter. Without such paths
the order does not matter, nor do flags that leave the mode as it is.
-/
namespace RequireInjection

open CallPattern

namespace CallPattern

/-- Nowhere in the path stand a quote and a closing bracket, which end a call. -/
def EndFree (path : Text) : Prop := ∀ q, isQuote q → ¬ [q, ')'] <:+: path

theorem isQuote_iff {c : Char} : isQuote c ↔ c = '\'' ∨ c = '"' := by
  simp [isQuote]

theorem endFree_iff {path : Text} :
    EndFree path ↔ ¬ ['\'', ')'] <:+: path ∧ ¬ ['"', ')'] <:+: path := by
  constructor
  · intro free
    exact ⟨free '\'' rfl, free '"' rfl⟩
  · rintro ⟨single, double⟩ q quote
    rcases isQuote_iff.mp quote with rfl | rfl
    · exact single
    · exact double

instance (path : Text) : Decidable (EndFree path) := decidable_of_iff _ endFree_iff.symm

section Paths

variable {inner t path path' a a' : Text} {paths paths' : List Text}

theorem end_in_longer {q q' : Char} {more after after' : Text} (quote' : isQuote q')
    (whole : q :: ')' :: after = more ++ q' :: ')' :: after') : more = [] ∨ [q, ')'] <+: more := by
  cases more with
  | nil => exact Or.inl rfl
  | cons c more =>
    cases more with
    | nil =>
      obtain ⟨-, closing, -⟩ : q = c ∧ ')' = q' ∧ after = ')' :: after' := by simpa using whole
      exact absurd closing.symm (quote_not_closing quote')
    | cons d more =>
      obtain ⟨rfl, rfl, -⟩ : q = c ∧ ')' = d ∧ after = more ++ q' :: ')' :: after' := by
        simpa using whole
      exact Or.inr ⟨more, rfl⟩

theorem path_determined (free : EndFree path) (free' : EndFree path')
    (found : quoted? inner path = some a) (found' : quoted? inner path' = some a') :
    path = path' := by
  obtain ⟨q₁, q, after, -, quote, rfl, whole⟩ := quoted?_eq_some.mp found
  obtain ⟨q₂, q', after', -, quote', rfl, whole'⟩ := quoted?_eq_some.mp found'
  obtain ⟨-, same⟩ : q₁ = q₂ ∧ path ++ q :: ')' :: after = path' ++ q' :: ')' :: after' := by
    simpa using whole.symm.trans whole'
  rcases List.append_eq_append_iff.mp same with ⟨more, rfl, rest⟩ | ⟨more, rfl, rest⟩
  · rcases end_in_longer quote' rest with rfl | inside
    · rw [List.append_nil]
    · exact absurd (inside.isInfix.trans (List.suffix_append path more).isInfix) (free' q quote)
  · rcases end_in_longer quote rest with rfl | inside
    · rw [List.append_nil]
    · exact absurd (inside.isInfix.trans (List.suffix_append path' more).isInfix) (free q' quote')

theorem findSome?_quoted (free : ∀ path ∈ paths, EndFree path) :
    paths.findSome? (quoted? inner) = some a ↔ ∃ path ∈ paths, quoted? inner path = some a := by
  constructor
  · intro found
    exact List.exists_of_findSome?_eq_some found
  · rintro ⟨path, member, fits⟩
    cases found : paths.findSome? (quoted? inner) with
    | none => simp [List.findSome?_eq_none_iff.mp found path member] at fits
    | some a' =>
      obtain ⟨path', member', fits'⟩ := List.exists_of_findSome?_eq_some found
      rw [path_determined (free path member) (free path' member') fits fits'] at fits
      rw [← fits, fits']

theorem argumentAt?_excluded (same : ∀ path, path ∈ paths ↔ path ∈ paths') (t : Text) :
    (anyArgument paths).argumentAt? t = (anyArgument paths').argumentAt? t := by
  have refused : ∀ argument, isExcluded paths argument = isExcluded paths' argument := by
    intro argument
    rw [Bool.eq_iff_iff, isExcluded_iff, isExcluded_iff]
    simp only [same]
  simp only [argumentAt?, refused]

theorem argumentAt?_quoted (free : ∀ path ∈ paths, EndFree path)
    (same : ∀ path, path ∈ paths ↔ path ∈ paths') (t : Text) :
    (quotedPath paths).argumentAt? t = (quotedPath paths').argumentAt? t := by
  have free' : ∀ path ∈ paths', EndFree path := fun path member =>
    free path ((same path).mpr member)
  have first : ∀ inner, paths.findSome? (quoted? inner) = paths'.findSome? (quoted? inner) := by
    intro inner
    apply Option.ext
    intro a
    rw [findSome?_quoted free, findSome?_quoted free']
    simp only [same]
  simp only [argumentAt?, first]

end Paths

theorem scan_congr {p p' : CallPattern} (same : ∀ t, p.argumentAt? t = p'.argumentAt? t)
    (skip : Nat) (t : Text) : p.scan skip t = p'.scan skip t := by
  induction t generalizing skip with
  | nil => simp [scan]
  | cons c cs ih =>
    cases skip with
    | succ n => exact ih n
    | zero => simp only [scan, same, ih]

end CallPattern

theorem wrap_congr {p p' : CallPattern} (same : ∀ t, p.argumentAt? t = p'.argumentAt? t)
    (source : Text) : wrap p source = wrap p' source := by
  rw [wrap, wrap, pieces, pieces, scan_congr same]

/-- Filter sets of one mode and with the same keys wrap alike, whatever the order of the keys and
whatever flags give the mode; only where the keys are the ones to be found must none of them hold a
quote followed by a closing bracket. -/
theorem wrap_of_same_keys (filters other : FilterSet) (source : Text)
    (mode : filters.mode = other.mode) (keys : ∀ key, key ∈ filters.paths ↔ key ∈ other.paths)
    (free : filters.mode = .only → ∀ key ∈ filters.paths, EndFree key) :
    wrap (ofFilters filters) source = wrap (ofFilters other) source := by
  apply wrap_congr
  intro t
  cases selected : filters.mode with
  | all => simp only [ofFilters, ← mode, selected]
  | allExcept =>
    simp only [ofFilters, ← mode, selected]
    exact argumentAt?_excluded keys t
  | only =>
    simp only [ofFilters, ← mode, selected]
    exact argumentAt?_quoted (free selected) keys t

/-- One key is the front of another, brackets and quotes stand in a third, and the flags differ. -/
theorem keys_reordered :
    let filters := FilterSet.ofList [(['a'], .bool true), ("a'/(b)".toList, .null),
      ("a'/(b)'".toList, .bool true)]
    let other := FilterSet.ofList [("a'/(b)'".toList, .bool false), ("a'/(b)".toList, .bool true),
      (['a'], .int 1)]
    let source : Text := "require('a'), require(\"a'/(b)'), require('a'/(b)'')"
    let wrapped : Text := "(injections['a'] || require('a')), " ++
      ("(injections[\"a'/(b)'] || require(\"a'/(b)')), " ++
        "(injections['a'/(b)''] || require('a'/(b)''))")
    filters.mode = other.mode ∧ (∀ key, key ∈ filters.paths ↔ key ∈ other.paths) ∧
      (filters.mode = .only → ∀ key ∈ filters.paths, EndFree key) ∧
      wrap (ofFilters other) source = wrapped ∧ wrap (ofFilters filters) source = wrapped := by
  intro filters other source wrapped
  have mode : filters.mode = other.mode := by decide
  have keys : ∀ key, key ∈ filters.paths ↔ key ∈ other.paths := by
    intro key
    have listed : other.paths = filters.paths.reverse := by decide
    rw [listed, List.mem_reverse]
  have free : filters.mode = .only → ∀ key ∈ filters.paths, EndFree key := by decide
  have output : wrap (ofFilters other) source = wrapped := by rfl
  refine ⟨mode, keys, free, output, ?_⟩
  rw [wrap_of_same_keys filters other source mode keys free, output]

/-- With a key that holds the end of a call the order of the keys shows. -/
example :
    let short : Text × Json := (['a'], .bool false)
    let long : Text × Json := ("a')b".toList, .bool false)
    let source : Text := "require('a')b')"
    wrap (ofFilters (FilterSet.ofList [short, long])) source =
        "(injections['a'] || require('a'))b')".toList ∧
      wrap (ofFilters (FilterSet.ofList [long, short])) source =
        "(injections['a')b'] || require('a')b'))".toList := ⟨by rfl, by rfl⟩

end RequireInjection
