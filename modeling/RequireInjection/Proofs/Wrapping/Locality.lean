import RequireInjection.Proofs.CallPattern.QuotedCall
import RequireInjection.Wrapping

/-!
Wrapping is local. A call ends at a closing bracket and holds no other, so no call reaches over a
place behind a closing bracket, be it found or refused. What stands behind such a place is wrapped
as if nothing stood before it.
-/
namespace RequireInjection

open CallPattern

/-- No path of calls to be found holds a closing bracket; excluded paths may. -/
def CallPattern.HasOpenPaths : CallPattern → Prop
  | anyArgument _ => True
  | quotedPath paths => ∀ path ∈ paths, ')' ∉ path

section Arguments

variable {front t a path : Text}

theorem closed_within_iff (no_closing : ')' ∉ a) :
    (∃ rest, front ++ ')' :: t = a ++ ')' :: rest) ↔ ∃ rest, front ++ [')'] = a ++ ')' :: rest := by
  constructor
  · rintro ⟨rest, whole⟩
    rcases List.append_eq_append_iff.mp whole with ⟨gap, ha, hrest⟩ | ⟨gap, hfront, hrest⟩
    · cases gap with
      | nil => exact ⟨[], by simp [ha]⟩
      | cons c gap =>
        obtain ⟨rfl, -⟩ : ')' = c ∧ t = gap ++ ')' :: rest := by simpa using hrest
        exact absurd (by simp [ha]) no_closing
    · cases gap with
      | nil => exact ⟨[], by simp [hfront]⟩
      | cons c gap =>
        obtain ⟨rfl, -⟩ : ')' = c ∧ rest = gap ++ ')' :: t := by simpa using hrest
        exact ⟨gap ++ [')'], by simp [hfront]⟩
  · rintro ⟨rest, whole⟩
    refine ⟨rest ++ t, ?_⟩
    have longer := congrArg (· ++ t) whole
    simpa using longer

theorem anyArgument?_cut (front t : Text) :
    anyArgument? (front ++ ')' :: t) = anyArgument? (front ++ [')']) := by
  apply Option.ext
  intro a
  simp only [anyArgument?_eq_some]
  refine and_congr_right fun _ => and_congr_right fun no_closing => ?_
  exact closed_within_iff no_closing

theorem quoted?_cut (open_path : ')' ∉ path) (front t : Text) :
    quoted? (front ++ ')' :: t) path = quoted? (front ++ [')']) path := by
  have no_closing : ∀ q q', isQuote q → isQuote q' → ')' ∉ q :: path ++ [q'] := by
    intro q q' quote quote'
    have first := quote_not_closing quote
    have last := quote_not_closing quote'
    simp [open_path, first.symm, last.symm]
  apply Option.ext
  intro a
  simp only [quoted?_eq_some]
  constructor
  · rintro ⟨q, q', after, quote, quote', rfl, whole⟩
    obtain ⟨after', within⟩ := (closed_within_iff (no_closing q q' quote quote')).mp ⟨after, whole⟩
    exact ⟨q, q', after', quote, quote', rfl, within⟩
  · rintro ⟨q, q', after, quote, quote', rfl, within⟩
    obtain ⟨after', whole⟩ := (closed_within_iff (no_closing q q' quote quote')).mpr ⟨after, within⟩
    exact ⟨q, q', after', quote, quote', rfl, whole⟩

theorem argumentAt?_cut {p : CallPattern} (open_paths : p.HasOpenPaths) (front t : Text) :
    p.argumentAt? (front ++ ')' :: t) = p.argumentAt? (front ++ [')']) := by
  have outside : ')' ∉ Piece.opening := by decide
  by_cases opened : Piece.opening <+: front
  · obtain ⟨inner, rfl⟩ := opened
    simp only [argumentAt?, List.append_assoc, Text.stripPrefix?_append]
    cases p with
    | anyArgument excluded => simp only [anyArgument?_cut inner t]
    | quotedPath paths =>
      have each : ∀ path ∈ paths,
          quoted? (inner ++ ')' :: t) path = quoted? (inner ++ [')']) path :=
        fun path member => quoted?_cut (open_paths path member) inner t
      simp only [← List.head?_filterMap, List.filterMap_congr each]
  · have unopened : ∀ u, Text.stripPrefix? Piece.opening (front ++ ')' :: u) = none := by
      intro u
      rw [← Option.not_isSome_iff_eq_none]
      exact mt ((Text.prefix_append_cons_iff outside).mp ∘ Text.startsWith_iff.mp) opened
    simp only [argumentAt?, unopened]

end Arguments

theorem length_call_le {p : CallPattern} {t a : Text} (found : p.argumentAt? t = some a) :
    (Piece.call a).text.length ≤ t.length := by
  obtain ⟨rest, whole⟩ := argumentAt_begins found
  rw [whole, List.length_append]
  omega

theorem scan_cut {p : CallPattern} (open_paths : p.HasOpenPaths) (front t : Text) {skip : Nat}
    (inside : skip ≤ front.length + 1) :
    p.scan skip (front ++ ')' :: t) = p.scan skip (front ++ [')']) ++ p.scan 0 t := by
  induction front generalizing skip with
  | nil =>
    cases skip with
    | zero =>
      have nothing : ∀ u, p.argumentAt? (')' :: u) = none := fun u => rfl
      simp [scan, nothing]
    | succ n =>
      obtain rfl : n = 0 := by simpa using inside
      simp [scan]
  | cons c cs ih =>
    cases skip with
    | succ n => exact ih (by simpa using inside)
    | zero =>
      -- A call found here ends within the front, so the scan passes the same characters in both.
      have same := argumentAt?_cut open_paths (c :: cs) t
      simp only [List.cons_append, scan] at same ⊢
      rw [same]
      cases found : p.argumentAt? (c :: (cs ++ [')'])) with
      | none => simp [ih (Nat.zero_le _)]
      | some a =>
        have short := length_call_le found
        simp only [List.length_cons, List.length_append, List.length_nil] at short
        simp only [List.cons_append]
        rw [ih (by omega)]

theorem hasOpenPaths_of_mode {filters : FilterSet}
    (open_paths : filters.mode = .only → ∀ path ∈ filters.paths, ')' ∉ path) :
    (ofFilters filters).HasOpenPaths := by
  cases mode : filters.mode with
  | all => simp [ofFilters, mode, HasOpenPaths]
  | allExcept => simp [ofFilters, mode, HasOpenPaths]
  | only => simpa [ofFilters, mode, HasOpenPaths] using open_paths mode

/-- A text that is cut behind a closing bracket is wrapped as its two parts are, unless a path that
is to be found holds a closing bracket itself. -/
theorem wrap_cut_behind_bracket (filters : FilterSet) (s t : Text)
    (open_paths : filters.mode = .only → ∀ path ∈ filters.paths, ')' ∉ path)
    (cut : s = [] ∨ s.getLast? = some ')') :
    wrap (ofFilters filters) (s ++ t) =
      wrap (ofFilters filters) s ++ wrap (ofFilters filters) t := by
  rcases cut with rfl | last
  · rfl
  · obtain ⟨front, rfl⟩ := List.getLast?_eq_some_iff.mp last
    have parted := scan_cut (hasOpenPaths_of_mode open_paths) front t (Nat.zero_le _)
    rw [List.append_assoc, List.singleton_append, wrap, pieces, parted, List.flatMap_append]
    rfl

/-- Both parts hold the opening of a call that the other could end, and a path stands in both. -/
theorem opened_call_cut :
    let filters := FilterSet.ofList [(['a'], .bool true), ("require(".toList, .null)]
    let s : Text := "require('a' + require('a')"
    let t : Text := ", require('require('))"
    (filters.mode = .only → ∀ path ∈ filters.paths, ')' ∉ path) ∧ s.getLast? = some ')' ∧
      wrap (ofFilters filters) (s ++ t) =
        "require('a' + (injections['a'] || require('a'))".toList ++
          ", (injections['require('] || require('require(')))".toList := by
  intro filters s t
  have open_paths : filters.mode = .only → ∀ path ∈ filters.paths, ')' ∉ path := by decide
  have last : s.getLast? = some ')' := by decide
  have before : wrap (ofFilters filters) s =
      "require('a' + (injections['a'] || require('a'))".toList := by rfl
  have behind : wrap (ofFilters filters) t =
      ", (injections['require('] || require('require(')))".toList := by rfl
  refine ⟨open_paths, last, ?_⟩
  rw [wrap_cut_behind_bracket filters s t open_paths (Or.inr last), before, behind]

/-- A path that holds a bracket is found across it. -/
example :
    let p := quotedPath ["a')b".toList]
    wrap p "require('a')".toList = "require('a')".toList ∧
      wrap p "require('a')b')".toList =
        "(injections['a')b'] || require('a')b'))".toList := ⟨by rfl, by rfl⟩

end RequireInjection
