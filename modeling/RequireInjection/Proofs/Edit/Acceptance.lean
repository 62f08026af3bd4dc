import RequireInjection.Proofs.Edit.Run

/-!
Which edits the cursor takes. It looks at the edited text, at shifted offsets; but behind the last
edit that text is the source, so its boundaries there are the source's. What is taken and what is
refused, and why, is then a matter of the source and of the ranges alone.
-/
namespace RequireInjection

namespace Text

theorem isBoundary_append {front rest : Text} {n : Nat} :
    (front ++ rest).IsBoundary (front.size + n) ↔ rest.IsBoundary n := by
  constructor
  · intro boundary
    obtain ⟨gap, after, whole, place⟩ := cut_behind boundary (Nat.le_add_right _ _)
    exact isBoundary_iff.mpr ⟨gap, after, whole, by omega⟩
  · intro boundary
    obtain ⟨gap, after, rfl, rfl⟩ := isBoundary_iff.mp boundary
    exact isBoundary_iff.mpr ⟨front ++ gap, after, by simp, size_append front gap⟩

theorem not_isBoundary_iff {t : Text} {n : Nat} : ¬ t.IsBoundary n ↔ t.splitAt? n = none := by
  simp [IsBoundary]

end Text

namespace Edit

def range (e : Edit) : Nat × Nat := (e.start, e.stop)

def lastStop (edits : List Edit) : Nat := (edits.getLast?.map stop).getD 0

theorem Fits.of_range {source : Text} {place : Nat} {e e' : Edit} (h : e.Fits source place)
    (same : e.range = e'.range) : e'.Fits source place := by
  obtain ⟨start, stop, text⟩ := e
  obtain ⟨start', stop', text'⟩ := e'
  obtain ⟨rfl, rfl⟩ : start = start' ∧ stop = stop' := by simpa [range] using same
  exact ⟨h.behind, h.ordered, h.inside, h.start_boundary, h.stop_boundary⟩

/-- Why an edit behind a place is refused: the first of five reasons that applies. All but the
offset that is reported, which is moved by the shift, speak of the source before all edits. -/
inductive Refused (source : Text) (place : Nat) (shift : Int) (e : Edit) : EditFault → Prop where
  | inverted (turned : e.stop < e.start) :
      Refused source place shift e (.inverted e.start e.stop)
  | outOfOrder (ordered : e.start ≤ e.stop) (early : e.start < place) :
      Refused source place shift e (.outOfOrder e.start place)
  | outOfBounds (ordered : e.start ≤ e.stop) (behind : place ≤ e.start)
      (outside : source.size < e.stop) :
      Refused source place shift e (.outOfBounds e.stop source.size)
  | startInside {offset : Nat} (ordered : e.start ≤ e.stop) (behind : place ≤ e.start)
      (inside : e.stop ≤ source.size) (cut : ¬ source.IsBoundary e.start)
      (reported : (offset : Int) = e.start + shift) :
      Refused source place shift e (.notBoundary offset)
  | stopInside {offset : Nat} (ordered : e.start ≤ e.stop) (behind : place ≤ e.start)
      (inside : e.stop ≤ source.size) (start_boundary : source.IsBoundary e.start)
      (cut : ¬ source.IsBoundary e.stop) (reported : (offset : Int) = e.stop + shift) :
      Refused source place shift e (.notBoundary offset)

end Edit

namespace EditCursor

def verdicts : EditCursor → List Edit → List Bool
  | _, [] => []
  | c, e :: es => (c.replace e).isOk :: (c.attempt e).verdicts es

variable {source done rest front front' : Text} {c c' : EditCursor} {e : Edit} {fault : EditFault}
  {n : Nat}

theorem Tracks.boundary_iff (h : Tracks source done rest front c) (behind : c.previousStop ≤ n) :
    c.text.IsBoundary (c.shifted n) ↔ source.IsBoundary n := by
  obtain ⟨k, rfl⟩ : ∃ k, n = done.size + k := ⟨n - done.size, by rw [h.stop_eq] at behind; omega⟩
  rw [h.shifted_eq, h.text_eq, h.source_eq, Text.isBoundary_append, Text.isBoundary_append]

theorem Tracks.shifted_int (h : Tracks source done rest front c) (behind : c.previousStop ≤ n) :
    (c.shifted n : Int) = n + c.shift := by
  obtain ⟨k, rfl⟩ : ∃ k, n = done.size + k := ⟨n - done.size, by rw [h.stop_eq] at behind; omega⟩
  rw [h.shifted_eq, h.shift_eq]
  omega

theorem Tracks.replace_eq_ok_iff (h : Tracks source done rest front c) :
    (∃ next, c.replace e = .ok next) ↔ e.Fits source c.previousStop := by
  constructor
  · rintro ⟨next, taken⟩
    exact h.fits_of_replace taken
  · intro fits
    rw [h.source_eq, h.stop_eq] at fits
    obtain ⟨gap, mid, after, rfl, hstart, hstop⟩ := fits.cut
    exact ⟨_, h.replace_cut hstart hstop⟩

theorem Tracks.rest_boundary_iff (h : Tracks source done rest front c) {before behindStart : Text}
    (ordered : e.start ≤ e.stop) (behind : c.previousStop ≤ e.start)
    (cut : c.text.splitAt? (c.shifted e.start) = some (before, behindStart)) :
    behindStart.IsBoundary (c.shifted e.stop - c.shifted e.start) ↔ source.IsBoundary e.stop := by
  obtain ⟨text_eq, size_eq⟩ := Text.eq_append_of_splitAt? cut
  have first := h.shifted_int behind
  have last := h.shifted_int (show c.previousStop ≤ e.stop by omega)
  have place : c.shifted e.stop = before.size + (c.shifted e.stop - c.shifted e.start) := by omega
  rw [← h.boundary_iff (show c.previousStop ≤ e.stop by omega), text_eq, place,
    Text.isBoundary_append, ← place]

theorem Tracks.refused_of_error (h : Tracks source done rest front c)
    (refusal : c.replace e = .error fault) : e.Refused source c.previousStop c.shift fault := by
  -- One reason for each check, in their order; an edit that passes them all is not refused.
  simp only [replace] at refusal
  split at refusal
  · rename_i turned
    cases refusal
    exact .inverted turned
  · rename_i ordered
    split at refusal
    · rename_i early
      cases refusal
      exact .outOfOrder (by omega) early
    · rename_i behind
      split at refusal
      · rename_i outside
        cases refusal
        rw [h.size_eq] at outside ⊢
        exact .outOfBounds (by omega) (by omega) outside
      · rename_i inside
        rw [h.size_eq] at inside
        have reached : c.previousStop ≤ e.start := by omega
        split at refusal
        · rename_i uncut
          cases refusal
          refine .startInside (by omega) reached (by omega) ?_ (h.shifted_int reached)
          rw [← h.boundary_iff reached]
          exact Text.not_isBoundary_iff.mpr uncut
        · rename_i before behindStart cut
          have start_boundary : source.IsBoundary e.start := by
            rw [← h.boundary_iff reached, Text.IsBoundary, cut]
            rfl
          split at refusal
          · rename_i uncut
            cases refusal
            refine .stopInside (by omega) reached (by omega) start_boundary ?_
              (h.shifted_int (by omega))
            rw [← h.rest_boundary_iff (by omega) reached cut]
            exact Text.not_isBoundary_iff.mpr uncut
          · cases refusal

theorem Tracks.error_of_refused (h : Tracks source done rest front c)
    (refused : e.Refused source c.previousStop c.shift fault) : c.replace e = .error fault := by
  cases refused with
  | inverted turned => simp [replace, turned]
  | outOfOrder ordered early => simp [replace, ordered.not_gt, early]
  | outOfBounds ordered behind outside =>
    rw [← h.size_eq] at outside ⊢
    simp [replace, ordered.not_gt, behind.not_gt, outside]
  | startInside ordered behind inside cut reported =>
    have uncut := Text.not_isBoundary_iff.mp (mt (h.boundary_iff behind).mp cut)
    have place := h.shifted_int behind
    rw [← h.size_eq] at inside
    simp only [replace, if_neg ordered.not_gt, if_neg behind.not_gt, if_neg inside.not_gt, uncut]
    congr 2
    omega
  | stopInside ordered behind inside start_boundary cut reported =>
    have place := h.shifted_int (Nat.le_trans behind ordered)
    obtain ⟨⟨before, behindStart⟩, halves⟩ :=
      Option.isSome_iff_exists.mp ((h.boundary_iff behind).mpr start_boundary)
    have uncut := Text.not_isBoundary_iff.mp (mt (h.rest_boundary_iff ordered behind halves).mp cut)
    rw [← h.size_eq] at inside
    simp only [replace, if_neg ordered.not_gt, if_neg behind.not_gt, if_neg inside.not_gt, halves,
      uncut]
    congr 2
    omega

theorem run_previousStop (c : EditCursor) (edits : List Edit) :
    (c.run edits).previousStop = ((c.accepted edits).getLast?.map Edit.stop).getD c.previousStop := by
  induction edits generalizing c with
  | nil => rfl
  | cons e es ih =>
    rw [run_cons, ih]
    cases taken : c.replace e with
    | error fault => simp only [attempt_of_error taken, accepted, taken]
    | ok next =>
      simp only [attempt_of_ok taken, accepted, taken, replace_previous_stop taken,
        List.getLast?_cons]
      cases (accepted next es).getLast? <;> rfl

theorem Tracks.verdicts_eq (h : Tracks source done rest front c)
    (h' : Tracks source done rest front' c') {edits others : List Edit}
    (same : edits.map Edit.range = others.map Edit.range) :
    c.verdicts edits = c'.verdicts others := by
  -- both cursors have passed `done`; what they have put in its place does not matter
  induction edits generalizing done rest front front' c c' others with
  | nil =>
    have nothing : others = [] := by simpa using same.symm
    rw [nothing, verdicts, verdicts]
  | cons e es ih =>
    cases others with
    | nil => simp at same
    | cons d ds =>
      obtain ⟨first, later⟩ : e.range = d.range ∧ es.map Edit.range = ds.map Edit.range := by
        simpa using same
      simp only [verdicts]
      cases taken : c.replace e with
      | error fault =>
        cases taken' : c'.replace d with
        | error fault' =>
          rw [attempt_of_error taken, attempt_of_error taken', ih h h' later]
          rfl
        | ok next' =>
          have fits := (h'.fits_of_replace taken').of_range first.symm
          rw [h'.stop_eq, ← h.stop_eq] at fits
          obtain ⟨next, ok⟩ := h.replace_eq_ok_iff.mpr fits
          rw [taken] at ok
          cases ok
      | ok next =>
        obtain ⟨gap, mid, after, rfl, hstart, hstop, tracks⟩ := h.cut_of_replace taken
        obtain ⟨start_eq, stop_eq⟩ : e.start = d.start ∧ e.stop = d.stop := by
          simpa [Edit.range] using first
        rw [start_eq] at hstart
        rw [stop_eq] at hstop
        have taken' := h'.replace_cut hstart hstop
        have tracks' := h'.pass hstart hstop
        rw [taken', attempt_of_ok taken, attempt_of_ok taken', ih tracks tracks' later]
        rfl

/-- After any run an edit is taken iff its range lies in the source, behind the last edit taken, and
ends between characters of the source. Otherwise the fault is the first reason that applies, and the
cursor stays as it is. So runs over edits with the same ranges take the same ones. -/
theorem acceptance_by_source (source : Text) (before : List Edit) (e : Edit) :
    let c := (start source).run before
    let place := Edit.lastStop ((start source).accepted before)
    ((∃ next, c.replace e = .ok next) ↔ e.Fits source place) ∧
      (∀ fault, c.replace e = .error fault ↔ e.Refused source place c.shift fault) ∧
      (¬ e.Fits source place → c.run [e] = c) ∧
      ∀ edits others : List Edit, edits.map Edit.range = others.map Edit.range →
        (start source).verdicts edits = (start source).verdicts others := by
  intro c place
  have reached : c.previousStop = place := run_previousStop (start source) before
  obtain ⟨_, _, _, tracks⟩ := (start_tracks source).run_tracks before
  rw [← reached]
  refine ⟨tracks.replace_eq_ok_iff, ?_, ?_, ?_⟩
  · intro fault
    exact ⟨tracks.refused_of_error, tracks.error_of_refused⟩
  · intro misfit
    cases taken : c.replace e with
    | ok next => exact absurd (tracks.replace_eq_ok_iff.mp ⟨next, taken⟩) misfit
    | error fault => exact attempt_of_error taken
  · intro edits others same
    exact (start_tracks source).verdicts_eq (start_tracks source) same

/-- An offset inside the first character, one before the last edit, and one where it ended. -/
theorem shorter_text_same_verdicts :
    let edits : List Edit := [⟨1, 3, "x".toList⟩, ⟨2, 4, "yyy".toList⟩, ⟨3, 5, []⟩, ⟨4, 4, []⟩]
    let others : List Edit := [⟨1, 3, []⟩, ⟨2, 4, []⟩, ⟨3, 5, "zz".toList⟩, ⟨4, 4, "q".toList⟩]
    edits.map Edit.range = others.map Edit.range ∧
      (start "éab".toList).verdicts edits = [false, true, false, true] ∧
      (start "éab".toList).verdicts edits = (start "éab".toList).verdicts others := by
  intro edits others
  have same : edits.map Edit.range = others.map Edit.range := by decide
  obtain ⟨-, -, -, verdicts⟩ := acceptance_by_source "éab".toList [] ⟨0, 0, []⟩
  exact ⟨same, by decide, verdicts edits others same⟩

end EditCursor
end RequireInjection
