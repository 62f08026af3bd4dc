import RequireInjection.Proofs.Edit.Splice

/-!
Runs of the cursor, refused edits included. At every step the edited text is what the edits made so
far have put in front of a part of the source that no edit has reached, and the shift is the
difference in length of the two fronts. So a run makes of the source what its accepted edits make of
it in one pass.
-/
namespace RequireInjection
namespace EditCursor

/-- An edit made if it is accepted; a refused one leaves the cursor as it is. -/
def attempt (c : EditCursor) (e : Edit) : EditCursor :=
  match c.replace e with
  | .ok next => next
  | .error _ => c

def run (c : EditCursor) (edits : List Edit) : EditCursor := edits.foldl attempt c

def accepted : EditCursor → List Edit → List Edit
  | _, [] => []
  | c, e :: es =>
    match c.replace e with
    | .ok next => e :: accepted next es
    | .error _ => accepted c es

/-- The source is cut into what the edits have passed and the rest, and the edited text is a front
with the same rest behind it. -/
structure Tracks (source done rest front : Text) (c : EditCursor) : Prop where
  source_eq : source = done ++ rest
  text_eq : c.text = front ++ rest
  size_eq : c.sourceSize = source.size
  stop_eq : c.previousStop = done.size
  shift_eq : c.shift = (front.size : Int) - done.size

theorem start_tracks (source : Text) : Tracks source [] source [] (start source) where
  source_eq := rfl
  text_eq := rfl
  size_eq := rfl
  stop_eq := rfl
  shift_eq := by simp [start]

variable {source done rest front gap mid after : Text} {c next : EditCursor} {e : Edit}

theorem Tracks.shifted_eq (h : Tracks source done rest front c) (n : Nat) :
    c.shifted (done.size + n) = front.size + n := by
  simp only [shifted, h.shift_eq]
  omega

theorem Tracks.replace_cut (h : Tracks source done (gap ++ (mid ++ after)) front c)
    (hstart : e.start = done.size + gap.size) (hstop : e.stop = done.size + gap.size + mid.size) :
    c.replace e = .ok {
      text := front ++ gap ++ (e.text ++ after)
      sourceSize := c.sourceSize
      shift := c.shift + e.text.size - ((e.stop : Int) - e.start)
      previousStop := e.stop } := by
  have inside : ¬ c.sourceSize < e.stop := by
    rw [h.size_eq, h.source_eq]
    simp only [Text.size_append]
    omega
  have behind : ¬ e.start < c.previousStop := by
    rw [h.stop_eq]
    omega
  have first : c.shifted e.start = Text.size (front ++ gap) := by
    rw [hstart, h.shifted_eq, Text.size_append]
  have last : c.shifted e.stop - c.shifted e.start = mid.size := by
    rw [hstart, hstop, Nat.add_assoc, h.shifted_eq, h.shifted_eq]
    omega
  have text_cut : c.text = (front ++ gap) ++ (mid ++ after) := by
    rw [h.text_eq, List.append_assoc]
  simp only [replace, last]
  rw [if_neg (by omega), if_neg behind, if_neg inside, first, text_cut, Text.splitAt?_size]
  simp only [Text.splitAt?_size]

theorem Tracks.pass (h : Tracks source done (gap ++ (mid ++ after)) front c)
    (hstart : e.start = done.size + gap.size) (hstop : e.stop = done.size + gap.size + mid.size) :
    Tracks source (done ++ (gap ++ mid)) after (front ++ (gap ++ e.text)) {
      text := front ++ gap ++ (e.text ++ after)
      sourceSize := c.sourceSize
      shift := c.shift + e.text.size - ((e.stop : Int) - e.start)
      previousStop := e.stop } where
  source_eq := by rw [h.source_eq]; simp
  text_eq := by simp
  size_eq := h.size_eq
  stop_eq := by simp only [Text.size_append]; omega
  shift_eq := by
    have := h.shift_eq
    simp only [Text.size_append, Int.natCast_add]
    omega

theorem Tracks.fits_of_replace (h : Tracks source done rest front c)
    (ok : c.replace e = .ok next) : e.Fits source c.previousStop := by
  -- The checks in their order; what passes all of them has cut the edited text twice.
  simp only [replace] at ok
  split at ok
  · cases ok
  · rename_i ordered
    split at ok
    · cases ok
    · rename_i behind
      split at ok
      · cases ok
      · rename_i inside
        rw [h.stop_eq] at behind
        obtain ⟨a, ha⟩ : ∃ a, e.start = done.size + a := ⟨e.start - done.size, by omega⟩
        obtain ⟨b, hb⟩ : ∃ b, e.stop = done.size + (a + b) := ⟨e.stop - e.start, by omega⟩
        have width : c.shifted e.stop - c.shifted e.start = b := by
          rw [ha, hb, h.shifted_eq, h.shifted_eq]
          omega
        split at ok
        · cases ok
        · rename_i before behindStart hcut
          obtain ⟨htext, hbefore⟩ := Text.eq_append_of_splitAt? hcut
          have start_boundary : (front ++ rest).IsBoundary (front.size + a) := by
            refine Text.isBoundary_iff.mpr ⟨before, behindStart, ?_, ?_⟩
            · rw [← h.text_eq, htext]
            · rw [hbefore, ha, h.shifted_eq]
          -- Both cuts lie behind the front, so they are cuts of the part that no edit has reached.
          obtain ⟨gap, others, hrest, hgap⟩ := Text.cut_behind start_boundary (by omega)
          have same : behindStart = others := by
            have sizes : before.size = Text.size (front ++ gap) := by
              rw [hbefore, ha, h.shifted_eq, Text.size_append]
              omega
            have halves : before ++ behindStart = (front ++ gap) ++ others := by
              rw [← htext, h.text_eq, hrest, List.append_assoc]
            exact Text.append_inj_size halves sizes
          split at ok
          · cases ok
          · rename_i mid after hmid
            obtain ⟨hothers, hsize⟩ := Text.eq_append_of_splitAt? hmid
            rw [width] at hsize
            rw [h.source_eq, hrest, ← same, hothers, h.stop_eq]
            exact Edit.fits_of_cut (by omega) (by omega)

theorem Tracks.cut_of_replace (h : Tracks source done rest front c) (ok : c.replace e = .ok next) :
    ∃ gap mid after, rest = gap ++ (mid ++ after) ∧ e.start = done.size + gap.size ∧
      e.stop = done.size + gap.size + mid.size ∧
      Tracks source (done ++ (gap ++ mid)) after (front ++ (gap ++ e.text)) next := by
  have fits := h.fits_of_replace ok
  rw [h.source_eq, h.stop_eq] at fits
  obtain ⟨gap, mid, after, rfl, hstart, hstop⟩ := fits.cut
  refine ⟨gap, mid, after, rfl, hstart, hstop, ?_⟩
  rw [h.replace_cut hstart hstop] at ok
  cases ok
  exact h.pass hstart hstop

theorem replace_previous_stop (ok : c.replace e = .ok next) : next.previousStop = e.stop := by
  simp only [replace] at ok
  repeat (split at ok; · cases ok)
  cases ok
  rfl

theorem replace_shift (ok : c.replace e = .ok next) : next.shift = c.shift + e.growth := by
  simp only [replace] at ok
  repeat (split at ok; · cases ok)
  cases ok
  simp only [Edit.growth]
  omega

theorem attempt_of_ok (ok : c.replace e = .ok next) : c.attempt e = next := by
  simp [attempt, ok]

theorem attempt_of_error {fault : EditFault} (refused : c.replace e = .error fault) :
    c.attempt e = c := by
  simp [attempt, refused]

theorem run_cons (c : EditCursor) (e : Edit) (es : List Edit) :
    c.run (e :: es) = (c.attempt e).run es := rfl

theorem run_append (c : EditCursor) (before after : List Edit) :
    c.run (before ++ after) = (c.run before).run after := List.foldl_append

theorem accepted_append (c : EditCursor) (before after : List Edit) :
    c.accepted (before ++ after) = c.accepted before ++ (c.run before).accepted after := by
  induction before generalizing c with
  | nil => rfl
  | cons e es ih =>
    simp only [List.cons_append, accepted, run_cons]
    cases taken : c.replace e with
    | ok next => simp only [attempt_of_ok taken, ih, List.cons_append]
    | error fault => simp only [attempt_of_error taken, ih]

theorem Tracks.run_text (h : Tracks source done rest front c) (edits : List Edit) :
    (c.run edits).text = front ++ source.splice done.size (c.accepted edits) := by
  induction edits generalizing done rest front c with
  | nil =>
    have last : source.splice done.size [] = rest := by rw [h.source_eq, Text.splice_nil]
    simp only [run, List.foldl_nil, accepted, last, h.text_eq]
  | cons e es ih =>
    rw [run_cons]
    cases taken : c.replace e with
    | error fault =>
      simp only [attempt_of_error taken, accepted, taken]
      exact ih h
    | ok next =>
      obtain ⟨gap, mid, after, rfl, hstart, hstop, tracks⟩ := h.cut_of_replace taken
      have later := ih tracks
      have reached : Text.size (done ++ (gap ++ mid)) = e.stop := by
        simp only [Text.size_append]
        omega
      simp only [attempt_of_ok taken, accepted, taken]
      rw [later, reached, h.source_eq, Text.splice_cons hstart]
      simp

theorem Tracks.run_tracks (h : Tracks source done rest front c) (edits : List Edit) :
    ∃ done rest front, Tracks source done rest front (c.run edits) := by
  induction edits generalizing done rest front c with
  | nil => exact ⟨done, rest, front, h⟩
  | cons e es ih =>
    rw [run_cons]
    cases taken : c.replace e with
    | error fault =>
      rw [attempt_of_error taken]
      exact ih h
    | ok next =>
      obtain ⟨gap, mid, after, -, -, -, tracks⟩ := h.cut_of_replace taken
      rw [attempt_of_ok taken]
      exact ih tracks

theorem Tracks.all_fit (h : Tracks source done rest front c) (edits : List Edit) :
    Edit.AllFit source c.previousStop (c.accepted edits) := by
  induction edits generalizing done rest front c with
  | nil => trivial
  | cons e es ih =>
    simp only [accepted]
    cases taken : c.replace e with
    | error fault => exact ih h
    | ok next =>
      obtain ⟨gap, mid, after, -, -, -, tracks⟩ := h.cut_of_replace taken
      refine ⟨h.fits_of_replace taken, ?_⟩
      rw [← replace_previous_stop taken]
      exact ih tracks

theorem Tracks.shift_eq_difference (h : Tracks source done rest front c) :
    c.shift = (c.text.size : Int) - source.size := by
  rw [h.shift_eq, h.text_eq, h.source_eq]
  simp only [Text.size_append, Int.natCast_add]
  omega

theorem run_shift (c : EditCursor) (edits : List Edit) :
    (c.run edits).shift = c.shift + ((c.accepted edits).map Edit.growth).sum := by
  induction edits generalizing c with
  | nil => simp [run, accepted]
  | cons e es ih =>
    rw [run_cons, ih]
    cases taken : c.replace e with
    | error fault => simp [attempt_of_error taken, accepted, taken]
    | ok next =>
      simp only [attempt_of_ok taken, accepted, taken, List.map_cons, List.sum_cons,
        replace_shift taken]
      omega

theorem replaceAll_accepted (c : EditCursor) (edits : List Edit) :
    c.replaceAll (c.accepted edits) = .ok (c.run edits) := by
  induction edits generalizing c with
  | nil => rfl
  | cons e es ih =>
    rw [run_cons]
    cases taken : c.replace e with
    | error fault =>
      simp only [attempt_of_error taken, accepted, taken]
      exact ih c
    | ok next =>
      simp only [attempt_of_ok taken, accepted, taken, replaceAll]
      exact ih next

theorem Tracks.accepted_of_fit (h : Tracks source done rest front c) {edits : List Edit}
    (fit : Edit.AllFit source done.size edits) : c.accepted edits = edits := by
  induction edits generalizing done rest front c with
  | nil => rfl
  | cons e es ih =>
    obtain ⟨first, others⟩ := fit
    rw [h.source_eq] at first
    obtain ⟨gap, mid, after, rfl, hstart, hstop⟩ := first.cut
    have reached : Text.size (done ++ (gap ++ mid)) = e.stop := by
      simp only [Text.size_append]
      omega
    simp only [accepted, h.replace_cut hstart hstop]
    congr 1
    exact ih (h.pass hstart hstop) (by rw [reached]; exact others)

theorem replaceAll_of_fit {edits : List Edit} (fit : Edit.AllFit source 0 edits) :
    ∃ c, (start source).replaceAll edits = .ok c ∧ c.text = source.splice 0 edits := by
  have tracks := start_tracks source
  have all := tracks.accepted_of_fit fit
  have text := tracks.run_text edits
  have through := replaceAll_accepted (start source) edits
  rw [all] at text through
  exact ⟨_, through, text⟩

theorem size_splice_of_fit {edits : List Edit} (fit : Edit.AllFit source 0 edits) :
    ((source.splice 0 edits).size : Int) = source.size + (edits.map Edit.growth).sum := by
  have tracks := start_tracks source
  have all := tracks.accepted_of_fit fit
  have text := tracks.run_text edits
  have grown := run_shift (start source) edits
  obtain ⟨_, _, _, ended⟩ := tracks.run_tracks edits
  have difference := ended.shift_eq_difference
  rw [all, List.nil_append, Text.size_nil] at text
  rw [all, start, Int.zero_add] at grown
  rw [text] at difference
  rw [start] at difference
  omega

theorem leave_out_refused {before : List Edit} (after : List Edit) {fault : EditFault}
    (refused : (c.run before).replace e = .error fault) :
    c.run (before ++ e :: after) = c.run (before ++ after) ∧
      c.accepted (before ++ e :: after) = c.accepted (before ++ after) := by
  constructor
  · rw [run_append, run_append, run_cons, attempt_of_error refused]
  · rw [accepted_append, accepted_append, accepted, refused]

/-- A run over any edits ends in the one-pass splice of its accepted edits, which is also what they
make from the last to the first; the shift is the sum of their growths and the difference in length;
and every refused edit may be left out. -/
theorem run_refines_splice (source : Text) (edits : List Edit) :
    let c := (start source).run edits
    let made := (start source).accepted edits
    Edit.AllFit source 0 made ∧ c.text = source.splice 0 made ∧
      c.text = source.spliceBackwards made ∧ c.shift = (made.map Edit.growth).sum ∧
      c.shift = (c.text.size : Int) - source.size ∧ (start source).replaceAll made = .ok c ∧
      ∀ before e after fault, edits = before ++ e :: after →
        ((start source).run before).replace e = .error fault →
          (start source).run (before ++ after) = c ∧
            (start source).accepted (before ++ after) = made := by
  intro c made
  have tracks := start_tracks source
  have fit : Edit.AllFit source 0 made := tracks.all_fit edits
  have text : c.text = source.splice 0 made := tracks.run_text edits
  have sum : c.shift = (made.map Edit.growth).sum := by
    have := run_shift (start source) edits
    rwa [start, Int.zero_add] at this
  obtain ⟨_, _, _, ended⟩ := tracks.run_tracks edits
  refine ⟨fit, text, ?_, sum, ended.shift_eq_difference, replaceAll_accepted _ edits, ?_⟩
  · rw [text, Text.splice_backwards_eq fit]
  · rintro before e after fault rfl refused
    obtain ⟨same, kept⟩ := leave_out_refused after refused
    exact ⟨same.symm, kept.symm⟩

end EditCursor
end RequireInjection
