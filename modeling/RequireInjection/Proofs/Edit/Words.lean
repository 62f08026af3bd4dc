import RequireInjection.Proofs.Edit.Acceptance
import RequireInjection.WordEdit

namespace RequireInjection

namespace Word

theorem exists_toSigned {w : UInt64} (small : w.toNat ≤ limit) :
    ∃ s, toSigned w = .ok s ∧ s.toInt = w.toNat := by
  have exact_value : w.toInt64.toInt = w.toNat := by
    have half : 2 * w.toBitVec.toNat < 2 ^ 64 := by
      simp only [limit, UInt64.toNat_toBitVec] at small ⊢
      omega
    exact BitVec.toInt_eq_toNat_of_lt half
  exact ⟨w.toInt64, if_pos exact_value, exact_value⟩

theorem exists_toUnsigned {s : Int64} (positive : 0 ≤ s.toInt) :
    ∃ w, toUnsigned s = .ok w ∧ (w.toNat : Int) = s.toInt := by
  have exact_value : s.toInt = s.toUInt64.toNat := by
    have cases : s.toInt = if 2 * s.toUInt64.toNat < 2 ^ 64 then (s.toUInt64.toNat : Int)
        else (s.toUInt64.toNat : Int) - (2 ^ 64 : Nat) := BitVec.toInt_eq_toNat_cond s.toBitVec
    have bound := s.toUInt64.toNat_lt
    split at cases
    · exact cases
    · omega
  exact ⟨s.toUInt64, if_pos exact_value, exact_value.symm⟩

theorem exists_minus {a b : UInt64} (ordered : b.toNat ≤ a.toNat) :
    ∃ w, minus a b = .ok w ∧ w.toNat = a.toNat - b.toNat := by
  have value : (a - b).toNat = a.toNat - b.toNat :=
    UInt64.toNat_sub_of_le a b (UInt64.le_iff_toNat_le.mpr ordered)
  exact ⟨a - b, if_pos (by omega), value⟩

theorem bmod_eq {n : Int} (low : -limit ≤ n) (high : n ≤ limit) :
    n.bmod 18446744073709551616 = n := by
  simp only [limit] at low high
  exact Int.bmod_eq_of_le (by omega) (by omega)

theorem exists_add {a b : Int64} (low : -limit ≤ a.toInt + b.toInt)
    (high : a.toInt + b.toInt ≤ limit) :
    ∃ s, add a b = .ok s ∧ s.toInt = a.toInt + b.toInt := by
  have value : (a + b).toInt = a.toInt + b.toInt := (Int64.toInt_add a b).trans (bmod_eq low high)
  exact ⟨a + b, if_pos value, value⟩

theorem exists_sub {a b : Int64} (low : -limit ≤ a.toInt - b.toInt)
    (high : a.toInt - b.toInt ≤ limit) :
    ∃ s, sub a b = .ok s ∧ s.toInt = a.toInt - b.toInt := by
  have value : (a - b).toInt = a.toInt - b.toInt := (Int64.toInt_sub a b).trans (bmod_eq low high)
  exact ⟨a - b, if_pos value, value⟩

theorem toNat_ofSize {n : Nat} (small : n ≤ limit) : (UInt64.ofNat n).toNat = n := by
  rw [UInt64.toNat_ofNat']
  simp only [limit] at small
  exact Nat.mod_eq_of_lt (by omega)

end Word

def EditCursor.textsMet : EditCursor → List Edit → List Text
  | _, [] => []
  | c, e :: es => e.text :: (c.attempt e).text :: (c.attempt e).textsMet es

theorem EditCursor.textsMet_append (c : EditCursor) (before after : List Edit) :
    c.textsMet (before ++ after) = c.textsMet before ++ (c.run before).textsMet after := by
  induction before generalizing c with
  | nil => rfl
  | cons e es ih => simp only [List.cons_append, textsMet, ih, run_cons]

namespace WordCursor

open EditCursor (Tracks textsMet)

variable {source done rest front : Text} {w : WordCursor} {e : WordEdit} {n : UInt64}

theorem start_cursor (small : source.size ≤ Word.limit) :
    (start source).cursor = EditCursor.start source := by
  simp only [cursor, start, EditCursor.start, Word.toNat_ofSize small]
  rfl

theorem exists_shifted (h : Tracks source done rest front w.cursor)
    (source_small : source.size ≤ Word.limit) (text_small : w.text.size ≤ Word.limit)
    (behind : w.previousStop.toNat ≤ n.toNat) (inside : n.toNat ≤ source.size) :
    ∃ m, w.shifted n = .ok m ∧ (m.toNat : Int) = n.toNat + w.shift.toInt ∧
      m.toNat ≤ w.text.size := by
  have place : (w.cursor.shifted n.toNat : Int) = n.toNat + w.shift.toInt := h.shifted_int behind
  have difference : w.shift.toInt = (w.text.size : Int) - source.size := h.shift_eq_difference
  obtain ⟨signed, signed_eq, signed_value⟩ := Word.exists_toSigned (by omega : n.toNat ≤ _)
  obtain ⟨moved, moved_eq, moved_value⟩ : ∃ s, Word.add signed w.shift = .ok s ∧
      s.toInt = signed.toInt + w.shift.toInt := Word.exists_add (by omega) (by omega)
  obtain ⟨m, m_eq, m_value⟩ := Word.exists_toUnsigned (by omega : 0 ≤ moved.toInt)
  refine ⟨m, ?_, by omega, by omega⟩
  simp only [shifted, signed_eq, moved_eq, m_eq, bind, Except.bind]

structure InReach (w : WordCursor) (e : WordEdit) : Prop where
  ordered : e.start ≤ e.stop
  behind : w.previousStop ≤ e.start
  inside : e.stop ≤ w.sourceSize

theorem inReach_of_tracks (h : Tracks source done rest front w.cursor)
    (ordered : e.start.toNat ≤ e.stop.toNat) (behind : w.previousStop.toNat ≤ e.start.toNat)
    (inside : e.stop.toNat ≤ source.size) : w.InReach e := by
  have size : w.sourceSize.toNat = source.size := h.size_eq
  rw [← size] at inside
  constructor
  · exact UInt64.le_iff_toNat_le.mpr ordered
  · exact UInt64.le_iff_toNat_le.mpr behind
  · exact UInt64.le_iff_toNat_le.mpr inside

structure Shifts (w : WordCursor) (e : WordEdit) (first last : UInt64) : Prop where
  first_eq : w.shifted e.start = .ok first
  last_eq : w.shifted e.stop = .ok last
  first_exact : (first.toNat : Int) = e.start.toNat + w.shift.toInt
  last_exact : (last.toNat : Int) = e.stop.toNat + w.shift.toInt
  ordered : first ≤ last
  inside : last.toNat ≤ w.text.size

theorem exists_shifts (h : Tracks source done rest front w.cursor)
    (source_small : source.size ≤ Word.limit) (text_small : w.text.size ≤ Word.limit)
    (reach : w.InReach e) : ∃ first last, w.Shifts e first last := by
  have size : w.sourceSize.toNat = source.size := h.size_eq
  have ordered := UInt64.le_iff_toNat_le.mp reach.ordered
  have behind := UInt64.le_iff_toNat_le.mp reach.behind
  have inside := UInt64.le_iff_toNat_le.mp reach.inside
  obtain ⟨first, first_eq, first_exact, -⟩ :=
    exists_shifted h source_small text_small behind (by omega)
  obtain ⟨last, last_eq, last_exact, last_inside⟩ :=
    exists_shifted h source_small text_small (show _ ≤ e.stop.toNat by omega) (by omega)
  have places : first ≤ last := UInt64.le_iff_toNat_le.mpr (by omega)
  exact ⟨first, last, first_eq, last_eq, first_exact, last_exact, places, last_inside⟩

theorem replace_in_reach (reach : w.InReach e) {first last : UInt64}
    (shifts : w.Shifts e first last) :
    w.replace e = if ¬ w.text.IsBoundary first.toNat then .ok (.error (.notBoundary first.toNat))
      else if ¬ w.text.IsBoundary last.toNat then .ok (.error (.notBoundary last.toNat))
      else (w.make e first last).map .ok := by
  have ordered : ¬ e.stop < e.start := UInt64.not_lt.mpr reach.ordered
  have behind : ¬ e.start < w.previousStop := UInt64.not_lt.mpr reach.behind
  have inside : ¬ w.sourceSize < e.stop := UInt64.not_lt.mpr reach.inside
  simp only [replace, if_neg ordered, if_neg behind, if_neg inside, shifts.first_eq,
    shifts.last_eq, bind, Except.bind]
  rfl

theorem boundary_iff (h : Tracks source done rest front w.cursor)
    (behind : w.previousStop.toNat ≤ n.toNat) {m : UInt64}
    (place : (m.toNat : Int) = n.toNat + w.shift.toInt) :
    w.text.IsBoundary m.toNat ↔ source.IsBoundary n.toNat := by
  have shifted : (w.cursor.shifted n.toNat : Int) = n.toNat + w.shift.toInt := h.shifted_int behind
  have same : m.toNat = w.cursor.shifted n.toNat := by omega
  rw [same]
  exact h.boundary_iff behind

theorem replace_of_error (h : Tracks source done rest front w.cursor)
    (source_small : source.size ≤ Word.limit) (text_small : w.text.size ≤ Word.limit)
    {fault : EditFault} (refused : w.cursor.replace e.edit = .error fault) :
    w.replace e = .ok (.error fault) := by
  have size : w.sourceSize.toNat = source.size := h.size_eq
  -- Only the last two reasons come after any arithmetic, so only these need exact words.
  cases h.refused_of_error refused with
  | inverted turned =>
    have early : e.stop < e.start := UInt64.lt_iff_toNat_lt.mpr turned
    simp only [replace, if_pos early]
    rfl
  | outOfOrder ordered early =>
    have straight : ¬ e.stop < e.start := mt UInt64.lt_iff_toNat_lt.mp ordered.not_gt
    have before : e.start < w.previousStop := UInt64.lt_iff_toNat_lt.mpr early
    simp only [replace, if_neg straight, if_pos before]
    rfl
  | outOfBounds ordered behind outside =>
    have straight : ¬ e.stop < e.start := mt UInt64.lt_iff_toNat_lt.mp ordered.not_gt
    have later : ¬ e.start < w.previousStop := mt UInt64.lt_iff_toNat_lt.mp behind.not_gt
    rw [← size] at outside ⊢
    have beyond : w.sourceSize < e.stop := UInt64.lt_iff_toNat_lt.mpr outside
    simp only [replace, if_neg straight, if_neg later, if_pos beyond]
    rfl
  | @startInside offset ordered behind inside cut reported =>
    have reach := inReach_of_tracks h ordered behind inside
    obtain ⟨first, last, shifts⟩ := exists_shifts h source_small text_small reach
    have uncut := mt (boundary_iff h behind shifts.first_exact).mp cut
    have same : first.toNat = offset := by
      have := shifts.first_exact.trans reported.symm
      omega
    rw [replace_in_reach reach shifts, if_pos uncut, same]
  | @stopInside offset ordered behind inside start_boundary cut reported =>
    have reach := inReach_of_tracks h ordered behind inside
    obtain ⟨first, last, shifts⟩ := exists_shifts h source_small text_small reach
    have first_cut := (boundary_iff h behind shifts.first_exact).mpr start_boundary
    have uncut := mt (boundary_iff h (Nat.le_trans behind ordered) shifts.last_exact).mp cut
    have same : last.toNat = offset := by
      have := shifts.last_exact.trans reported.symm
      omega
    rw [replace_in_reach reach shifts, if_neg (not_not_intro first_cut), if_pos uncut, same]

theorem exchange_cut {gap mid after : Text} {first last : UInt64}
    (h : Tracks source done (gap ++ (mid ++ after)) front w.cursor) (shifts : w.Shifts e first last)
    (hstart : e.start.toNat = done.size + gap.size)
    (hstop : e.stop.toNat = done.size + gap.size + mid.size) :
    exchange w.text first last e.text = .ok (front ++ gap ++ (e.text ++ after)) := by
  have shift_eq : w.shift.toInt = (front.size : Int) - done.size := h.shift_eq
  have first_exact := shifts.first_exact
  have last_exact := shifts.last_exact
  have hfirst : first.toNat = Text.size (front ++ gap) := by
    rw [Text.size_append]
    omega
  have width : last.toNat - Text.size (front ++ gap) = mid.size := by
    rw [Text.size_append]
    omega
  have text_cut : w.text = (front ++ gap) ++ (mid ++ after) := by
    have whole : w.text = front ++ (gap ++ (mid ++ after)) := h.text_eq
    rw [whole, List.append_assoc]
  have ordered : ¬ last < first := UInt64.not_lt.mpr shifts.ordered
  simp only [exchange, if_neg ordered, hfirst, width, text_cut, Text.splitAt?_size]

theorem exists_make {first last : UInt64} {t : Text} (ordered : e.start.toNat ≤ e.stop.toNat)
    (inside : e.stop.toNat ≤ Word.limit) (edit_small : e.text.size ≤ Word.limit)
    (exchanged : exchange w.text first last e.text = .ok t)
    (low : -Word.limit ≤ w.shift.toInt + e.edit.growth)
    (high : w.shift.toInt + e.edit.growth ≤ Word.limit) :
    ∃ s, w.make e first last = .ok ⟨t, w.sourceSize, s, e.stop⟩ ∧
      s.toInt = w.shift.toInt + e.edit.growth := by
  have growth_eq : e.edit.growth =
      (e.text.size : Int) - ((e.stop.toNat : Int) - e.start.toNat) := rfl
  have size := Word.toNat_ofSize edit_small
  obtain ⟨longer, longer_eq, longer_value⟩ :=
    Word.exists_toSigned (show (UInt64.ofNat e.text.size).toNat ≤ Word.limit by omega)
  obtain ⟨width, width_eq, width_value⟩ := Word.exists_minus ordered
  obtain ⟨shorter, shorter_eq, shorter_value⟩ :=
    Word.exists_toSigned (show width.toNat ≤ Word.limit by omega)
  obtain ⟨growth, growth_step, growth_value⟩ : ∃ s, Word.sub longer shorter = .ok s ∧
      s.toInt = longer.toInt - shorter.toInt := Word.exists_sub (by omega) (by omega)
  obtain ⟨shift, shift_step, shift_value⟩ : ∃ s, Word.add w.shift growth = .ok s ∧
      s.toInt = w.shift.toInt + growth.toInt := Word.exists_add (by omega) (by omega)
  refine ⟨shift, ?_, by omega⟩
  simp only [make, exchanged, longer_eq, width_eq, shorter_eq, growth_step, shift_step, bind,
    Except.bind]
  rfl

theorem replace_of_ok (h : Tracks source done rest front w.cursor)
    (source_small : source.size ≤ Word.limit) (text_small : w.text.size ≤ Word.limit)
    (edit_small : e.text.size ≤ Word.limit) {next : EditCursor}
    (next_small : next.text.size ≤ Word.limit) (taken : w.cursor.replace e.edit = .ok next) :
    ∃ w', w.replace e = .ok (.ok w') ∧ w'.cursor = next := by
  have fits := h.fits_of_replace taken
  have ordered : e.start.toNat ≤ e.stop.toNat := fits.ordered
  have behind : w.previousStop.toNat ≤ e.start.toNat := fits.behind
  have inside : e.stop.toNat ≤ source.size := fits.inside
  have reach := inReach_of_tracks h ordered behind inside
  obtain ⟨first, last, shifts⟩ := exists_shifts h source_small text_small reach
  have first_cut := (boundary_iff h behind shifts.first_exact).mpr fits.start_boundary
  have last_cut :=
    (boundary_iff h (Nat.le_trans behind ordered) shifts.last_exact).mpr fits.stop_boundary
  obtain ⟨gap, mid, after, rfl, hstart, hstop, tracks⟩ := h.cut_of_replace taken
  have exchanged := exchange_cut h shifts hstart hstop
  have next_shift : next.shift = w.shift.toInt + e.edit.growth := EditCursor.replace_shift taken
  have difference := tracks.shift_eq_difference
  -- The new shift is the difference of two texts that words can count.
  obtain ⟨s, made, s_value⟩ := exists_make ordered (by omega) edit_small exchanged
    (by omega) (by omega)
  refine ⟨⟨front ++ gap ++ (e.text ++ after), w.sourceSize, s, e.stop⟩, ?_, ?_⟩
  · rw [replace_in_reach reach shifts, if_neg (not_not_intro first_cut),
      if_neg (not_not_intro last_cut), made]
    rfl
  · rw [h.replace_cut hstart hstop] at taken
    cases taken
    have same : s.toInt = w.cursor.shift + e.edit.text.size -
        ((e.edit.stop : Int) - e.edit.start) := s_value.trans next_shift.symm
    simp only [cursor, same]
    rfl

theorem replace_exact (h : Tracks source done rest front w.cursor)
    (source_small : source.size ≤ Word.limit) (text_small : w.text.size ≤ Word.limit)
    (edit_small : e.text.size ≤ Word.limit)
    (next_small : (w.cursor.attempt e.edit).text.size ≤ Word.limit) :
    ∃ result, w.replace e = .ok result ∧ result.map cursor = w.cursor.replace e.edit := by
  cases taken : w.cursor.replace e.edit with
  | error fault =>
    exact ⟨.error fault, replace_of_error h source_small text_small taken, rfl⟩
  | ok next =>
    rw [EditCursor.attempt_of_ok taken] at next_small
    obtain ⟨w', made, same⟩ :=
      replace_of_ok h source_small text_small edit_small next_small taken
    exact ⟨.ok w', made, congrArg Except.ok same⟩

theorem attempt_exact (h : Tracks source done rest front w.cursor)
    (source_small : source.size ≤ Word.limit) (text_small : w.text.size ≤ Word.limit)
    (edit_small : e.text.size ≤ Word.limit)
    (next_small : (w.cursor.attempt e.edit).text.size ≤ Word.limit) :
    ∃ w', w.attempt e = .ok w' ∧ w'.cursor = w.cursor.attempt e.edit := by
  obtain ⟨result, made, same⟩ :=
    replace_exact h source_small text_small edit_small next_small
  cases result with
  | error fault =>
    refine ⟨w, by rw [attempt, made]; rfl, ?_⟩
    exact (EditCursor.attempt_of_error same.symm).symm
  | ok next =>
    refine ⟨next, by rw [attempt, made]; rfl, ?_⟩
    exact (EditCursor.attempt_of_ok same.symm).symm

theorem run_exact (h : Tracks source done rest front w.cursor)
    (source_small : source.size ≤ Word.limit) (text_small : w.text.size ≤ Word.limit)
    (edits : List WordEdit)
    (small : ∀ t ∈ w.cursor.textsMet (edits.map WordEdit.edit), t.size ≤ Word.limit) :
    ∃ w', w.run edits = .ok w' ∧ w'.cursor = w.cursor.run (edits.map WordEdit.edit) ∧
      w'.text.size ≤ Word.limit := by
  induction edits generalizing done rest front w with
  | nil => exact ⟨w, rfl, rfl, text_small⟩
  | cons e es ih =>
    simp only [List.map_cons, textsMet, List.mem_cons, forall_eq_or_imp] at small
    obtain ⟨edit_small, next_small, later_small⟩ := small
    obtain ⟨next, made, same⟩ := attempt_exact h source_small text_small edit_small next_small
    obtain ⟨done', rest', front', tracks⟩ := h.run_tracks [e.edit]
    rw [← same] at next_small later_small
    have tracks : Tracks source done' rest' front' next.cursor := by
      rw [same]
      exact tracks
    obtain ⟨w', ran, ended, ended_small⟩ := ih tracks next_small later_small
    refine ⟨w', ?_, ?_, ended_small⟩
    · rw [run, List.foldlM_cons, made]
      exact ran
    · rw [ended, same, List.map_cons, EditCursor.run_cons]

/-- After any run of edits whose texts a signed word can count, a further edit is taken or refused
over words as it is over numbers: no cast changes a value, no sum or difference overflows, and no
range is taken out that does not lie in the text between characters. Where the places of the edit's
ends are computed, they are exact, in order and within the edited text. -/
theorem words_exact (source : Text) (before : List WordEdit) (e : WordEdit)
    (small : ∀ t ∈ source ::
      (EditCursor.start source).textsMet ((before ++ [e]).map WordEdit.edit),
      t.size ≤ Word.limit) :
    ∃ w, (start source).run before = .ok w ∧
      w.cursor = (EditCursor.start source).run (before.map WordEdit.edit) ∧
      (∃ result, w.replace e = .ok result ∧ result.map cursor = w.cursor.replace e.edit) ∧
      (w.InReach e → ∃ first last, w.Shifts e first last) := by
  simp only [List.map_append, EditCursor.textsMet_append, List.mem_cons, List.mem_append,
    List.map_cons, List.map_nil, textsMet, List.not_mem_nil, or_false] at small
  have source_small : source.size ≤ Word.limit := small source (by simp)
  have begun := start_cursor source_small
  have tracks : EditCursor.Tracks source [] source [] (start source).cursor := by
    rw [begun]
    exact EditCursor.start_tracks source
  obtain ⟨w, ran, ended, text_small⟩ := run_exact tracks source_small source_small before (by
    intro t member
    rw [begun] at member
    exact small t (Or.inr (Or.inl member)))
  obtain ⟨_, _, _, tracks⟩ := tracks.run_tracks (before.map WordEdit.edit)
  rw [← ended] at tracks
  rw [begun] at ended
  rw [← ended] at small
  have edit_small : e.text.size ≤ Word.limit := small _ (by simp [WordEdit.edit])
  have next_small := small (w.cursor.attempt e.edit).text (by simp)
  refine ⟨w, ran, ended, ?_, ?_⟩
  · exact replace_exact tracks source_small text_small edit_small next_small
  · intro reach
    exact exists_shifts tracks source_small text_small reach

/-- The text is edited down to nothing, between edits at the ends of the range of words. -/
theorem emptied_text_exact :
    let source : Text := ['é', 'a', 'b']
    let before : List WordEdit := [⟨0, 2, []⟩,
      ⟨9223372036854775808, 18446744073709551615, ['x']⟩, ⟨2, 4, []⟩,
      ⟨18446744073709551615, 0, ['y']⟩]
    let last : WordEdit := ⟨4, 4, ['é']⟩
    (∀ t ∈ source :: (EditCursor.start source).textsMet ((before ++ [last]).map WordEdit.edit),
      t.size ≤ Word.limit) ∧
    ∃ w, (start source).run before = .ok w ∧ w.text = [] ∧ w.shift = -4 ∧ w.InReach last ∧
      (∃ first stop, w.Shifts last first stop) ∧
      w.replace last = .ok (.ok ⟨['é'], 4, -2, 4⟩) := by
  intro source before last
  have small : ∀ t ∈ source ::
      (EditCursor.start source).textsMet ((before ++ [last]).map WordEdit.edit),
      t.size ≤ Word.limit := by decide
  obtain ⟨w, ran, -, -, places⟩ := words_exact source before last small
  have emptied : (start source).run before = .ok ⟨[], 4, -4, 4⟩ := by decide
  rw [emptied] at ran
  cases ran
  have reach : InReach ⟨[], 4, -4, 4⟩ last := ⟨by decide, by decide, by decide⟩
  exact ⟨small, _, emptied, rfl, rfl, reach, places reach, by decide⟩

/-- Without the checks that come first the cast of a large offset would change it. -/
example : (start ['a']).shifted 9223372036854775808 = .error .cast := by decide

end WordCursor
end RequireInjection
