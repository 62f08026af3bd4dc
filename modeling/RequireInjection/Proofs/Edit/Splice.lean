import Mathlib.Algebra.Ring.Int.Defs
import RequireInjection.Edit

namespace RequireInjection

namespace Text

/-- The text between a place and the first edit, the edit's text, and so on up to the end. -/
def splice (source : Text) : Nat → List Edit → Text
  | place, [] => source.slice place source.size
  | place, e :: es => source.slice place e.start ++ (e.text ++ splice source e.stop es)

def replaceRange (t : Text) (e : Edit) : Text :=
  t.slice 0 e.start ++ (e.text ++ t.slice e.stop t.size)

/-- The last edit is made first, so that the places of the others stay where they were. -/
def spliceBackwards (source : Text) (edits : List Edit) : Text :=
  edits.foldr (fun e t => t.replaceRange e) source

end Text

namespace Edit

def growth (e : Edit) : Int := (e.text.size : Int) - ((e.stop : Int) - e.start)

/-- The edit's range lies in the source, behind a place, and ends between characters. -/
structure Fits (source : Text) (place : Nat) (e : Edit) : Prop where
  behind : place ≤ e.start
  ordered : e.start ≤ e.stop
  inside : e.stop ≤ source.size
  start_boundary : source.IsBoundary e.start
  stop_boundary : source.IsBoundary e.stop

/-- Every edit fits behind the one before it. -/
def AllFit (source : Text) : Nat → List Edit → Prop
  | _, [] => True
  | place, e :: es => e.Fits source place ∧ AllFit source e.stop es

end Edit

namespace Text

theorem cut_behind {done rest : Text} {n : Nat} (h : (done ++ rest).IsBoundary n)
    (behind : done.size ≤ n) : ∃ gap after, rest = gap ++ after ∧ n = done.size + gap.size := by
  obtain ⟨pre, post, same, rfl⟩ := isBoundary_iff.mp h
  rcases List.append_eq_append_iff.mp same with ⟨gap, hpre, hrest⟩ | ⟨back, hdone, hpost⟩
  · exact ⟨gap, post, hrest, by rw [hpre, size_append]⟩
  · have sizes : done.size = pre.size + size back := by rw [hdone, size_append]
    have nothing : back = [] := size_eq_zero.mp (by omega)
    subst back
    exact ⟨[], rest, rfl, by simp at sizes; simp [sizes]⟩

theorem append_inj_size {a b a' b' : Text} (same : a ++ b = a' ++ b') (sizes : a.size = a'.size) :
    b = b' := by
  rcases List.append_eq_append_iff.mp same with ⟨gap, ha, hb⟩ | ⟨gap, ha, hb⟩
  · rw [ha, size_append] at sizes
    have nothing : gap = [] := size_eq_zero.mp (by omega)
    simpa [nothing] using hb
  · rw [ha, size_append] at sizes
    have nothing : gap = [] := size_eq_zero.mp (by omega)
    simpa [nothing] using hb.symm

theorem slice_behind (done gap after : Text) {stop : Nat} (h : stop = done.size + gap.size) :
    slice (done ++ (gap ++ after)) done.size stop = gap := by
  subst stop
  exact slice_append done gap after

theorem slice_rest (done rest : Text) :
    slice (done ++ rest) done.size (size (done ++ rest)) = rest := by
  have whole := slice_behind done rest [] (size_append done rest)
  rwa [List.append_nil] at whole

theorem slice_front (front after : Text) : slice (front ++ after) 0 front.size = front := by
  have whole := slice_behind [] front after (show front.size = size [] + front.size by simp)
  simpa using whole

end Text

namespace Edit

theorem Fits.cut {done rest : Text} {e : Edit} (h : e.Fits (done ++ rest) done.size) :
    ∃ gap mid after, rest = gap ++ (mid ++ after) ∧ e.start = done.size + gap.size ∧
      e.stop = done.size + gap.size + mid.size := by
  obtain ⟨gap, behind, hrest, hstart⟩ := Text.cut_behind h.start_boundary h.behind
  have stop_boundary := h.stop_boundary
  rw [hrest, ← List.append_assoc] at stop_boundary
  have reaches : Text.size (done ++ gap) ≤ e.stop := by
    have := h.ordered
    rw [Text.size_append]
    omega
  obtain ⟨mid, after, hbehind, hstop⟩ := Text.cut_behind stop_boundary reaches
  rw [Text.size_append] at hstop
  exact ⟨gap, mid, after, by rw [hrest, hbehind], hstart, hstop⟩

theorem AllFit.cut {source done rest : Text} {e : Edit} {es : List Edit}
    (hsource : source = done ++ rest) (fit : AllFit source done.size (e :: es)) :
    ∃ gap mid after, rest = gap ++ (mid ++ after) ∧ e.start = done.size + gap.size ∧
      e.stop = Text.size (done ++ (gap ++ mid)) ∧ source = (done ++ (gap ++ mid)) ++ after ∧
      AllFit source (Text.size (done ++ (gap ++ mid))) es := by
  obtain ⟨first, others⟩ := fit
  rw [hsource] at first
  obtain ⟨gap, mid, after, hrest, hstart, hstop⟩ := first.cut
  have reached : e.stop = Text.size (done ++ (gap ++ mid)) := by
    simp only [Text.size_append]
    omega
  exact ⟨gap, mid, after, hrest, hstart, reached, by simp [hsource, hrest], reached ▸ others⟩

theorem fits_of_cut {done gap mid after : Text} {e : Edit}
    (hstart : e.start = done.size + gap.size)
    (hstop : e.stop = done.size + gap.size + mid.size) :
    e.Fits (done ++ (gap ++ (mid ++ after))) done.size where
  behind := by omega
  ordered := by omega
  inside := by simp only [Text.size_append]; omega
  start_boundary := Text.isBoundary_iff.mpr
    ⟨done ++ gap, mid ++ after, by simp, by rw [Text.size_append, hstart]⟩
  stop_boundary := Text.isBoundary_iff.mpr
    ⟨done ++ (gap ++ mid), after, by simp, by simp only [Text.size_append]; omega⟩

end Edit

namespace Text

theorem splice_nil (done rest : Text) : splice (done ++ rest) done.size [] = rest :=
  slice_rest done rest

theorem splice_cons {done gap mid after : Text} {e : Edit} {es : List Edit}
    (hstart : e.start = done.size + gap.size) :
    splice (done ++ (gap ++ (mid ++ after))) done.size (e :: es) =
      gap ++ (e.text ++ splice (done ++ (gap ++ (mid ++ after))) e.stop es) := by
  rw [splice, slice_behind done gap (mid ++ after) hstart]

theorem splice_around {source done rest : Text} {before after : List Edit} {e : Edit}
    (hsource : source = done ++ rest) (fit : Edit.AllFit source done.size (before ++ e :: after)) :
    ∃ front behind, source.splice done.size (before ++ e :: after) = front ++ (e.text ++ behind) ∧
      (front.size : Int) = (e.start : Int) - done.size + (before.map Edit.growth).sum := by
  induction before generalizing done rest with
  | nil =>
    obtain ⟨gap, mid, behind, rfl, hstart, -⟩ := fit.cut hsource
    refine ⟨gap, source.splice e.stop after, ?_, ?_⟩
    · rw [List.nil_append, hsource, splice_cons hstart]
    · simp only [List.map_nil, List.sum_nil]
      omega
  | cons d ds ih =>
    obtain ⟨gap, mid, behind, rfl, hstart, reached, cut, others⟩ := fit.cut hsource
    -- from the end of the first edit on, the others stand in the splice of the rest
    obtain ⟨front, last, whole, place⟩ := ih cut others
    rw [← reached] at whole place
    refine ⟨gap ++ (d.text ++ front), last, ?_, ?_⟩
    · rw [List.cons_append, hsource, splice_cons hstart, ← hsource, whole]
      simp
    · simp only [List.map_cons, List.sum_cons, size_append, Edit.growth, Int.natCast_add]
      omega

theorem splice_backwards_from {source done rest : Text} {edits : List Edit}
    (hsource : source = done ++ rest) (fit : Edit.AllFit source done.size edits) :
    source.spliceBackwards edits = done ++ source.splice done.size edits := by
  induction edits generalizing done rest with
  | nil =>
    rw [hsource, splice_nil]
    rfl
  | cons e es ih =>
    obtain ⟨gap, mid, after, rfl, hstart, reached, cut, others⟩ := fit.cut hsource
    -- The later edits are made already and have left all up to the end of this one alone.
    have later := ih cut others
    rw [← reached] at later
    have front_cut : slice (done ++ (gap ++ mid) ++ splice source e.stop es) 0 e.start =
        done ++ gap := by
      have := slice_front (done ++ gap) (mid ++ splice source e.stop es)
      rw [size_append, ← hstart] at this
      simpa using this
    have back_cut : slice (done ++ (gap ++ mid) ++ splice source e.stop es) e.stop
        (size (done ++ (gap ++ mid) ++ splice source e.stop es)) = splice source e.stop es := by
      have := slice_rest (done ++ (gap ++ mid)) (splice source e.stop es)
      rwa [← reached] at this
    have one : source.spliceBackwards (e :: es) = replaceRange (source.spliceBackwards es) e := rfl
    rw [one, later, replaceRange, front_cut, back_cut, hsource, splice_cons hstart, ← hsource]
    simp

theorem splice_backwards_eq {source : Text} {edits : List Edit}
    (fit : Edit.AllFit source 0 edits) : source.spliceBackwards edits = source.splice 0 edits := by
  have whole := splice_backwards_from (show source = [] ++ source from rfl) (by simpa using fit)
  simpa using whole

end Text
end RequireInjection
