import RequireInjection.Proofs.CallPattern.Pieces
import RequireInjection.Proofs.Edit.Splice
import RequireInjection.Wrapping

namespace RequireInjection

open CallPattern

def CallPattern.Match.edit (m : Match) : Edit := ⟨m.start, m.stop, lookup m.argument m.text⟩

theorem splice_matchesFrom (done gap : Text) (ps : List Piece) :
    let source := done ++ (gap ++ ps.flatMap Piece.text)
    let edits := (matchesFrom (done.size + gap.size) ps).map Match.edit
    source.splice done.size edits = gap ++ ps.flatMap Piece.wrapped ∧
      Edit.AllFit source done.size edits := by
  induction ps generalizing done gap with
  | nil =>
    refine ⟨?_, trivial⟩
    have last := Text.splice_nil done (gap ++ [])
    simpa [matchesFrom] using last
  | cons piece ps ih =>
    cases piece with
    | plain c =>
      have later := ih done (gap ++ [c])
      have place : done.size + Text.size (gap ++ [c]) = done.size + gap.size + c.utf8Size := by
        simp only [Text.size_append, Text.size_cons, Text.size_nil]
        omega
      simp only [place] at later
      simpa [matchesFrom, Piece.text, Piece.wrapped] using later
    | call a =>
      intro source edits
      let call := (Piece.call a).text
      let m : Match := ⟨done.size + gap.size, a⟩
      have cut : source = done ++ (gap ++ (call ++ ps.flatMap Piece.text)) := by
        simp [source, call]
      have further : source = (done ++ (gap ++ call)) ++ ([] ++ ps.flatMap Piece.text) := by
        simp [cut]
      have reached : Text.size (done ++ (gap ++ call)) = m.edit.stop := by
        simp only [Text.size_append, Match.edit, Match.stop, Match.text, m, call]
        omega
      have stop : m.edit.stop = done.size + gap.size + call.size := rfl
      -- behind the call nothing lies between the place reached and the next piece
      obtain ⟨spliced, fit⟩ := ih (done ++ (gap ++ call)) []
      rw [← further, reached, Text.size_nil, Nat.add_zero] at spliced fit
      have split : edits = m.edit :: (matchesFrom m.edit.stop ps).map Match.edit := rfl
      constructor
      · rw [split, cut, Text.splice_cons rfl, ← cut, spliced]
        rfl
      · rw [split]
        refine ⟨?_, fit⟩
        rw [cut]
        exact Edit.fits_of_cut rfl stop

theorem wrap_eq_splice (p : CallPattern) (source : Text) :
    wrap p source = source.splice 0 ((p.calls source).map Match.edit) ∧
      Edit.AllFit source 0 ((p.calls source).map Match.edit) := by
  have whole := splice_matchesFrom [] [] (p.pieces source)
  simp only [List.nil_append, pieces_text, Text.size_nil, Nat.add_zero] at whole
  exact ⟨whole.1.symm, whole.2⟩

end RequireInjection
