import RequireInjection.Proofs.CallPattern.Leftmost
import RequireInjection.Proofs.Edit.Run
import RequireInjection.Proofs.Wrapping.Lookups

namespace RequireInjection

open CallPattern

/-- What a look-up has in front of the call. -/
def lookupFront (key : Text) : Text := ("(injections[" : Text) ++ key ++ ("] || " : Text)

theorem lookup_eq (key call : Text) : lookup key call = lookupFront key ++ (call ++ [')']) :=
  List.append_assoc (lookupFront key) call [')']

/-- The edits of the wrapped text that take out what the look-ups have around the calls. The
look-ups of earlier calls have moved these by the given number of bytes. -/
def removals (grown : Nat) : List Match → List Edit
  | [] => []
  | m :: ms =>
    let front := m.start + grown
    let call := front + (lookupFront m.argument).size
    let back := call + m.text.size
    ⟨front, call, []⟩ :: ⟨back, back + 1, []⟩ ::
      removals (grown + (lookupFront m.argument).size + 1) ms

/-- The edits fit behind the place; they take out the parts, and of what is behind the place they
leave the rest. -/
structure TakesOut (source : Text) (place : Nat) (edits : List Edit) (parts : List Text)
    (left : Text) : Prop where
  fit : Edit.AllFit source place edits
  parts_eq : edits.map (fun e => source.slice e.start e.stop) = parts
  left_eq : source.splice place edits = left

theorem takesOut_nil (done rest : Text) : TakesOut (done ++ rest) done.size [] [] rest where
  fit := trivial
  parts_eq := rfl
  left_eq := Text.splice_nil done rest

theorem TakesOut.cons {source done gap mid after left : Text} {start stop : Nat}
    {es : List Edit} {parts : List Text} (h : TakesOut source stop es parts left)
    (hsource : source = done ++ (gap ++ (mid ++ after))) (hstart : start = done.size + gap.size)
    (hstop : stop = done.size + gap.size + mid.size) :
    TakesOut source done.size (⟨start, stop, []⟩ :: es) (mid :: parts) (gap ++ left) := by
  constructor
  · refine ⟨?_, h.fit⟩
    rw [hsource]
    exact Edit.fits_of_cut hstart hstop
  · have around := Text.slice_append (done ++ gap) mid after
    rw [Text.size_append, ← hstop, ← hstart, List.append_assoc, ← hsource] at around
    rw [List.map_cons, around, h.parts_eq]
  · rw [hsource, Text.splice_cons hstart, ← hsource, h.left_eq]
    rfl

theorem TakesOut.around {done gap front call rest left : Text} {start : Nat} {es : List Edit}
    {parts : List Text} (hstart : start = done.size + gap.size)
    (h : TakesOut (done ++ (gap ++ (front ++ (call ++ ')' :: rest))))
      (start + front.size + call.size + 1) es parts left) :
    TakesOut (done ++ (gap ++ (front ++ (call ++ ')' :: rest)))) done.size
      (⟨start, start + front.size, []⟩ ::
        ⟨start + front.size + call.size, start + front.size + call.size + 1, []⟩ :: es)
      (front :: [')'] :: parts) (gap ++ (call ++ left)) := by
  have closing : Text.size [')'] = 1 := rfl
  have opened : Text.size (done ++ (gap ++ front)) = start + front.size := by
    simp only [Text.size_append]
    omega
  have inside : done ++ (gap ++ (front ++ (call ++ ')' :: rest))) =
      (done ++ (gap ++ front)) ++ (call ++ ([')'] ++ rest)) := by
    simp only [List.append_assoc, List.cons_append, List.nil_append]
  have back := h.cons inside
    (show start + front.size + call.size = _ by rw [opened])
    (by rw [opened, closing])
  rw [opened] at back
  exact back.cons rfl hstart (by rw [hstart])

theorem takesOut_removals (done gap : Text) (ps : List Piece) {offset grown : Nat}
    (place : offset + grown = done.size + gap.size) :
    TakesOut (done ++ (gap ++ ps.flatMap Piece.wrapped)) done.size
      (removals grown (matchesFrom offset ps))
      ((matchesFrom offset ps).flatMap fun m => [lookupFront m.argument, [')']])
      (gap ++ ps.flatMap Piece.text) := by
  induction ps generalizing done gap offset grown with
  | nil => exact takesOut_nil done (gap ++ [])
  | cons piece ps ih =>
    cases piece with
    | plain c =>
      have moved : offset + c.utf8Size + grown = done.size + Text.size (gap ++ [c]) := by
        simp only [Text.size_append, Text.size_cons, Text.size_nil]
        omega
      have later := ih done (gap ++ [c]) moved
      simpa [matchesFrom, Piece.text, Piece.wrapped] using later
    -- A call gives two removals; behind them `grown` has risen by what both take out.
    | call a =>
      let call := (Piece.call a).text
      let rest := ps.flatMap Piece.wrapped
      let behind := done ++ (gap ++ (lookupFront a ++ (call ++ [')'])))
      have behind_size : behind.size = offset + grown + (lookupFront a).size + call.size + 1 := by
        have closing : Text.size [')'] = 1 := rfl
        simp only [behind, Text.size_append, closing]
        omega
      have whole : done ++ (gap ++ (lookupFront a ++ (call ++ ')' :: rest))) = behind ++ rest := by
        simp only [behind, List.append_assoc, List.cons_append, List.nil_append]
      have wrapped : (Piece.call a :: ps).flatMap Piece.wrapped =
          lookupFront a ++ (call ++ ')' :: rest) := by
        simp only [List.flatMap_cons, Piece.wrapped, lookup_eq, call, rest, List.append_assoc,
          List.cons_append, List.nil_append]
      have moved : offset + call.size + (grown + (lookupFront a).size + 1) =
          behind.size + Text.size [] := by
        rw [behind_size, Text.size_nil]
        omega
      have later := ih behind [] moved
      rw [List.nil_append, List.nil_append, behind_size, ← whole] at later
      rw [wrapped]
      exact later.around place

/-- With the edits of a filter set's calls the cursor takes every look-up and ends with the wrapped
text, which is also their one-pass splice. In it, what precedes and follows the calls in the
look-ups stands at the places moved by the look-ups before; with these parts taken out it is the
source. -/
theorem wrapping_only_inserts (filters : FilterSet) (source : Text) :
    let found := (ofFilters filters).calls source
    let wrapped := wrap (ofFilters filters) source
    (∀ m ∈ found, source.slice m.start m.stop = m.text) ∧
      wrapped = source.splice 0 (found.map Match.edit) ∧
      (∃ c, (EditCursor.start source).replaceAll (found.map Match.edit) = .ok c ∧
        c.text = wrapped) ∧
      (removals 0 found).map (fun e => wrapped.slice e.start e.stop) =
        found.flatMap (fun m => [lookupFront m.argument, [')']]) ∧
      ∃ c, (EditCursor.start wrapped).replaceAll (removals 0 found) = .ok c ∧ c.text = source := by
  intro found wrapped
  obtain ⟨spliced, fit⟩ := wrap_eq_splice (ofFilters filters) source
  have taken := takesOut_removals [] [] ((ofFilters filters).pieces source)
    (show 0 + 0 = Text.size [] + Text.size [] by rfl)
  rw [List.nil_append, List.nil_append, List.nil_append, pieces_text] at taken
  refine ⟨?_, spliced, ?_, taken.parts_eq, ?_⟩
  · intro m member
    exact ((calls_leftmost _ source).is_match m member).slice_text
  · obtain ⟨c, through, text⟩ := EditCursor.replaceAll_of_fit fit
    exact ⟨c, through, text.trans spliced.symm⟩
  · obtain ⟨c, through, text⟩ := EditCursor.replaceAll_of_fit taken.fit
    exact ⟨c, through, text.trans taken.left_eq⟩

end RequireInjection
