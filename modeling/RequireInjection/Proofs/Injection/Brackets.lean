import RequireInjection.Proofs.CallPattern.Pieces
import RequireInjection.Proofs.ContextCall.Outermost
import RequireInjection.Proofs.Script.TallyRun

namespace RequireInjection

open Script

namespace Script.Tally

theorem between_round {a : Text} (opening : '(' ∉ a) (closing : ')' ∉ a) {x : List Char}
    (above : ')' ∉ x) (st : List Char) (n : Nat) :
    ((⟨some (x ++ ')' :: st), n⟩ : Tally).afterAll a).due = none ∨
      ∃ y, ')' ∉ y ∧ ∀ b m, b ≠ [] →
        (⟨some (x ++ b), m⟩ : Tally).afterAll a = ⟨some (y ++ b), m⟩ := by
  -- The induction keeps in `x` what the text has opened so far: only a `)` could reach below it.
  induction a generalizing x with
  | nil => exact Or.inr ⟨x, above, fun _ _ _ => rfl⟩
  | cons c cs ih =>
    simp only [List.mem_cons, not_or] at opening closing
    have later := @ih opening.2 closing.2
    by_cases square : c = '['
    · subst square
      exact later (x := ']' :: x) (by simp [above])
    by_cases brace : c = '\x7b'
    · subst brace
      exact later (x := '\x7d' :: x) (by simp [above])
    -- A closing bracket takes the last one off `x`, or it is a wrong one.
    by_cases closes : c = ']' ∨ c = '\x7d'
    · have step : ∀ t : Tally, t.after c = t.closed c := by
        intro t
        rcases closes with rfl | rfl <;> rfl
      cases x with
      | nil =>
        have other : ')' ≠ c := fun same => closing.1 same
        left
        rw [afterAll_cons, step]
        have wrong : ((⟨some ([] ++ ')' :: st), n⟩ : Tally).closed c).due = none := by
          simp [closed, other]
        rw [afterAll_of_none wrong, wrong]
      | cons d x =>
        have above := fun member => above (List.mem_cons_of_mem d member)
        by_cases same : d = c
        · subst same
          have popped : ∀ b m, (⟨some (d :: x ++ b), m⟩ : Tally).after d = ⟨some (x ++ b), m⟩ := by
            intro b m
            simp [step, closed]
          simp only [afterAll_cons, popped]
          exact later above
        · left
          rw [afterAll_cons, step]
          have wrong : ((⟨some (d :: x ++ ')' :: st), n⟩ : Tally).closed c).due = none := by
            simp [closed, same]
          rw [afterAll_of_none wrong, wrong]
    · have kept : ∀ b m, b ≠ [] → (⟨some (x ++ b), m⟩ : Tally).after c = ⟨some (x ++ b), m⟩ := by
        intro b m inside
        have opens : c ≠ '(' := fun same => opening.1 same.symm
        have shuts : c ≠ ')' := fun same => closing.1 same.symm
        simp only [not_or] at closes
        simp [after, opens, shuts, square, brace, closes, ended, AtTop, inside]
      rw [afterAll_cons, kept _ _ (by simp)]
      rcases later above with wrong | ⟨y, behind, same⟩
      · exact Or.inl wrong
      · refine Or.inr ⟨y, behind, fun b m inside => ?_⟩
        rw [afterAll_cons, kept b m inside, same b m inside]

theorem even_between {a : Text} (opening : '(' ∉ a) (closing : ')' ∉ a) {t : Tally}
    (proper : (((t.opened ')').afterAll a).closed ')').due ≠ none) (u : Tally)
    (inside : ¬ u.AtTop) : u.afterAll a = u := by
  obtain ⟨due, n⟩ := t
  cases due with
  | none =>
    rw [afterAll_of_none rfl] at proper
    exact absurd rfl proper
  | some st =>
    rcases between_round opening closing (x := []) (by simp) st n with wrong | ⟨y, above, same⟩
    · have opened : (⟨some st, n⟩ : Tally).opened ')' = ⟨some ([] ++ ')' :: st), n⟩ := rfl
      rw [opened, closed, wrong] at proper
      exact absurd rfl proper
    · have back := same (')' :: st) n (by simp)
      -- Whatever were left open would meet the `)` of the call, which is no bracket of its kind.
      have nothing : y = [] := by
        cases y with
        | nil => rfl
        | cons d y =>
          have other : d ≠ ')' := fun same => above (by simp [same])
          have opened : (⟨some st, n⟩ : Tally).opened ')' = ⟨some ([] ++ ')' :: st), n⟩ := rfl
          rw [opened, back] at proper
          simp [closed, other] at proper
      subst nothing
      obtain ⟨due, m⟩ := u
      cases due with
      | none => exact afterAll_of_none rfl a
      | some b => exact same b m fun empty => inside (by rw [empty]; rfl)

end Script.Tally

theorem afterAll_call (t : Tally) (argument : Text) :
    t.afterAll (Piece.call argument).text = ((t.opened ')').afterAll argument).closed ')' := by
  have opening : Piece.opening = "require(".toList := rfl
  simp [Piece.text, opening, Tally.after]

theorem afterAll_lookup (t : Tally) (key fallback : Text) :
    t.afterAll (lookup key fallback) = (((((t.opened ')').opened ']').afterAll key).closed
      ']').afterAll fallback).closed ')' := by
  unfold lookup
  simp [Tally.after]

/-- Wrapping calls whose arguments hold no round brackets changes no tally, as long as no wrong
bracket closes in the text. -/
theorem afterAll_wrapped {ps : List Piece}
    (round : ∀ a, Piece.call a ∈ ps → '(' ∉ a ∧ ')' ∉ a) {t : Tally}
    (proper : (t.afterAll (ps.flatMap Piece.text)).due ≠ none) :
    t.afterAll (ps.flatMap Piece.wrapped) = t.afterAll (ps.flatMap Piece.text) := by
  induction ps generalizing t with
  | nil => rfl
  | cons piece ps ih =>
    have later : ∀ {u : Tally}, (u.afterAll (ps.flatMap Piece.text)).due ≠ none →
        u.afterAll (ps.flatMap Piece.wrapped) = u.afterAll (ps.flatMap Piece.text) :=
      ih fun a member => round a (List.mem_cons_of_mem piece member)
    simp only [List.flatMap_cons, Tally.afterAll_append] at proper ⊢
    cases piece with
    | plain c => exact later proper
    | call a =>
      obtain ⟨opening, closing⟩ := round a List.mem_cons_self
      have going : (t.afterAll (Piece.call a).text).due ≠ none := by
        intro wrong
        rw [Tally.afterAll_of_none wrong] at proper
        exact proper wrong
      rw [afterAll_call] at going
      -- The brackets of the call show that the argument is even; so it is between any others.
      have even := Tally.even_between opening closing going
      have call : ∀ u : Tally, ¬ u.AtTop → u.afterAll (Piece.call a).text = u := by
        intro u inside
        rw [afterAll_call, even _ (by simp), Tally.closed_opened]
      rw [Piece.wrapped, afterAll_lookup, even _ (by simp), Tally.closed_opened,
        call _ (by simp), Tally.closed_opened]
      have same : t.afterAll (Piece.call a).text = t := by
        rw [afterAll_call, even _ (by simp), Tally.closed_opened]
      rw [same] at proper ⊢
      exact later proper

theorem afterAll_splice {source done rest : Text} {edits : List Edit}
    (hsource : source = done ++ rest) (fit : Edit.AllFit source done.size edits)
    (same : ∀ e ∈ edits, ∀ t : Tally, t.afterAll e.text = t.afterAll (source.slice e.start e.stop))
    (t : Tally) : t.afterAll (source.splice done.size edits) = t.afterAll rest := by
  induction edits generalizing done rest t with
  | nil => rw [hsource, Text.splice_nil]
  | cons e es ih =>
    obtain ⟨gap, mid, behind, rfl, hstart, reached, cut, others⟩ := fit.cut hsource
    have replaced : source.slice e.start e.stop = mid := by
      have place : source = (done ++ gap) ++ (mid ++ behind) := by simp [hsource]
      rw [place, hstart, ← Text.size_append]
      refine Text.slice_behind (done ++ gap) mid behind ?_
      simpa [Nat.add_assoc] using reached
    have here := same e List.mem_cons_self
    have later := ih cut others fun d member => same d (List.mem_cons_of_mem e member)
    rw [← reached] at later
    rw [hsource, Text.splice_cons hstart, ← hsource]
    simp only [Tally.afterAll_append, here, replaced, later]

/-- A text that closes all brackets that it opens and has no semicolon outside of them. -/
def EvensOut (text : Text) : Prop := ∀ t : Tally, t.afterAll text = t

theorem evensOut_keyedLookup {base name call : Text} (onBase : EvensOut base)
    (onName : EvensOut name) (onCall : EvensOut call) : EvensOut (keyedLookup base name call) := by
  intro t
  unfold keyedLookup
  simp [onBase _, onName _, onCall _, Tally.after]

theorem afterAll_resolved {source : Text} {tree : SyntaxTree source}
    (even : ∀ c ∈ outermostCalls tree, EvensOut c.base ∧ EvensOut c.name ∧ EvensOut c.call)
    (t : Tally) : t.afterAll (source.splice 0 (keyedEdits tree)) = t.afterAll source := by
  have fit := outermostCalls_fit tree
  rw [← keyedEdits_eq] at fit
  have whole : source = [] ++ source := rfl
  refine afterAll_splice whole fit (fun e member t => ?_) t
  obtain ⟨c, outer, rfl⟩ := List.mem_map.mp member
  obtain ⟨onBase, onName, onCall⟩ := even c outer
  rw [call_eq_slice tree outer] at onCall
  exact (evensOut_keyedLookup onBase onName onCall t).trans (onCall t).symm

end RequireInjection
