import Mathlib.Data.List.TakeWhile
import RequireInjection.CallPattern

namespace RequireInjection

namespace CallPattern

theorem quoted_begins {t path a : Text} (h : quoted? t path = some a) :
    ∃ rest, t = a ++ ')' :: rest := by
  unfold quoted? at h
  split at h
  · cases h
  · rename_i q rest
    split at h
    · split at h
      · rename_i q' after stripped
        split at h
        · cases h
          exact ⟨after, by rw [Text.eq_append_of_stripPrefix? stripped]; simp⟩
        · cases h
      · cases h
    · cases h

theorem anyArgument_begins {t a : Text} (h : anyArgument? t = some a) :
    ')' ∉ a ∧ ∃ rest, t = a ++ ')' :: rest := by
  simp only [anyArgument?] at h
  split at h
  · cases h
  · rename_i proper
    cases h
    have whole := List.takeWhile_append_dropWhile (p := (· ≠ ')')) (l := t)
    refine ⟨fun closing => by simpa using List.mem_takeWhile_imp closing, ?_⟩
    cases behind : t.dropWhile (· ≠ ')') with
    | nil =>
      rw [behind, List.append_nil] at whole
      rw [whole] at proper
      simp at proper
    | cons c rest =>
      have stops := List.head_dropWhile_not (l := t) (· ≠ ')') (by rw [behind]; simp)
      simp only [behind, List.head_cons] at stops
      rw [behind] at whole
      have closing : c = ')' := by simpa using stops
      rw [closing] at whole
      exact ⟨rest, whole.symm⟩

theorem argumentAt_begins {p : CallPattern} {t a : Text} (h : p.argumentAt? t = some a) :
    ∃ rest, t = (Piece.call a).text ++ rest := by
  simp only [argumentAt?] at h
  split at h
  · cases h
  · rename_i inner stripped
    have opened := Text.eq_append_of_stripPrefix? stripped
    have closed : ∃ rest, inner = a ++ ')' :: rest := by
      cases p with
      | anyArgument excluded => exact (anyArgument_begins (Option.filter_eq_some_iff.mp h).1).2
      | quotedPath paths =>
        obtain ⟨path, -, hpath⟩ := List.exists_of_findSome?_eq_some h
        exact quoted_begins hpath
    obtain ⟨rest, hinner⟩ := closed
    exact ⟨rest, by rw [opened, hinner]; simp [Piece.text]⟩

theorem scan_text (p : CallPattern) (t : Text) (skip : Nat) :
    (p.scan skip t).flatMap Piece.text = t.drop skip := by
  induction t generalizing skip with
  | nil => simp [scan]
  | cons c cs ih =>
    cases skip with
    | succ n => exact ih n
    | zero =>
      simp only [scan]
      split
      · rename_i a found
        obtain ⟨rest, whole⟩ := argumentAt_begins found
        obtain ⟨d, ds, hcall⟩ : ∃ d ds, (Piece.call a).text = d :: ds :=
          ⟨_, _, rfl⟩
        rw [hcall, List.cons_append, List.cons.injEq] at whole
        rw [List.flatMap_cons, ih, hcall, whole.1, whole.2]
        simp
      · simp [ih, Piece.text]

theorem pieces_text (p : CallPattern) (t : Text) : (p.pieces t).flatMap Piece.text = t :=
  p.scan_text t 0

theorem found_of_mem_scan {p : CallPattern} {t a : Text} {skip : Nat}
    (h : Piece.call a ∈ p.scan skip t) : ∃ t', p.argumentAt? t' = some a := by
  induction t generalizing skip with
  | nil => simp [scan] at h
  | cons c cs ih =>
    cases skip with
    | succ n => exact ih h
    | zero =>
      simp only [scan] at h
      split at h
      · rename_i b found
        rcases List.mem_cons.mp h with here | later
        · cases here
          exact ⟨c :: cs, found⟩
        · exact ih later
      · rcases List.mem_cons.mp h with here | later
        · cases here
        · exact ih later

theorem mem_matchesFrom {offset : Nat} {ps : List Piece} {m : Match}
    (h : m ∈ matchesFrom offset ps) : Piece.call m.argument ∈ ps := by
  induction ps generalizing offset with
  | nil => simp [matchesFrom] at h
  | cons piece ps ih =>
    cases piece with
    | plain c => exact List.mem_cons_of_mem _ (ih h)
    | call a =>
      rcases List.mem_cons.mp h with here | later
      · simp [here]
      · exact List.mem_cons_of_mem _ (ih later)

theorem closing_notMem_argument {excluded : List Text} {t : Text} {m : Match}
    (h : m ∈ (anyArgument excluded).calls t) : ')' ∉ m.argument := by
  obtain ⟨t', found⟩ := found_of_mem_scan (mem_matchesFrom h)
  simp only [argumentAt?] at found
  split at found
  · cases found
  · exact (anyArgument_begins (Option.filter_eq_some_iff.mp found).1).1

end CallPattern

end RequireInjection
