import Mathlib.Data.List.TakeWhile
import RequireInjection.Script.Semicolon

namespace RequireInjection.Script

structure BeginsToken (c : Char) : Prop where
  not_blank : isBlank c = false
  not_slash : c ≠ '/'
  not_brace : c ≠ '\x7d'
  not_null : c.toNat ≠ 0

theorem isBlank_of_ascii {c : Char} (ascii : isAsciiBlank c) : isBlank c := by
  simp [isBlank, ascii]

theorem asciiBlank_bounds {c : Char} (ascii : isAsciiBlank c) : 9 ≤ c.toNat ∧ c.toNat ≤ 32 := by
  simp only [isAsciiBlank, Bool.or_eq_true, beq_iff_eq, decide_eq_true_eq, Bool.and_eq_true]
    at ascii
  omega

theorem lineBreak_of_ascii {c : Char} (ascii : isAsciiBlank c) : isLineBreak c = (c == '\n') := by
  have bounds := asciiBlank_bounds ascii
  have low : (c.toNat == 0x2028) = false ∧ (c.toNat == 0x2029) = false := by
    simp only [beq_eq_false_iff_ne]
    omega
  simp [isLineBreak, low]

variable {c : Char} {t blanks : Text}

theorem BeginsToken.not_ascii (token : BeginsToken c) : isAsciiBlank c = false := by
  have blank := token.not_blank
  simp only [isBlank, Bool.or_eq_false_iff] at blank
  exact blank.1.1.1.1.1.1

theorem BeginsToken.not_lineBreak (token : BeginsToken c) : isLineBreak c = false := by
  have ascii := token.not_ascii
  have blank := token.not_blank
  simp only [isBlank, Bool.or_eq_false_iff] at blank
  have other : c ≠ '\n' := by
    rintro rfl
    exact absurd ascii (by decide)
  simp [isLineBreak, other, blank.1.1.1.2, blank.1.1.2]

theorem dropWhile_blanks {p : Char → Bool} (blank : ∀ b ∈ blanks, p b) (stops : p c = false) :
    (blanks ++ c :: t).dropWhile p = c :: t := by
  rw [List.dropWhile_append_of_pos blank]
  simp [stops]

theorem pass_blanks (token : BeginsToken c) (ascii : ∀ b ∈ blanks, isAsciiBlank b) (n : Nat) :
    pass true (n + 1) false (blanks ++ c :: t) = .passed (c :: t) := by
  have skipped := dropWhile_blanks (t := t) ascii token.not_ascii
  simp only [pass, skipped]
  split
  · rename_i h
    exact absurd (List.cons.inj h).1 token.not_slash
  · rename_i h
    exact absurd (List.cons.inj h).1 token.not_slash
  · rename_i h
    exact absurd (List.cons.inj h).1 token.not_slash
  · rfl

theorem endsHereWithin_blanks (token : BeginsToken c) (ascii : ∀ b ∈ blanks, isAsciiBlank b)
    (afterOperand : Bool) {n : Nat} (enough : blanks.length < n) :
    endsHereWithin afterOperand n (blanks ++ c :: t) =
      (decide ('\n' ∈ blanks) && beginsStatement (c :: t)) := by
  induction blanks generalizing n with
  | nil =>
    obtain ⟨n, rfl⟩ : ∃ m, n = m + 1 := ⟨n - 1, by simp at enough; omega⟩
    simp [endsHereWithin, token.not_null, token.not_slash, token.not_brace, token.not_lineBreak,
      token.not_ascii]
  | cons b bs ih =>
    obtain ⟨n, rfl⟩ : ∃ m, n = m + 1 := ⟨n - 1, by simp at enough; omega⟩
    have blank : isAsciiBlank b := ascii b List.mem_cons_self
    have others : ∀ d ∈ bs, isAsciiBlank d := fun d hd => ascii d (List.mem_cons_of_mem b hd)
    have bounds := asciiBlank_bounds blank
    have not_null : b.toNat ≠ 0 := by omega
    have not_slash : b ≠ '/' := by
      rintro rfl
      exact absurd bounds (by decide)
    have not_brace : b ≠ '\x7d' := by
      rintro rfl
      exact absurd bounds (by decide)
    have later := @ih others n (by simp at enough; omega)
    have onward : endsHereWithin afterOperand (n + 1) (b :: bs ++ c :: t) =
        if b = '\n' then beginsStatement (c :: t)
        else endsHereWithin afterOperand n (bs ++ c :: t) := by
      have rest : (bs ++ c :: t).length = (bs.length + t.length) + 1 := by
        rw [List.length_append, List.length_cons, Nat.add_assoc]
      simp only [List.cons_append, endsHereWithin, beq_iff_eq, not_null, not_slash, not_brace,
        lineBreak_of_ascii blank, rest, pass_blanks token others, blank, if_false, if_true]
    -- behind a line break the other blanks are passed at once; any other blank is passed alone
    rw [onward]
    split
    · rename_i break_here
      simp [break_here]
    · rename_i no_break
      rw [later]
      simp [Ne.symm no_break]

theorem comment_eq_zero (token : BeginsToken c) : comment false (c :: t) = 0 := by
  unfold comment
  split
  · rename_i h
    exact absurd (List.cons.inj h).1 token.not_slash
  · rename_i h
    exact absurd (List.cons.inj h).1 token.not_slash
  · rfl
  · rfl
  · rfl

/-- Behind blanks a statement ends before a token if a line break is among them and the token can
begin a statement. -/
theorem endsHere_blanks (token : BeginsToken c) (ascii : ∀ b ∈ blanks, isAsciiBlank b)
    (afterOperand : Bool) : endsHere afterOperand (blanks ++ c :: t) =
      (decide ('\n' ∈ blanks) && beginsStatement (c :: t)) := by
  have within := endsHereWithin_blanks (t := t) token ascii afterOperand
    (n := (blanks ++ c :: t).length + 1) (by rw [List.length_append]; omega)
  have skipped := dropWhile_blanks (t := t) (fun b member => isBlank_of_ascii (ascii b member))
    token.not_blank
  have proper : (blanks ++ c :: t).length = (blanks.length + t.length) + 1 := by
    rw [List.length_append, List.length_cons, Nat.add_assoc]
  rw [endsHere, proper, endsHereOrAfterComment, within, skipped]
  simp [comment_eq_zero token]

/-- An opening bracket goes on with the statement before it, on whatever line it stands. -/
theorem endsHere_bracket (ascii : ∀ b ∈ blanks, isAsciiBlank b) (afterOperand : Bool) :
    endsHere afterOperand (blanks ++ '(' :: t) = false := by
  rw [endsHere_blanks ⟨by decide, by decide, by decide, by decide⟩ ascii]
  simp [beginsStatement]

end RequireInjection.Script
