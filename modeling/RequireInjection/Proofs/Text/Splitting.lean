import Mathlib.Data.List.TakeWhile
import RequireInjection.Text

namespace RequireInjection
namespace Text

variable {c : Char} {t before after : Text}

theorem splitBy_eq_splitOnP (p : Char → Bool) (t : Text) : splitBy p t = t.splitOnP p := by
  induction t with
  | nil => rfl
  | cons d ds ih =>
    rw [splitBy, List.splitOnP_cons_eq_if_modifyHead, ih]
    by_cases separates : p d
    · rw [if_pos separates, if_pos separates]
    · rw [if_neg separates, if_neg separates]
      cases parts : ds.splitOnP p with
      | nil => exact absurd parts (List.splitOnP_ne_nil p ds)
      | cons part parts => rfl

theorem splitOnce_of_notMem (absent : c ∉ t) : splitOnce c t = none := by
  induction t with
  | nil => rfl
  | cons d ds ih =>
    obtain ⟨other, later⟩ := not_or.mp (mt List.mem_cons.mpr absent)
    rw [splitOnce, if_neg (Ne.symm other), ih later]
    rfl

theorem splitOnce_append (absent : c ∉ before) :
    splitOnce c (before ++ c :: after) = some (before, after) := by
  induction before with
  | nil => simp [splitOnce]
  | cons d ds ih =>
    obtain ⟨other, later⟩ := not_or.mp (mt List.mem_cons.mpr absent)
    rw [List.cons_append, splitOnce, if_neg (Ne.symm other), ih later]
    rfl

theorem notMem_or_eq_append (c : Char) (t : Text) :
    c ∉ t ∨ ∃ before after, t = before ++ c :: after ∧ c ∉ before := by
  by_cases present : c ∈ t
  · obtain ⟨before, after, whole, absent⟩ := List.eq_append_cons_of_mem present
    exact Or.inr ⟨before, after, whole, absent⟩
  · exact Or.inl present

theorem takeWhile_before (absent : c ∉ before) :
    (before ++ c :: after).takeWhile (· ≠ c) = before := by
  have kept : ∀ d ∈ before, (decide (d ≠ c)) = true := by
    intro d member
    exact decide_eq_true fun same => absent (same ▸ member)
  rw [List.takeWhile_append_of_pos kept]
  simp

theorem takeWhile_of_notMem (absent : c ∉ t) : t.takeWhile (· ≠ c) = t := by
  refine List.takeWhile_eq_self_iff.mpr fun d member => ?_
  exact decide_eq_true fun same => absent (same ▸ member)

end Text
end RequireInjection
