import Mathlib.Data.List.Infix
import RequireInjection.Text

namespace RequireInjection
namespace Text

variable {s t p sub front : Text} {c : Char}

theorem startsWith_iff : startsWith t p ↔ p <+: t := by
  constructor
  · intro h
    obtain ⟨rest, stripped⟩ := Option.isSome_iff_exists.mp h
    exact ⟨rest, (eq_append_of_stripPrefix? stripped).symm⟩
  · rintro ⟨rest, rfl⟩
    rw [startsWith, stripPrefix?_append]
    rfl

theorem includes_iff : includes t sub ↔ sub <:+: t := by
  induction t with
  | nil => simp [includes]
  | cons d ds ih => rw [includes, Bool.or_eq_true, startsWith_iff, ih, List.infix_cons_iff]

theorem prefix_append_cons_iff (absent : c ∉ p) : p <+: s ++ c :: t ↔ p <+: s := by
  constructor
  · intro begins
    induction s generalizing p with
    | nil =>
      cases p with
      | nil => exact List.nil_prefix
      | cons d ds =>
        obtain ⟨rfl, -⟩ := List.cons_prefix_cons.mp begins
        exact absurd List.mem_cons_self absent
    | cons e es ih =>
      cases p with
      | nil => exact List.nil_prefix
      | cons d ds =>
        obtain ⟨rfl, behind⟩ := List.cons_prefix_cons.mp begins
        have inside := ih (fun later => absent (List.mem_cons_of_mem _ later)) behind
        exact List.cons_prefix_cons.mpr ⟨rfl, inside⟩
  · intro begins
    exact begins.trans (List.prefix_append _ _)

theorem infix_of_append_cons (absent : c ∉ sub) (h : sub <:+: s ++ c :: t) :
    sub <:+: s ∨ sub <:+: t := by
  obtain ⟨before, after, whole⟩ := h
  rw [List.append_assoc] at whole
  rcases List.append_eq_append_iff.mp whole with ⟨gap, hs, hsub⟩ | ⟨gap, hbefore, hc⟩
  · have inside := (prefix_append_cons_iff absent).mp (hsub ▸ List.prefix_append sub after)
    obtain ⟨rest, hgap⟩ := inside
    exact Or.inl ⟨before, rest, by rw [hs, ← hgap, List.append_assoc]⟩
  · cases gap with
    | nil =>
      cases sub with
      | nil => exact Or.inl List.nil_infix
      | cons d ds =>
        obtain ⟨rfl, -⟩ : c = d ∧ t = ds ++ after := by simpa using hc
        exact absurd List.mem_cons_self absent
    | cons d ds =>
      obtain ⟨-, ht⟩ : c = d ∧ t = ds ++ (sub ++ after) := by simpa using hc
      exact Or.inr ⟨ds, after, by rw [ht, List.append_assoc]⟩

theorem infix_of_append_last (absent : c ∉ front) (h : front ++ [c] <:+: s ++ c :: t) :
    front <:+ s ∨ front ++ [c] <:+: s ∨ front ++ [c] <:+: t := by
  obtain ⟨before, after, whole⟩ := h
  have halves : (before ++ front) ++ c :: after = s ++ c :: t := by
    rw [← whole]
    simp
  rcases List.append_eq_append_iff.mp halves with ⟨gap, hs, hc⟩ | ⟨gap, hfront, hc⟩
  · cases gap with
    | nil => exact Or.inl ⟨before, by simpa using hs.symm⟩
    | cons d ds =>
      obtain ⟨rfl, -⟩ : c = d ∧ after = ds ++ c :: t := by simpa using hc
      exact Or.inr (Or.inl ⟨before, ds, by rw [hs]; simp⟩)
  · cases gap with
    | nil => exact Or.inl ⟨before, by simpa using hfront⟩
    | cons d ds =>
      obtain ⟨rfl, ht⟩ : c = d ∧ t = ds ++ c :: after := by simpa using hc
      -- the text before the last character holds no other one, so it stands behind the first
      have behind : front <:+ ds := by
        rcases List.append_eq_append_iff.mp hfront with ⟨more, -, hmore⟩ | ⟨more, -, hmore⟩
        · exact absurd (hmore ▸ List.mem_append_right more List.mem_cons_self) absent
        · cases more with
          | nil =>
            rw [List.nil_append] at hmore
            exact absurd (hmore ▸ List.mem_cons_self) absent
          | cons e es =>
            obtain ⟨-, hds⟩ : c = e ∧ ds = es ++ front := by simpa using hmore
            exact ⟨es, hds.symm⟩
      obtain ⟨lead, hlead⟩ := behind
      exact Or.inr (Or.inr ⟨lead, after, by rw [ht, ← hlead]; simp⟩)

end Text
end RequireInjection
