import Mathlib.Data.List.Nodup
import RequireInjection.Proofs.Wrapping.KeySet

/-!
Wrapping in stages. The keys of two sets hold neither quotes nor closing brackets. Then a call is an
opening up to a quote, a key up to the next quote, and a bracket behind it, so whether one begins at
a place is settled by the parts of the text between its quotes. In a look-up these parts tell of no
key but its own, and those that meet what stands around it end in `(injections[` or begin with a
bracket, which no call does. So a second stage finds the calls of its own keys where they were in
the source, and nothing else.
-/
namespace RequireInjection

open CallPattern

namespace FilterSet

def union (s t : FilterSet) : FilterSet := t.entries.foldl (fun u e => u.insert e.1 e.2) s

variable {s t : FilterSet}

theorem entries_foldl_insert (s : FilterSet) (es : Entries Text Json) :
    (es.foldl (fun u e => u.insert e.1 e.2) s).entries =
      es.foldl (fun m e => m.put e.1 e.2) s.entries := by
  induction es generalizing s with
  | nil => rfl
  | cons e es ih => exact ih (s.insert e.1 e.2)

theorem entries_union (apart : s.paths.Disjoint t.paths) :
    (s.union t).entries = s.entries ++ t.entries := by
  have distinct : (Entries.keys (s.entries ++ t.entries)).Nodup := by
    rw [Entries.keys, List.map_append, List.nodup_append']
    exact ⟨s.distinct, t.distinct, apart⟩
  rw [union, entries_foldl_insert, Entries.foldl_put_of_nodup _ _ distinct]

theorem mem_paths_union (apart : s.paths.Disjoint t.paths) (key : Text) :
    key ∈ (s.union t).paths ↔ key ∈ s.paths ∨ key ∈ t.paths := by
  rw [paths, entries_union apart, Entries.keys, List.map_append, List.mem_append]
  rfl

theorem mode_eq_only : s.mode = .only ↔ ∃ e ∈ s.entries, e.2.isTrue = false := by
  unfold mode
  constructor
  · intro only
    by_contra none
    push Not at none
    have flags : (s.entries.all fun e => e.2.isTrue) = true := by
      simpa [List.all_eq_true] using none
    rw [flags] at only
    split at only <;> cases only
  · rintro ⟨e, member, flag⟩
    have nonempty : s.entries.isEmpty = false := by
      cases entries : s.entries with
      | nil => rw [entries] at member; cases member
      | cons => rfl
    have flags : (s.entries.all fun e => e.2.isTrue) = false := by
      rw [List.all_eq_false]
      exact ⟨e, member, by simp [flag]⟩
    simp [nonempty, flags]

theorem mode_union (only : s.mode = .only) (apart : s.paths.Disjoint t.paths) :
    (s.union t).mode = .only := by
  obtain ⟨e, member, flag⟩ := mode_eq_only.mp only
  refine mode_eq_only.mpr ⟨e, ?_, flag⟩
  rw [entries_union apart]
  exact List.mem_append_left _ member

end FilterSet

section Steps

variable {p : CallPattern} {t a : Text} {c : Char}

theorem scan_eq_drop (p : CallPattern) (skip : Nat) (t : Text) :
    p.scan skip t = p.scan 0 (t.drop skip) := by
  induction t generalizing skip with
  | nil => simp [scan]
  | cons d ds ih =>
    cases skip with
    | zero => rfl
    | succ n => exact ih n

theorem wrap_cons (absent : p.argumentAt? (c :: t) = none) : wrap p (c :: t) = c :: wrap p t := by
  simp only [wrap, pieces, scan, absent]
  rfl

theorem wrap_call (found : p.argumentAt? ((Piece.call a).text ++ t) = some a) :
    wrap p ((Piece.call a).text ++ t) = lookup a (Piece.call a).text ++ wrap p t := by
  obtain ⟨d, ds, call⟩ : ∃ d ds, (Piece.call a).text = d :: ds := ⟨_, _, rfl⟩
  have step : p.scan 0 ((Piece.call a).text ++ t) = .call a :: p.scan 0 t := by
    rw [call, List.cons_append] at found ⊢
    simp only [scan, found, call, List.length_cons, Nat.add_sub_cancel]
    rw [scan_eq_drop, List.drop_left]
  simp only [wrap, pieces, step, List.flatMap_cons]
  rfl

theorem argumentAt?_of_head (other : c ≠ 'r') (t : Text) : p.argumentAt? (c :: t) = none := by
  have unopened : Text.stripPrefix? Piece.opening (c :: t) = none := if_neg (Ne.symm other)
  simp only [argumentAt?, unopened]

end Steps

def Bare (t : Text) : Prop := ∀ c ∈ t, isQuote c = false

def PlainKey (key : Text) : Prop := Bare key ∧ ')' ∉ key

def Quotes (paths : List Text) (a : Text) : Prop :=
  ∃ path ∈ paths, ∃ q q', isQuote q ∧ isQuote q' ∧ a = q :: path ++ [q']

theorem Quotes.mono {paths all : List Text} {a : Text} (contained : ∀ path ∈ paths, path ∈ all)
    (h : Quotes paths a) : Quotes all a := by
  obtain ⟨path, member, spelled⟩ := h
  exact ⟨path, contained path member, spelled⟩

instance (t : Text) : Decidable (Bare t) := List.decidableBAll _ t

instance (key : Text) : Decidable (PlainKey key) := inferInstanceAs (Decidable (_ ∧ _))

theorem cut_at_quote {x x' y y' : Text} {q q' : Char} (bare : Bare x) (bare' : Bare x')
    (quote : isQuote q) (quote' : isQuote q') (same : x ++ q :: y = x' ++ q' :: y') :
    x = x' ∧ q = q' ∧ y = y' := by
  induction x generalizing x' with
  | nil =>
    cases x' with
    | nil => simpa using same
    | cons c x' =>
      obtain ⟨rfl, -⟩ : q = c ∧ y = x' ++ q' :: y' := by simpa using same
      rw [bare' q (by simp)] at quote
      cases quote
  | cons c x ih =>
    cases x' with
    | nil =>
      obtain ⟨rfl, -⟩ : c = q' ∧ x ++ q :: y = y' := by simpa using same
      rw [bare c (by simp)] at quote'
      cases quote'
    | cons c' x' =>
      obtain ⟨rfl, later⟩ : c = c' ∧ x ++ q :: y = x' ++ q' :: y' := by simpa using same
      obtain ⟨rfl, rest⟩ := ih (fun d member => bare d (by simp [member]))
        (fun d member => bare' d (by simp [member])) later
      exact ⟨rfl, rest⟩

theorem PlainKey.endFree {key : Text} (plain : PlainKey key) : EndFree key := by
  intro q _ inside
  exact plain.2 (inside.subset (by simp))

theorem bare_opening : Bare Piece.opening := by
  decide

theorem call_text_eq (q q' : Char) (key : Text) (t : Text) :
    (Piece.call (q :: key ++ [q'])).text ++ t =
      Piece.opening ++ q :: (key ++ q' :: ')' :: t) := by
  simp [Piece.text]

def keyFront : Text := "(injections["

def keyBehind : Text := ("] || " : Text) ++ Piece.opening

theorem bare_keyFront : Bare keyFront := by decide

theorem bare_keyBehind : Bare keyBehind := by decide

theorem lookup_text_eq (q q' : Char) (key : Text) (t : Text) :
    lookup (q :: key ++ [q']) (Piece.call (q :: key ++ [q'])).text ++ t =
      keyFront ++ q :: (key ++ q' :: (keyBehind ++ q :: (key ++ q' :: ')' :: ')' :: t))) := by
  unfold lookup Piece.text keyFront keyBehind
  simp only [List.append_assoc, List.cons_append, List.nil_append]

theorem PlainKey.head_ne {key : Text} {q : Char} (plain : PlainKey key) (quote : isQuote q)
    (t : Text) : (key ++ q :: t).head? ≠ some ')' := by
  cases key with
  | nil =>
    intro closing
    exact quote_not_closing quote (Option.some.inj closing)
  | cons c key =>
    intro closing
    obtain rfl : c = ')' := Option.some.inj closing
    exact plain.2 (by simp)

theorem wrap_bracket (p : CallPattern) (t : Text) : wrap p (')' :: t) = ')' :: wrap p t :=
  wrap_cons (argumentAt?_of_head (by decide) t)

section Finding

variable {paths : List Text} {t a z key : Text} {q q' : Char}

theorem argumentAt?_plain (plain : ∀ path ∈ paths, PlainKey path) :
    (quotedPath paths).argumentAt? t = some a ↔
      Quotes paths a ∧ ∃ after, t = (Piece.call a).text ++ after := by
  have free : ∀ path ∈ paths, EndFree path := fun path member => (plain path member).endFree
  constructor
  · intro found
    refine ⟨?_, argumentAt_begins found⟩
    simp only [argumentAt?] at found
    split at found
    · cases found
    · obtain ⟨path, member, fits⟩ := (findSome?_quoted free).mp found
      obtain ⟨q, q', -, quote, quote', argument, -⟩ := quoted?_eq_some.mp fits
      exact ⟨path, member, q, q', quote, quote', argument⟩
  · rintro ⟨⟨path, member, q, q', quote, quote', rfl⟩, after, rfl⟩
    have inner : (Piece.call (q :: path ++ [q'])).text ++ after =
        Piece.opening ++ ((q :: path ++ [q']) ++ ')' :: after) := by simp [Piece.text]
    simp only [argumentAt?, inner, Text.stripPrefix?_append]
    exact (findSome?_quoted free).mpr
      ⟨path, member, quoted?_eq_some.mpr ⟨q, q', after, quote, quote', rfl, rfl⟩⟩

theorem argumentAt?_plain_eq_none (plain : ∀ path ∈ paths, PlainKey path) :
    (quotedPath paths).argumentAt? t = none ↔
      ∀ a, Quotes paths a → ∀ after, t ≠ (Piece.call a).text ++ after := by
  rw [Option.eq_none_iff_forall_ne_some]
  simp only [ne_eq, argumentAt?_plain plain, not_and, not_exists]

theorem bracket_of_wrapped {p : CallPattern} {s : Text} (begins : [')'] <+: wrap p s) :
    ∃ s', s = ')' :: s' := by
  cases s with
  | nil => simp [wrap, pieces, scan] at begins
  | cons d s =>
    cases found : p.argumentAt? (d :: s) with
    | some a =>
      obtain ⟨after, whole⟩ := argumentAt_begins found
      obtain ⟨rest, opens⟩ : ∃ rest, lookup a (Piece.call a).text = '(' :: rest := ⟨_, rfl⟩
      rw [whole] at found begins
      rw [wrap_call found, opens] at begins
      obtain ⟨other, -⟩ := List.cons_prefix_cons.mp begins
      exact absurd other (by decide)
    | none =>
      rw [wrap_cons found] at begins
      obtain ⟨rfl, -⟩ := List.cons_prefix_cons.mp begins
      exact ⟨s, rfl⟩

variable (plain : ∀ path ∈ paths, PlainKey path)

include plain

theorem path_behind_opening (bare : Bare z) (quote : isQuote q) (quote' : isQuote q')
    (found : (quotedPath paths).argumentAt? (Piece.opening ++ q :: (z ++ q' :: t)) = some a) :
    z ∈ paths ∧ t.head? = some ')' := by
  obtain ⟨⟨path, member, d, d', quoted, quoted', rfl⟩, after, whole⟩ :=
    (argumentAt?_plain plain).mp found
  rw [call_text_eq] at whole
  obtain ⟨-, -, inner⟩ := cut_at_quote bare_opening bare_opening quote quoted whole
  obtain ⟨rfl, -, rfl⟩ := cut_at_quote bare (plain path member).1 quote' quoted' inner
  exact ⟨member, rfl⟩

theorem no_call_of_bracket (quote : isQuote q) :
    (quotedPath paths).argumentAt? (Piece.opening ++ q :: ')' :: t) = none := by
  cases found : (quotedPath paths).argumentAt? (Piece.opening ++ q :: ')' :: t) with
  | none => rfl
  | some a =>
    obtain ⟨⟨path, member, d, d', quoted, quoted', rfl⟩, after, whole⟩ :=
      (argumentAt?_plain plain).mp found
    rw [call_text_eq] at whole
    obtain ⟨-, -, inner⟩ := cut_at_quote bare_opening bare_opening quote quoted whole
    cases path with
    | nil =>
      obtain ⟨closing, -⟩ : ')' = d' ∧ t = ')' :: after := by simpa using inner
      exact absurd closing.symm (quote_not_closing quoted')
    | cons c path =>
      obtain ⟨rfl, -⟩ : ')' = c ∧ t = path ++ d' :: ')' :: after := by simpa using inner
      exact absurd (by simp) (plain _ member).2

theorem wrap_bare (bare : Bare z) (quote : isQuote q)
    (absent : (quotedPath paths).argumentAt? (Piece.opening ++ q :: t) = none) :
    wrap (quotedPath paths) (z ++ q :: t) = z ++ q :: wrap (quotedPath paths) t := by
  induction z with
  | nil =>
    refine wrap_cons (argumentAt?_of_head ?_ t)
    rintro rfl
    cases quote
  | cons c z ih =>
    have later := ih fun d member => bare d (by simp [member])
    rw [List.cons_append, List.cons_append, ← later]
    apply wrap_cons
    cases found : (quotedPath paths).argumentAt? (c :: (z ++ q :: t)) with
    | none => rfl
    | some a =>
      obtain ⟨⟨path, member, d, d', quoted, -, rfl⟩, after, whole⟩ :=
        (argumentAt?_plain plain).mp found
      rw [call_text_eq, ← List.cons_append] at whole
      obtain ⟨opened, -, -⟩ := cut_at_quote bare bare_opening quote quoted whole
      rw [← List.cons_append, opened, absent] at found
      cases found

theorem wrap_before_path (bare : Bare z) (quote : isQuote q) (quote' : isQuote q')
    (plain' : Bare key) (other : key ∉ paths ∨ t.head? ≠ some ')') :
    wrap (quotedPath paths) (z ++ q :: (key ++ q' :: t)) =
      z ++ q :: wrap (quotedPath paths) (key ++ q' :: t) := by
  apply wrap_bare plain bare quote
  cases found : (quotedPath paths).argumentAt? (Piece.opening ++ q :: (key ++ q' :: t)) with
  | none => rfl
  | some a =>
    obtain ⟨member, closing⟩ := path_behind_opening plain plain' quote quote' found
    rcases other with absent | behind
    · exact absurd member absent
    · exact absurd closing behind

theorem wrap_other_call (plainKey : PlainKey key) (absent : key ∉ paths) (quote : isQuote q)
    (quote' : isQuote q') (t : Text) :
    wrap (quotedPath paths) ((Piece.call (q :: key ++ [q'])).text ++ t) =
      (Piece.call (q :: key ++ [q'])).text ++ wrap (quotedPath paths) t := by
  rw [call_text_eq, call_text_eq,
    wrap_before_path plain bare_opening quote quote' plainKey.1 (Or.inl absent),
    wrap_bare plain plainKey.1 quote' (no_call_of_bracket plain quote'), wrap_bracket]

theorem wrap_other_lookup (plainKey : PlainKey key) (absent : key ∉ paths) (quote : isQuote q)
    (quote' : isQuote q') (t : Text) :
    wrap (quotedPath paths) (lookup (q :: key ++ [q']) (Piece.call (q :: key ++ [q'])).text ++ t) =
      lookup (q :: key ++ [q']) (Piece.call (q :: key ++ [q'])).text ++
        wrap (quotedPath paths) t := by
  obtain ⟨behind, square⟩ : ∃ behind, keyBehind = ']' :: behind := ⟨_, rfl⟩
  have no_bracket : (keyBehind ++ q :: (key ++ q' :: ')' :: ')' :: t)).head? ≠ some ')' := by
    simp [square]
  have no_bracket' : (key ++ q' :: ')' :: ')' :: t).head? ≠ some ')' := plainKey.head_ne quote' _
  rw [lookup_text_eq, lookup_text_eq,
    wrap_before_path plain bare_keyFront quote quote' plainKey.1 (Or.inr no_bracket),
    wrap_before_path plain plainKey.1 quote' quote bare_keyBehind (Or.inr no_bracket'),
    wrap_before_path plain bare_keyBehind quote quote' plainKey.1 (Or.inl absent),
    wrap_bare plain plainKey.1 quote' (no_call_of_bracket plain quote'), wrap_bracket, wrap_bracket]

theorem before_quote_of_lookup {s x : Text} (found : (quotedPath paths).argumentAt? s = some a)
    (bare : Bare z) (quote : isQuote q) (begins : z ++ q :: x <+: wrap (quotedPath paths) s) :
    z = keyFront ∧ x.head? ≠ some ')' := by
  obtain ⟨⟨path, member, d, d', quoted, quoted', rfl⟩, after, rfl⟩ :=
    (argumentAt?_plain plain).mp found
  obtain ⟨rest, whole⟩ := begins
  rw [wrap_call found, lookup_text_eq, List.append_assoc, List.cons_append] at whole
  obtain ⟨front, -, behind⟩ := cut_at_quote bare bare_keyFront quote quoted whole
  refine ⟨front, ?_⟩
  cases x with
  | nil => simp
  | cons c x =>
    have head := (plain path member).head_ne quoted'
      (keyBehind ++ d :: (path ++ d' :: ')' :: ')' :: wrap (quotedPath paths) after))
    rw [← behind] at head
    exact head

/-- A part that stands before a quote of the wrapped text stands before it in the source, or it ends
with the front of a look-up, behind whose quote no bracket follows. -/
theorem before_quote_of_wrapped {s x : Text} (bare : Bare z) (quote : isQuote q)
    (begins : z ++ q :: x <+: wrap (quotedPath paths) s) :
    (∃ s', s = z ++ q :: s' ∧ x <+: wrap (quotedPath paths) s') ∨
      (keyFront <:+ z ∧ x.head? ≠ some ')') := by
  induction z generalizing s with
  | nil =>
    cases s with
    | nil => simp [wrap, pieces, scan] at begins
    | cons d s =>
      cases found : (quotedPath paths).argumentAt? (d :: s) with
      | some a =>
        obtain ⟨front, behind⟩ := before_quote_of_lookup plain found bare quote begins
        exact Or.inr ⟨front ▸ List.suffix_refl _, behind⟩
      | none =>
        rw [wrap_cons found, List.nil_append] at begins
        obtain ⟨rfl, later⟩ := List.cons_prefix_cons.mp begins
        exact Or.inl ⟨s, rfl, later⟩
  | cons c z ih =>
    cases s with
    | nil => simp [wrap, pieces, scan] at begins
    | cons d s =>
      cases found : (quotedPath paths).argumentAt? (d :: s) with
      | some a =>
        obtain ⟨front, behind⟩ := before_quote_of_lookup plain found bare quote begins
        exact Or.inr ⟨front ▸ List.suffix_refl _, behind⟩
      | none =>
        rw [wrap_cons found, List.cons_append] at begins
        obtain ⟨rfl, later⟩ := List.cons_prefix_cons.mp begins
        have shorter : Bare z := fun e member => bare e (by simp [member])
        rcases ih shorter later with ⟨s', rfl, rest⟩ | ⟨ends, rest⟩
        · exact Or.inl ⟨s', rfl, rest⟩
        · exact Or.inr ⟨ends.trans (List.suffix_cons c z), rest⟩

theorem call_of_wrapped {s : Text} (plainKey : PlainKey key) (quote : isQuote q)
    (quote' : isQuote q')
    (begins : (Piece.call (q :: key ++ [q'])).text <+: wrap (quotedPath paths) s) :
    ∃ after, s = (Piece.call (q :: key ++ [q'])).text ++ after := by
  have shape := call_text_eq q q' key []
  rw [List.append_nil] at shape
  rw [shape] at begins
  rcases before_quote_of_wrapped plain bare_opening quote begins with ⟨s₁, rfl, inner⟩ | ⟨ends, -⟩
  · rcases before_quote_of_wrapped plain plainKey.1 quote' inner with
      ⟨s₂, rfl, closing⟩ | ⟨-, no_bracket⟩
    · obtain ⟨after, rfl⟩ := bracket_of_wrapped closing
      exact ⟨after, (call_text_eq q q' key after).symm⟩
    · exact absurd rfl no_bracket
  · exact absurd ends (by decide)

end Finding

section Stages

variable {paths paths' all : List Text}

/-- Two stages with paths of their own are one stage with all of them. -/
theorem wrap_wrap (plain : ∀ path ∈ all, PlainKey path)
    (members : ∀ path, path ∈ all ↔ path ∈ paths ∨ path ∈ paths') (apart : paths.Disjoint paths')
    (source : Text) :
    wrap (quotedPath paths') (wrap (quotedPath paths) source) = wrap (quotedPath all) source := by
  have plain₁ : ∀ path ∈ paths, PlainKey path := fun path member =>
    plain path ((members path).mpr (Or.inl member))
  have plain₂ : ∀ path ∈ paths', PlainKey path := fun path member =>
    plain path ((members path).mpr (Or.inr member))
  induction size : source.length using Nat.strongRecOn generalizing source with
  | ind n ih =>
    cases source with
    | nil => rfl
    | cons c cs =>
      cases found : (quotedPath all).argumentAt? (c :: cs) with
      -- The call is one of the first or of the second stage, and the other one leaves it alone.
      | some a =>
        obtain ⟨⟨path, member, q, q', quote, quote', rfl⟩, after, whole⟩ :=
          (argumentAt?_plain plain).mp found
        have shorter : after.length < n := by
          rw [← size, whole]
          simp only [Piece.text, List.length_append, List.length_cons]
          omega
        rw [whole] at found ⊢
        rw [wrap_call found]
        rcases (members path).mp member with first | second
        · have found₁ : (quotedPath paths).argumentAt?
              ((Piece.call (q :: path ++ [q'])).text ++ after) = some (q :: path ++ [q']) :=
            (argumentAt?_plain plain₁).mpr ⟨⟨path, first, q, q', quote, quote', rfl⟩, after, rfl⟩
          rw [wrap_call found₁,
            wrap_other_lookup plain₂ (plain path member) (apart first) quote quote',
            ih _ shorter after rfl]
        · have found₂ : (quotedPath paths').argumentAt?
              ((Piece.call (q :: path ++ [q'])).text ++ wrap (quotedPath paths) after) =
                some (q :: path ++ [q']) :=
            (argumentAt?_plain plain₂).mpr ⟨⟨path, second, q, q', quote, quote', rfl⟩, _, rfl⟩
          rw [wrap_other_call plain₁ (plain path member) (fun first => apart first second) quote
            quote', wrap_call found₂, ih _ shorter after rfl]
      -- No stage finds a call here, and the first puts none there for the second to find.
      | none =>
        have absent := (argumentAt?_plain_eq_none plain).mp found
        have absent₁ : (quotedPath paths).argumentAt? (c :: cs) = none := by
          refine (argumentAt?_plain_eq_none plain₁).mpr fun a quotes after => ?_
          exact absent a (quotes.mono fun path first => (members path).mpr (Or.inl first)) after
        have absent₂ :
            (quotedPath paths').argumentAt? (c :: wrap (quotedPath paths) cs) = none := by
          rw [← wrap_cons absent₁]
          refine (argumentAt?_plain_eq_none plain₂).mpr fun a quotes after whole => ?_
          obtain ⟨path, second, q, q', quote, quote', rfl⟩ := quotes
          obtain ⟨after', there⟩ := call_of_wrapped plain₁ (plain₂ path second) quote quote'
            ⟨after, whole.symm⟩
          exact absent _ ⟨path, (members path).mpr (Or.inr second), q, q', quote, quote', rfl⟩
            after' there
        have shorter : cs.length < n := by simp [← size]
        rw [wrap_cons absent₁, wrap_cons absent₂, ih _ shorter cs rfl, wrap_cons found]

end Stages

/-- To wrap the calls of the keys of one set and in what comes out those of another one is to wrap
those of both at once, and the order of the two does not matter: if the sets include their keys,
have none in common, and no key holds a quote or a closing bracket. -/
theorem wrap_in_stages (first second : FilterSet) (source : Text) (firstOnly : first.mode = .only)
    (secondOnly : second.mode = .only) (apart : first.paths.Disjoint second.paths)
    (plain : ∀ key ∈ first.paths ++ second.paths, PlainKey key) :
    wrap (ofFilters second) (wrap (ofFilters first) source) =
        wrap (ofFilters (first.union second)) source ∧
      wrap (ofFilters first) (wrap (ofFilters second) source) =
        wrap (ofFilters second) (wrap (ofFilters first) source) := by
  have keys := FilterSet.mem_paths_union apart
  have plain' : ∀ path ∈ (first.union second).paths, PlainKey path := fun path member =>
    plain path (List.mem_append.mpr ((keys path).mp member))
  rw [(ofFilters_only firstOnly).1, (ofFilters_only secondOnly).1,
    (ofFilters_only (FilterSet.mode_union firstOnly apart)).1, wrap_wrap plain' keys apart]
  refine ⟨rfl, ?_⟩
  have apart' : second.paths.Disjoint first.paths := fun _ member member' => apart member' member
  exact wrap_wrap plain' (fun path => (keys path).trans or_comm) apart' source

/-- A key that ends with an opening, the empty key, and a call in front of which an opening begins.
-/
theorem opening_as_key_staged :
    let first := FilterSet.ofList [("require(".toList, .bool false), (['a'], .bool true)]
    let second := FilterSet.ofList [([], .null), ("] || require(".toList, .bool true)]
    let source : Text := "requirerequire('require('), require('a'), require(\"'), require('b')"
    first.mode = .only ∧ second.mode = .only ∧ first.paths.Disjoint second.paths ∧
      (∀ key ∈ first.paths ++ second.paths, PlainKey key) ∧
      wrap (ofFilters second) (wrap (ofFilters first) source) =
        wrap (ofFilters (first.union second)) source ∧
      wrap (ofFilters (first.union second)) source =
        "require(injections['require('] || require('require(')), ".toList ++
          "(injections['a'] || require('a')), (injections[\"'] || require(\"')), ".toList ++
            "require('b')".toList := by
  intro first second source
  have firstOnly : first.mode = .only := by decide
  have secondOnly : second.mode = .only := by decide
  have others : ∀ key ∈ first.paths, key ∉ second.paths := by decide
  have apart : first.paths.Disjoint second.paths := fun key member => others key member
  have plain : ∀ key ∈ first.paths ++ second.paths, PlainKey key := by decide
  have output : wrap (ofFilters (first.union second)) source =
      "require(injections['require('] || require('require(')), ".toList ++
        "(injections['a'] || require('a')), (injections[\"'] || require(\"')), ".toList ++
          "require('b')".toList := by rfl
  have staged := wrap_in_stages first second source firstOnly secondOnly apart plain
  exact ⟨firstOnly, secondOnly, apart, plain, staged.1, output⟩

end RequireInjection
