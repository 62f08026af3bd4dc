import RequireInjection.Proofs.Json.Grammar

namespace RequireInjection
namespace Json

theorem bind_eq_ok {α β ε : Type} {x : Except ε α} {f : α → Except ε β} {b : β} :
    (x >>= f) = .ok b ↔ ∃ a, x = .ok a ∧ f a = .ok b := by
  cases x <;> simp [bind, Except.bind]

instance (c : Char) : Decidable (IsHexDigit c) := inferInstanceAs (Decidable (_ ∨ _ ∨ _))

section Escapes

variable {t rest digits : Text} {n : Nat} {c : Char}

theorem char_le {c d : Char} : c ≤ d ↔ c.toNat ≤ d.toNat := UInt32.le_iff_toNat_le

theorem hexDigit?_eq (c : Char) :
    (if '0' ≤ c && c ≤ '9' then some (c.toNat - 48)
      else if 'a' ≤ c && c ≤ 'f' then some (c.toNat - 87)
      else if 'A' ≤ c && c ≤ 'F' then some (c.toNat - 55)
      else none) = if IsHexDigit c then some (hexDigitValue c) else none := by
  simp only [IsHexDigit, hexDigitValue, Bool.and_eq_true, decide_eq_true_eq, char_le,
    Char.reduceToNat]
  by_cases decimal : 48 ≤ c.toNat ∧ c.toNat ≤ 57
  · rw [if_pos decimal, if_pos (.inl decimal), if_pos decimal.2]
  by_cases small : 97 ≤ c.toNat ∧ c.toNat ≤ 102
  · rw [if_neg decimal, if_pos small, if_pos (.inr (.inl small)), if_neg (by omega),
      if_neg (by omega), Option.some.injEq]
    omega
  by_cases large : 65 ≤ c.toNat ∧ c.toNat ≤ 70
  · rw [if_neg decimal, if_neg small, if_pos large, if_pos (.inr (.inr large)),
      if_neg (by omega), if_pos large.2, Option.some.injEq]
    omega
  · rw [if_neg decimal, if_neg small, if_neg large, if_neg (by omega)]

theorem four_le_size {a b c d : Char} {rest : Text} :
    ¬ Text.size (a :: b :: c :: d :: rest) < 4 := by
  have := a.utf8Size_pos
  have := b.utf8Size_pos
  have := c.utf8Size_pos
  have := d.utf8Size_pos
  simp only [Text.size_cons]
  omega

theorem hexEscape_eq_ok : hexEscape t = .ok (n, rest) ↔
    ∃ digits, digits.length = 4 ∧ (∀ c ∈ digits, IsHexDigit c) ∧ t = digits ++ rest ∧
      n = unitOf digits := by
  constructor
  · intro read
    simp only [hexEscape, hexDigit?_eq] at read
    split at read
    · cases read
    split at read
    · rename_i a b c d _ _
      split at read
      · rename_i ha hb hc hd
        simp only [Option.ite_none_right_eq_some, Option.some.injEq] at ha hb hc hd
        obtain ⟨ha, rfl⟩ := ha
        obtain ⟨hb, rfl⟩ := hb
        obtain ⟨hc, rfl⟩ := hc
        obtain ⟨hd, rfl⟩ := hd
        cases read
        refine ⟨[a, b, c, d], rfl, ?_, rfl, by simp [unitOf]⟩
        simp only [List.mem_cons, List.not_mem_nil, or_false, forall_eq_or_imp, forall_eq]
        exact ⟨ha, hb, hc, hd⟩
      · cases read
    · cases read
  · rintro ⟨digits, four, hex, rfl, rfl⟩
    obtain ⟨a, b, c, d, rfl⟩ : ∃ a b c d, digits = [a, b, c, d] := by
      match digits, four with
      | [a, b, c, d], _ => exact ⟨a, b, c, d, rfl⟩
    simp only [List.mem_cons, List.not_mem_nil, or_false, forall_eq_or_imp, forall_eq] at hex
    obtain ⟨ha, hb, hc, hd⟩ := hex
    simp only [hexEscape, hexDigit?_eq, List.cons_append, List.nil_append, if_neg four_le_size,
      if_pos ha, if_pos hb, if_pos hc, if_pos hd]
    simp [unitOf]

theorem hexEscape_append (four : digits.length = 4) (hex : ∀ c ∈ digits, IsHexDigit c)
    (rest : Text) : hexEscape (digits ++ rest) = .ok (unitOf digits, rest) :=
  hexEscape_eq_ok.mpr ⟨digits, four, hex, rfl, rfl⟩

theorem block_of_uncoded {item : StringItem} (uncoded : item.unit? = none) : Block [item] :=
  .single (by simp [StringItem.IsHigh, uncoded]) (by simp [StringItem.IsLow, uncoded])

theorem isHigh_unit {four : digits.length = 4} {hex : ∀ c ∈ digits, IsHexDigit c} :
    (StringItem.unit digits four hex).IsHigh ↔
      0xD800 ≤ unitOf digits ∧ unitOf digits ≤ 0xDBFF := by
  simp [StringItem.IsHigh, StringItem.unit?]

theorem isLow_unit {four : digits.length = 4} {hex : ∀ c ∈ digits, IsHexDigit c} :
    (StringItem.unit digits four hex).IsLow ↔
      0xDC00 ≤ unitOf digits ∧ unitOf digits ≤ 0xDFFF := by
  simp [StringItem.IsLow, StringItem.unit?]

theorem unicodeEscape_sound (read : unicodeEscape t = .ok (c, rest)) :
    ∃ block, Block block ∧ '\\' :: 'u' :: t = block.flatMap StringItem.text ++ rest := by
  obtain ⟨⟨high, behind⟩, first, read⟩ := bind_eq_ok.mp read
  obtain ⟨digits, four, hex, rfl, rfl⟩ := hexEscape_eq_ok.mp first
  simp only [Bool.and_eq_true, decide_eq_true_eq] at read
  split at read
  · cases read
  rename_i no_low
  split at read
  · rename_i is_high
    split at read
    · cases read
    · split at read
      · cases read
      · obtain ⟨⟨low, behind'⟩, second, read⟩ := bind_eq_ok.mp read
        obtain ⟨digits', four', hex', rfl, rfl⟩ := hexEscape_eq_ok.mp second
        simp only [Bool.or_eq_true, decide_eq_true_eq] at read
        split at read
        · cases read
        · rename_i is_low
          obtain ⟨-, rfl⟩ := Prod.mk.inj (Except.ok.inj read)
          refine ⟨[.unit digits four hex, .unit digits' four' hex'],
            .pair (isHigh_unit.mpr is_high) (isLow_unit.mpr (by omega)), ?_⟩
          simp [StringItem.text]
      · cases read
    · cases read
  · rename_i no_high
    cases read
    exact ⟨[.unit digits four hex], .single (mt isHigh_unit.mp no_high) (mt isLow_unit.mp no_low),
      by simp [StringItem.text]⟩

theorem unicodeEscape_single {four : digits.length = 4} {hex : ∀ c ∈ digits, IsHexDigit c}
    (no_high : ¬ (StringItem.unit digits four hex).IsHigh)
    (no_low : ¬ (StringItem.unit digits four hex).IsLow) (rest : Text) :
    unicodeEscape (digits ++ rest) = .ok (Char.ofNat (unitOf digits), rest) := by
  rw [isHigh_unit] at no_high
  rw [isLow_unit] at no_low
  refine bind_eq_ok.mpr ⟨_, hexEscape_append four hex rest, ?_⟩
  simp only [Bool.and_eq_true, decide_eq_true_eq, if_neg no_high, if_neg no_low]
  rfl

theorem unicodeEscape_pair {digits' : Text} {four : digits.length = 4}
    {hex : ∀ c ∈ digits, IsHexDigit c} {four' : digits'.length = 4}
    {hex' : ∀ c ∈ digits', IsHexDigit c} (high : (StringItem.unit digits four hex).IsHigh)
    (low : (StringItem.unit digits' four' hex').IsLow) (rest : Text) :
    ∃ c, unicodeEscape (digits ++ '\\' :: 'u' :: (digits' ++ rest)) = .ok (c, rest) := by
  rw [isHigh_unit] at high
  rw [isLow_unit] at low
  refine ⟨Char.ofNat (0x10000 + (unitOf digits - 0xD800) * 1024 + (unitOf digits' - 0xDC00)),
    bind_eq_ok.mpr ⟨_, hexEscape_append four hex _, ?_⟩⟩
  simp only [Bool.and_eq_true, decide_eq_true_eq, if_pos high]
  rw [if_neg (by omega)]
  refine bind_eq_ok.mpr ⟨_, hexEscape_append four' hex' rest, ?_⟩
  simp only [Bool.or_eq_true, decide_eq_true_eq]
  rw [if_neg (by omega)]
  rfl

theorem escape_mark (named : c ∈ ['"', '\\', '/', 'b', 'f', 'n', 'r', 't']) :
    ∃ d, ∀ rest, escape (c :: rest) = .ok (d, rest) := by
  simp only [List.mem_cons, List.not_mem_nil, or_false] at named
  rcases named with rfl | rfl | rfl | rfl | rfl | rfl | rfl | rfl
  all_goals exact ⟨_, fun _ => rfl⟩

theorem escape_other (unnamed : c ∉ ['"', '\\', '/', 'b', 'f', 'n', 'r', 't']) (other : c ≠ 'u')
    (rest : Text) : escape (c :: rest) = stopAhead .invalidEscape (c :: rest) := by
  simp only [List.mem_cons, List.not_mem_nil, or_false, not_or] at unnamed
  simp [escape, unnamed, other]

theorem escape_sound (read : escape t = .ok (c, rest)) :
    ∃ block, Block block ∧ '\\' :: t = block.flatMap StringItem.text ++ rest := by
  cases t with
  | nil => cases read
  | cons d t =>
    by_cases named : d ∈ ['"', '\\', '/', 'b', 'f', 'n', 'r', 't']
    · obtain ⟨e, ok⟩ := escape_mark named
      rw [ok] at read
      cases read
      exact ⟨[.mark d named], block_of_uncoded rfl, rfl⟩
    · by_cases unit : d = 'u'
      · subst unit
        exact unicodeEscape_sound read
      · rw [escape_other named unit] at read
        cases read

theorem exists_unit {item : StringItem} (coded : item.unit? = some n) :
    ∃ digits four hex, item = .unit digits four hex := by
  cases item with
  | unit digits four hex => exact ⟨digits, four, hex, rfl⟩
  | plain | mark => cases coded

theorem stringTail_block {block : List StringItem} (h : Block block) (n : Nat) (t : Text) :
    ∃ c, stringTail (n + 1) (block.flatMap StringItem.text ++ t) =
      (stringTail n t).map fun (s, rest) => (c :: s, rest) := by
  have escaped : ∀ t' c, block.flatMap StringItem.text ++ t = '\\' :: t' →
      escape t' = .ok (c, t) → stringTail (n + 1) (block.flatMap StringItem.text ++ t) =
        (stringTail n t).map fun (s, rest) => (c :: s, rest) := by
    intro t' c text read
    rw [text]
    simp only [stringTail, read, bind, Except.bind]
    cases stringTail n t <;> rfl
  cases h with
  | @single item no_high no_low =>
    cases item with
    | plain c printed no_quote no_backslash =>
      refine ⟨c, ?_⟩
      simp only [List.flatMap_cons, List.flatMap_nil, StringItem.text, List.append_nil,
        List.cons_append, List.nil_append, stringTail, beq_iff_eq, if_neg no_quote,
        if_neg no_backslash, if_neg (Nat.not_lt.mpr printed), bind, Except.bind]
      cases stringTail n t <;> rfl
    | mark c named =>
      obtain ⟨d, read⟩ := escape_mark named
      exact ⟨d, escaped _ d rfl (read t)⟩
    | unit digits four hex =>
      exact ⟨_, escaped ('u' :: (digits ++ t)) _ (by simp [StringItem.text])
        (unicodeEscape_single no_high no_low t)⟩
  | @pair high low first second =>
    obtain ⟨digits, four, hex, rfl⟩ := exists_unit first.choose_spec.1
    obtain ⟨digits', four', hex', rfl⟩ := exists_unit second.choose_spec.1
    obtain ⟨c, read⟩ := unicodeEscape_pair first second t
    exact ⟨c, escaped ('u' :: (digits ++ '\\' :: 'u' :: (digits' ++ t))) c
      (by simp [StringItem.text]) read⟩

theorem Block.text_ne_nil {block : List StringItem} (h : Block block) :
    block.flatMap StringItem.text ≠ [] := by
  have each : ∀ item : StringItem, item.text ≠ [] := by
    intro item
    cases item <;> simp [StringItem.text]
  cases h with
  | single | pair => simp [each]

theorem stringTail_sound {s : Text} (read : stringTail n t = .ok (s, rest)) :
    ∃ items, Paired items ∧ t = items.flatMap StringItem.text ++ '"' :: rest := by
  induction n generalizing t s with
  | zero => cases read
  | succ n ih =>
    cases t with
    | nil => cases read
    | cons c t =>
      simp only [stringTail, beq_iff_eq] at read
      split at read
      · rename_i quote
        cases read
        exact ⟨[], .nil, by rw [quote]; rfl⟩
      rename_i no_quote
      split at read
      · rename_i backslash
        obtain ⟨⟨d, behind⟩, escaped, read⟩ := bind_eq_ok.mp read
        obtain ⟨⟨s', behind'⟩, later, read⟩ := bind_eq_ok.mp read
        cases read
        obtain ⟨block, is_block, text⟩ := escape_sound escaped
        obtain ⟨items, paired, rfl⟩ := ih later
        exact ⟨block ++ items, .cons is_block paired, by rw [backslash, text]; simp⟩
      rename_i no_backslash
      split at read
      · cases read
      rename_i printed
      obtain ⟨⟨s', behind'⟩, later, read⟩ := bind_eq_ok.mp read
      cases read
      obtain ⟨items, paired, rfl⟩ := ih later
      have single : Block [.plain c (Nat.not_lt.mp printed) no_quote no_backslash] :=
        block_of_uncoded rfl
      exact ⟨_, .cons single paired, rfl⟩

theorem stringTail_complete {items : List StringItem} (paired : Paired items) (rest : Text)
    (enough : (items.flatMap StringItem.text).length < n) :
    ∃ s, stringTail n (items.flatMap StringItem.text ++ '"' :: rest) = .ok (s, rest) := by
  induction paired generalizing n with
  | nil =>
    obtain ⟨m, rfl⟩ : ∃ m, n = m + 1 := ⟨n - 1, by simp at enough; omega⟩
    exact ⟨[], rfl⟩
  | @cons block items first _ ih =>
    have proper := List.length_pos_iff.mpr first.text_ne_nil
    rw [List.flatMap_append, List.length_append] at enough
    obtain ⟨m, rfl⟩ : ∃ m, n = m + 1 := ⟨n - 1, by omega⟩
    obtain ⟨s, later⟩ := ih (n := m) (by omega)
    obtain ⟨c, here⟩ := stringTail_block first m (items.flatMap StringItem.text ++ '"' :: rest)
    refine ⟨c :: s, ?_⟩
    rw [List.flatMap_append, List.append_assoc, here, later]
    rfl

theorem readString_sound {s : Text} (read : readString t = .ok (s, rest)) :
    ∃ items, Paired items ∧ '"' :: t = stringText items ++ rest := by
  obtain ⟨items, paired, text⟩ := stringTail_sound read
  exact ⟨items, paired, by simp [text, stringText]⟩

theorem readString_complete {items : List StringItem} (paired : Paired items) (rest : Text) :
    ∃ s, readString (items.flatMap StringItem.text ++ '"' :: rest) = .ok (s, rest) := by
  refine stringTail_complete paired rest ?_
  simp only [List.length_append, List.length_cons]
  omega

end Escapes

end Json
end RequireInjection
