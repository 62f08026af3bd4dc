import RequireInjection.Proofs.Json.Scalar

namespace RequireInjection
namespace Json

/-- Values without doubles, with integers of 64 bits and distinct keys in objects, whose arrays and
objects are nested no deeper than the number given. -/
inductive Storable : Nat → Json → Prop where
  | null {depth : Nat} : Storable depth null
  | bool {depth : Nat} (b : Bool) : Storable depth (bool b)
  | int {depth : Nat} {n : Int} (low : -(Nat.pow 2 63 : Int) ≤ n)
    (high : n < (Nat.pow 2 64 : Int)) : Storable depth (int n)
  | string {depth : Nat} (s : Text) : Storable depth (string s)
  | array {depth : Nat} {items : List Json} (each : ∀ v ∈ items, Storable depth v) :
      Storable (depth + 1) (array items)
  | object {depth : Nat} {members : Entries Text Json} (distinct : members.keys.Nodup)
      (each : ∀ m ∈ members, Storable depth m.2) : Storable (depth + 1) (object members)

def ReadsBack (depth : Nat) (v : Json) : Prop :=
  ∀ fuel rest, 2 * (compact v).length ≤ fuel → Delimited rest →
    value fuel depth (compact v ++ rest) = .ok (v, rest)

def compactMember (m : Text × Json) : Text := quoted m.1 ++ ':' :: compact m.2

def Begins (v : Json) : Prop := ∃ c cs, compact v = c :: cs ∧ isSpace c = false ∧ c ≠ ']'

def itemsTail (vs : List Json) : Text := vs.flatMap fun v => ',' :: compact v

def membersTail (ms : List (Text × Json)) : Text := ms.flatMap fun m => ',' :: compactMember m

theorem compactItems_cons (v : Json) (vs : List Json) :
    compactItems (v :: vs) = compact v ++ itemsTail vs := by
  induction vs generalizing v with
  | nil => simp [compactItems, itemsTail]
  | cons w ws ih =>
    rw [compactItems, ih]
    · simp [itemsTail]
    · simp

theorem compactMembers_cons (m : Text × Json) (ms : List (Text × Json)) :
    compactMembers (m :: ms) = compactMember m ++ membersTail ms := by
  induction ms generalizing m with
  | nil => simp [compactMembers, compactMember, membersTail]
  | cons m' ms ih =>
    rw [compactMembers, ih]
    · simp [compactMember, membersTail]
    · simp

theorem begins_of_storable {depth : Nat} {v : Json} (storable : Storable depth v) : Begins v := by
  cases storable with
  | null => exact ⟨'n', _, rfl, rfl, by decide⟩
  | bool b => cases b <;> exact ⟨_, _, rfl, rfl, by decide⟩
  | string s => exact ⟨'"', _, rfl, rfl, by decide⟩
  | array each => exact ⟨'[', _, rfl, rfl, by decide⟩
  | object distinct each => exact ⟨'\x7b', _, rfl, rfl, by decide⟩
  | @int _ n low high =>
    cases n with
    | negSucc n => exact ⟨'-', _, rfl, rfl, by decide⟩
    | ofNat n =>
      obtain ⟨c, cs, front, decimal⟩ := Text.exists_front n
      have digit : isDigit c := isDigit_iff.mpr decimal
      refine ⟨c, cs, front, ?_, ?_⟩
      · cases blank : isSpace c with
        | false => rfl
        | true =>
          simp only [isSpace, Bool.or_eq_true, beq_iff_eq] at blank
          rcases blank with ((rfl | rfl) | rfl) | rfl <;> cases digit
      · rintro rfl
        cases digit

theorem skipSpace_cons {c : Char} (solid : isSpace c = false) (t : Text) :
    skipSpace (c :: t) = c :: t := by
  simp [skipSpace, solid]

theorem readIdent_append (v : Json) (word rest : Text) :
    readIdent v word (word ++ rest) = .ok (v, rest) := by
  induction word with
  | nil => rfl
  | cons c cs ih => simp [readIdent, ih]

theorem delimited_itemsTail (vs : List Json) (rest : Text) :
    Delimited (itemsTail vs ++ ']' :: rest) := by
  cases vs <;> simp [Delimited, itemsTail]

theorem delimited_membersTail (ms : List (Text × Json)) (rest : Text) :
    Delimited (membersTail ms ++ '\x7d' :: rest) := by
  cases ms <;> simp [Delimited, membersTail]

section Collections

variable {fuel depth : Nat} {v : Json} {rest t : Text}

theorem items_end (first : Bool) (sofar : List Json) :
    items (fuel + 1) depth first sofar (']' :: t) = .ok (sofar, t) := by
  simp [items, skipSpace, isSpace]

theorem items_first (begins : Begins v) (read : value fuel depth (compact v ++ t) = .ok (v, t))
    (sofar : List Json) : items (fuel + 1) depth true sofar (compact v ++ t) =
      items fuel depth false (sofar ++ [v]) t := by
  obtain ⟨c, cs, front, solid, no_end⟩ := begins
  rw [front, List.cons_append] at read ⊢
  simp only [items, skipSpace_cons solid, beq_iff_eq, if_neg no_end, if_true, read, bind,
    Except.bind]

theorem items_next (begins : Begins v) (read : value fuel depth (compact v ++ t) = .ok (v, t))
    (sofar : List Json) : items (fuel + 1) depth false sofar (',' :: (compact v ++ t)) =
      items fuel depth false (sofar ++ [v]) t := by
  obtain ⟨c, cs, front, solid, no_end⟩ := begins
  have comma : isSpace ',' = false := rfl
  rw [front, List.cons_append] at read ⊢
  simp [items, skipSpace_cons comma, skipSpace_cons solid, no_end, read, bind, Except.bind]

theorem items_tail (vs sofar : List Json) (each : ∀ v ∈ vs, Begins v ∧ ReadsBack depth v)
    (enough : 2 * (itemsTail vs).length < fuel) :
    items fuel depth false sofar (itemsTail vs ++ ']' :: rest) = .ok (sofar ++ vs, rest) := by
  induction vs generalizing fuel sofar with
  | nil =>
    obtain ⟨m, rfl⟩ : ∃ m, fuel = m + 1 := ⟨fuel - 1, by omega⟩
    simp [itemsTail, items_end]
  | cons v vs ih =>
    obtain ⟨m, rfl⟩ : ∃ m, fuel = m + 1 := ⟨fuel - 1, by omega⟩
    have tail : itemsTail (v :: vs) = ',' :: (compact v ++ itemsTail vs) := by simp [itemsTail]
    rw [tail, List.length_cons, List.length_append] at enough
    obtain ⟨begins, reads⟩ := each v (by simp)
    have here := reads m _ (by omega) (delimited_itemsTail vs rest)
    have later : ∀ w ∈ vs, Begins w ∧ ReadsBack depth w := fun w member => each w (by simp [member])
    rw [tail, List.cons_append, List.append_assoc, items_next begins here,
      ih (sofar ++ [v]) later (by omega)]
    simp

theorem value_bracket : value (fuel + 1) (depth + 2) ('[' :: t) =
    (items fuel (depth + 1) true [] t).map fun (vs, rest) => (array vs, rest) := by
  have bracket : isSpace '[' = false := rfl
  simp only [value, skipSpace_cons bracket, bind, Except.bind, pure, Except.pure]
  cases items fuel (depth + 1) true [] t <;> rfl

theorem value_array {vs : List Json} (each : ∀ v ∈ vs, Begins v ∧ ReadsBack (depth + 1) v) :
    ReadsBack (depth + 2) (array vs) := by
  intro fuel rest enough delimited
  have text : compact (array vs) ++ rest = '[' :: (compactItems vs ++ ']' :: rest) := by
    simp [compact]
  have size : (compact (array vs)).length = (compactItems vs).length + 2 := by simp [compact]
  obtain ⟨m, rfl⟩ : ∃ m, fuel = m + 2 := ⟨fuel - 2, by omega⟩
  rw [text, value_bracket]
  cases vs with
  | nil => simp [compactItems, items_end, Except.map]
  | cons v vs =>
    obtain ⟨begins, reads⟩ := each v (by simp)
    rw [compactItems_cons, List.length_append] at size
    have here := reads m _ (by omega) (delimited_itemsTail vs rest)
    have later : ∀ w ∈ vs, Begins w ∧ ReadsBack (depth + 1) w :=
      fun w member => each w (by simp [member])
    rw [compactItems_cons, List.append_assoc, items_first begins here, List.nil_append,
      items_tail vs [v] later (by omega)]
    rfl

theorem member_read {k : Text} (read : value fuel depth (compact v ++ t) = .ok (v, t))
    (sofar : Entries Text Json) :
    member (fuel + 1) depth sofar (k.flatMap escaped ++ '"' :: ':' :: (compact v ++ t)) =
      members fuel depth false (sofar.put k v) t := by
  have colon : isSpace ':' = false := rfl
  simp [member, readString_quoted, skipSpace_cons colon, read, bind, Except.bind]

theorem members_end (first : Bool) (sofar : Entries Text Json) :
    members (fuel + 1) depth first sofar ('\x7d' :: t) = .ok (sofar, t) := by
  simp [members, skipSpace, isSpace]

theorem compactMember_append (m : Text × Json) (t : Text) : compactMember m ++ t =
    '"' :: (m.1.flatMap escaped ++ '"' :: ':' :: (compact m.2 ++ t)) := by
  simp [compactMember, quoted]

theorem members_first {m : Text × Json}
    (read : value fuel depth (compact m.2 ++ t) = .ok (m.2, t)) (sofar : Entries Text Json) :
    members (fuel + 2) depth true sofar (compactMember m ++ t) =
      members fuel depth false (sofar.put m.1 m.2) t := by
  have quote : isSpace '"' = false := rfl
  rw [compactMember_append, ← member_read read]
  simp [members, skipSpace_cons quote]

theorem members_next {m : Text × Json}
    (read : value fuel depth (compact m.2 ++ t) = .ok (m.2, t)) (sofar : Entries Text Json) :
    members (fuel + 2) depth false sofar (',' :: (compactMember m ++ t)) =
      members fuel depth false (sofar.put m.1 m.2) t := by
  have comma : isSpace ',' = false := rfl
  have quote : isSpace '"' = false := rfl
  rw [compactMember_append, ← member_read read]
  simp [members, skipSpace_cons comma, skipSpace_cons quote]

theorem members_tail (ms : List (Text × Json)) (sofar : Entries Text Json)
    (each : ∀ m ∈ ms, ReadsBack depth m.2) (enough : 2 * (membersTail ms).length < fuel) :
    members fuel depth false sofar (membersTail ms ++ '\x7d' :: rest) =
      .ok (ms.foldl (fun sofar m => sofar.put m.1 m.2) sofar, rest) := by
  induction ms generalizing fuel sofar with
  | nil =>
    obtain ⟨n, rfl⟩ : ∃ n, fuel = n + 1 := ⟨fuel - 1, by omega⟩
    simp [membersTail, members_end]
  | cons m ms ih =>
    have tail : membersTail (m :: ms) = ',' :: (compactMember m ++ membersTail ms) := by
      simp [membersTail]
    have size : (compactMember m).length = (quoted m.1).length + ((compact m.2).length + 1) := by
      simp [compactMember]
    rw [tail, List.length_cons, List.length_append] at enough
    obtain ⟨n, rfl⟩ : ∃ n, fuel = n + 2 := ⟨fuel - 2, by omega⟩
    have here := each m (by simp) n _ (by omega) (delimited_membersTail ms rest)
    have later : ∀ m' ∈ ms, ReadsBack depth m'.2 := fun m' member => each m' (by simp [member])
    rw [tail, List.cons_append, List.append_assoc, members_next here,
      ih (sofar.put m.1 m.2) later (by omega)]
    rfl

theorem value_brace : value (fuel + 1) (depth + 2) ('\x7b' :: t) =
    (members fuel (depth + 1) true [] t).map fun (ms, rest) => (object ms, rest) := by
  have brace : isSpace '\x7b' = false := rfl
  simp only [value, skipSpace_cons brace, bind, Except.bind, pure, Except.pure]
  cases members fuel (depth + 1) true [] t <;> rfl

theorem value_object {ms : List (Text × Json)} (each : ∀ m ∈ ms, ReadsBack (depth + 1) m.2)
    {fuel : Nat} (enough : 2 * (compact (object ms)).length ≤ fuel) :
    value fuel (depth + 2) (compact (object ms) ++ rest) =
      .ok (object (Entries.ofList ms), rest) := by
  have text : compact (object ms) ++ rest = '\x7b' :: (compactMembers ms ++ '\x7d' :: rest) := by
    simp [compact]
  have size : (compact (object ms)).length = (compactMembers ms).length + 2 := by simp [compact]
  obtain ⟨n, rfl⟩ : ∃ n, fuel = n + 3 := ⟨fuel - 3, by omega⟩
  rw [text, value_brace]
  cases ms with
  | nil => simp [compactMembers, members_end, Except.map, Entries.ofList]
  | cons m ms =>
    have long : (compactMember m).length = (quoted m.1).length + ((compact m.2).length + 1) := by
      simp [compactMember]
    rw [compactMembers_cons, List.length_append] at size
    have here := each m (by simp) n _ (by omega) (delimited_membersTail ms rest)
    have later : ∀ m' ∈ ms, ReadsBack (depth + 1) m'.2 :=
      fun m' member => each m' (by simp [member])
    rw [compactMembers_cons, List.append_assoc, members_first here,
      members_tail ms (Entries.put [] m.1 m.2) later (by omega)]
    rfl

end Collections

theorem value_digit {fuel depth : Nat} {c : Char} {t : Text} (digit : isDigit c) :
    value (fuel + 1) depth (c :: t) = readNumber true (c :: t) := by
  have others : ∀ d, isDigit d = false → c ≠ d := by
    rintro d other rfl
    rw [other] at digit
    cases digit
  have solid : isSpace c = false := by
    simp only [isSpace, Bool.or_eq_false_iff, beq_eq_false_iff_ne]
    exact ⟨⟨⟨others _ rfl, others _ rfl⟩, others _ rfl⟩, others _ rfl⟩
  simp [value, skipSpace_cons solid, digit, others 'n' rfl, others 't' rfl, others 'f' rfl,
    others '-' rfl]

theorem readsBack_int {depth : Nat} {n : Int} (low : -(Nat.pow 2 63 : Int) ≤ n)
    (high : n < (Nat.pow 2 64 : Int)) : ReadsBack depth (int n) := by
  intro fuel rest enough delimited
  cases n with
  | ofNat n =>
    have word : n ≤ maxWord := by
      simp only [maxWord, Nat.pow_eq, Int.ofNat_eq_natCast] at high ⊢
      omega
    obtain ⟨c, cs, front, decimal⟩ := Text.exists_front n
    have text : compact (int (Int.ofNat n)) = c :: cs := front
    rw [text, List.length_cons] at enough
    obtain ⟨m, rfl⟩ : ∃ m, fuel = m + 1 := ⟨fuel - 1, by omega⟩
    rw [text, List.cons_append, value_digit (isDigit_iff.mpr decimal), ← List.cons_append, ← front,
      readNumber_ofNat delimited word, afterInteger_positive delimited]
    rfl
  | negSucc n =>
    have small : n + 1 ≤ Nat.pow 2 63 := by
      rw [Int.negSucc_eq] at low
      omega
    have word : n + 1 ≤ maxWord := by
      simp only [maxWord, Nat.pow_eq] at small ⊢
      omega
    have text : compact (int (Int.negSucc n)) ++ rest = '-' :: (Text.ofNat (n + 1) ++ rest) := rfl
    have proper : 1 ≤ (compact (int (Int.negSucc n))).length := by simp [compact, Text.ofInt]
    obtain ⟨m, rfl⟩ : ∃ m, fuel = m + 1 := ⟨fuel - 1, by omega⟩
    have sign : isSpace '-' = false := rfl
    have negative : Int.negSucc n = -((n + 1 : Nat) : Int) := rfl
    rw [text, negative, ← afterInteger_negative delimited (Nat.succ_pos n) small,
      ← readNumber_ofNat delimited word]
    simp [value, skipSpace_cons sign]

theorem readsBack_of_storable {depth deeper : Nat} {v : Json} (storable : Storable depth v)
    (deep : depth < deeper) : ReadsBack deeper v := by
  -- No value has an empty text, so the fuel suffices for one more call.
  induction storable generalizing deeper with
  | null =>
    intro fuel rest enough delimited
    obtain ⟨n, rfl⟩ : ∃ n, fuel = n + 1 := ⟨fuel - 1, by simp [compact] at enough; omega⟩
    have text : compact null ++ rest = 'n' :: ("ull".toList ++ rest) := rfl
    rw [text, ← readIdent_append null "ull".toList rest]
    simp [value, skipSpace_cons (show isSpace 'n' = false from rfl)]
  | bool b =>
    intro fuel rest enough delimited
    cases b with
    | true =>
      obtain ⟨n, rfl⟩ : ∃ n, fuel = n + 1 := ⟨fuel - 1, by simp [compact] at enough; omega⟩
      have text : compact (bool true) ++ rest = 't' :: ("rue".toList ++ rest) := rfl
      rw [text, ← readIdent_append (bool true) "rue".toList rest]
      simp [value, skipSpace_cons (show isSpace 't' = false from rfl)]
    | false =>
      obtain ⟨n, rfl⟩ : ∃ n, fuel = n + 1 := ⟨fuel - 1, by simp [compact] at enough; omega⟩
      have text : compact (bool false) ++ rest = 'f' :: ("alse".toList ++ rest) := rfl
      rw [text, ← readIdent_append (bool false) "alse".toList rest]
      simp [value, skipSpace_cons (show isSpace 'f' = false from rfl)]
  | int low high => exact readsBack_int low high
  | string s =>
    intro fuel rest enough delimited
    obtain ⟨n, rfl⟩ : ∃ n, fuel = n + 1 := ⟨fuel - 1, by simp [compact, quoted] at enough; omega⟩
    have text : compact (string s) ++ rest = '"' :: (s.flatMap escaped ++ '"' :: rest) := by
      simp [compact, quoted]
    have quote : isSpace '"' = false := rfl
    have no_digit : isDigit '"' = false := rfl
    rw [text]
    simp [value, skipSpace_cons quote, no_digit, readString_quoted, bind, Except.bind, pure,
      Except.pure]
  | array each ih =>
    obtain ⟨d, rfl⟩ : ∃ d, deeper = d + 2 := ⟨deeper - 2, by omega⟩
    apply value_array
    intro v member
    exact ⟨begins_of_storable (each v member), ih v member (by omega)⟩
  | object distinct each ih =>
    obtain ⟨d, rfl⟩ : ∃ d, deeper = d + 2 := ⟨deeper - 2, by omega⟩
    intro fuel rest enough delimited
    rw [value_object (fun m member => ih m member (by omega)) enough,
      Entries.ofList_of_nodup distinct]

end Json
end RequireInjection
