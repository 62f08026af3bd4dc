import RequireInjection.Proofs.FilterSet.PlainQuery
import RequireInjection.Proofs.Json.Unambiguity
import RequireInjection.Proofs.Utf8.LongestPrefix

/-!
The queries that are refused. A query needs its question mark; in braces it must be an object that
can be read, and otherwise every name and value must decode to the bytes of a text. The first that
does not is blamed.
-/
namespace RequireInjection
namespace FilterSet

def Braced (body : Text) : Prop := body.head? = some '{' ∧ body.getLast? = some '}'

instance (body : Text) : Decidable (Braced body) := inferInstanceAs (Decidable (_ ∧ _))

/-- The texts that are decoded to read a body, in the order in which this happens: segment by
segment, and in each the value before the name. -/
def decodedTexts (body : Text) : List Text := (parts body).flatMap rawTexts

/-- A fault is about the first of some texts whose bytes are not those of a text. It tells how many
of the bytes still are, at most, and whether those behind them only lack their end. -/
structure Blames (raws : List Text) (raw : Text) (fault : Utf8.Fault) : Prop where
  first : ∃ before after, raws = before ++ raw :: after ∧
    ∀ r ∈ before, Utf8.Valid (Percent.bytes r)
  broken : ¬ Utf8.Valid (Percent.bytes raw)
  front : Utf8.Valid ((Percent.bytes raw).take fault.index)
  longest : ∀ t, Utf8.encode t <+: Percent.bytes raw → (Utf8.encode t).length ≤ fault.index
  incomplete : fault = .incomplete fault.index ↔
    Utf8.BeginsCharacter ((Percent.bytes raw).drop fault.index)

section Order

variable {α : Type} {raw name value segment : Text} {raws : List Text} {fault : QueryFault}

def faultOf : Except QueryFault α → Option QueryFault
  | .error fault => some fault
  | .ok _ => none

def firstFault (raws : List Text) : Option QueryFault :=
  raws.findSome? fun raw => faultOf (decodeName raw)

theorem faultOf_eq_some {x : Except QueryFault α} : faultOf x = some fault ↔ x = .error fault := by
  cases x <;> simp [faultOf]

theorem faultOf_bind {x : Except QueryFault Text} {f : Text → Except QueryFault α}
    (later : Option QueryFault) (same : ∀ t, faultOf (f t) = later) :
    faultOf (x >>= f) = (faultOf x).or later := by
  cases x with
  | error fault => rfl
  | ok t => exact same t

theorem firstFault_cons (raw : Text) (raws : List Text) :
    firstFault (raw :: raws) = (faultOf (decodeName raw)).or (firstFault raws) := by
  rw [firstFault, List.findSome?_cons]
  cases faultOf (decodeName raw) <;> rfl

theorem firstFault_append (raws raws' : List Text) :
    firstFault (raws ++ raws') = (firstFault raws).or (firstFault raws') :=
  List.findSome?_append

theorem firstFault_singleton (raw : Text) : firstFault [raw] = faultOf (decodeName raw) := by
  rw [firstFault_cons, firstFault, List.findSome?_nil, Option.or_none]

theorem faultOf_readSegment (segment : Text) :
    faultOf (readSegment segment) = firstFault (rawTexts segment) := by
  have last : ∀ (raw : Text) (f : Text → Text × Setter),
      faultOf (decodeName raw >>= fun t => pure (f t)) = firstFault [raw] := by
    intro raw f
    rw [firstFault_singleton, faultOf_bind none fun t => rfl, Option.or_none]
  unfold readSegment
  rcases Text.notMem_or_eq_append '=' segment with valueless | ⟨name, value, rfl, first⟩
  · rw [rawTexts_valueless valueless, Text.splitOnce_of_notMem valueless]
    simp only
    split
    · exact last _ _
    · exact last _ _
    · rename_i no_minus no_plus
      have unsigned : segment.head? ∉ [some '-', some '+'] := by
        simp only [List.mem_cons, List.not_mem_nil, or_false, not_or]
        refine ⟨fun minus => ?_, fun plus => ?_⟩
        · obtain ⟨name, rfl⟩ := List.head?_eq_some_iff.mp minus
          exact no_minus name rfl
        · obtain ⟨name, rfl⟩ := List.head?_eq_some_iff.mp plus
          exact no_plus name rfl
      rw [if_neg unsigned]
      exact last _ _
  · rw [rawTexts_valued first, Text.splitOnce_append first, firstFault_cons]
    -- The value is decoded first, so its fault hides one of the name.
    refine faultOf_bind _ fun v => ?_
    by_cases brackets : ['[', ']'] <:+ name
    · obtain ⟨bare, rfl⟩ := brackets
      have kept : (bare ++ ['[', ']']).take ((bare ++ ['[', ']']).length - 2) = bare := by simp
      rw [if_pos (List.suffix_append _ _), kept, arrayName?_brackets]
      exact last _ _
    · rw [if_neg brackets, arrayName?_eq_none brackets]
      exact last _ _

theorem faultOf_readSegments (s : FilterSet) (segments : List Text) :
    faultOf (readSegments s segments) = firstFault (segments.flatMap rawTexts) := by
  induction segments generalizing s with
  | nil => rfl
  | cons segment segments ih =>
    rw [readSegments, List.flatMap_cons, firstFault_append, ← faultOf_readSegment]
    cases read : readSegment segment with
    | error fault => rfl
    | ok reading => exact ih _

theorem faultOf_ofQuery {body : Text} (plain : ¬ Braced body) :
    faultOf (ofQuery ('?' :: body)) = firstFault (decodedTexts body) := by
  have unbraced : isBraced body = false := by simpa [isBraced, Braced] using plain
  rw [ofQuery, unbraced, if_neg Bool.false_ne_true, faultOf_readSegments, segments_eq_parts,
    decodedTexts]

theorem faultOf_decodeName_eq_none :
    faultOf (decodeName raw) = none ↔ Utf8.Valid (Percent.bytes raw) := by
  rw [← Utf8.isOk_decode, decodeName, Percent.decode]
  cases Utf8.decode (Percent.bytes raw) <;>
    simp [Except.mapError, faultOf, Except.isOk, Except.toBool]

theorem faultOf_decodeName_eq_some : faultOf (decodeName raw) = some fault ↔
    ∃ f, fault = .percent raw f ∧ Utf8.decode (Percent.bytes raw) = .error f := by
  rw [decodeName, Percent.decode]
  cases Utf8.decode (Percent.bytes raw) <;> simp [Except.mapError, faultOf, eq_comm]

theorem blames_of_firstFault (found : firstFault raws = some fault) :
    ∃ raw f, fault = .percent raw f ∧ Blames raws raw f := by
  obtain ⟨before, raw, after, listed, faulty, earlier⟩ := List.findSome?_eq_some_iff.mp found
  obtain ⟨f, rfl, broken⟩ := faultOf_decodeName_eq_some.mp faulty
  obtain ⟨front, longest, incomplete⟩ := Utf8.decode_fault broken
  have invalid : ¬ Utf8.Valid (Percent.bytes raw) := by
    rw [← faultOf_decodeName_eq_none, faulty]
    simp
  exact ⟨raw, f, rfl, ⟨before, after, listed, fun r among =>
    faultOf_decodeName_eq_none.mp (earlier r among)⟩, invalid, front, longest, incomplete⟩

theorem exists_firstFault_iff :
    (∃ fault, firstFault raws = some fault) ↔ ∃ raw ∈ raws, ¬ Utf8.Valid (Percent.bytes raw) := by
  rw [← Option.isSome_iff_exists, firstFault, List.isSome_findSome?, List.any_eq_true]
  refine exists_congr fun raw => and_congr_right fun _ => ?_
  rw [← faultOf_decodeName_eq_none, Option.isSome_iff_ne_none]

end Order

theorem ofQuery_braced {body : Text} (braced : Braced body) :
    (∃ fault, ofQuery ('?' :: body) = .error fault) ↔ Json.Unreadable 127 body := by
  have reads_object : isBraced body = true := by simpa [isBraced, Braced] using braced
  rw [← Json.read_object_error_iff braced.1 braced.2, ofQuery, if_pos reads_object]
  cases Json.read body with
  | error fault => simp
  | ok v => cases v <;> simp

theorem ofQuery_plain {body : Text} (plain : ¬ Braced body) :
    (∃ fault, ofQuery ('?' :: body) = .error fault) ↔
      ∃ raw ∈ decodedTexts body, ¬ Utf8.Valid (Percent.bytes raw) := by
  simp only [← exists_firstFault_iff, ← faultOf_ofQuery plain, faultOf_eq_some]

/-- A query is refused if it is not empty and lacks its question mark, if it stands in braces and is
no object that can be read, or if it holds no object and some name or value does not decode to the
bytes of a text. The fault then quotes the first such name or value. -/
theorem query_refused_iff (query : Text) :
    ((∃ fault, ofQuery query = .error fault) ↔
      (query ≠ [] ∧ query.head? ≠ some '?') ∨
        ∃ body, query = '?' :: body ∧
          ((Braced body ∧ Json.Unreadable 127 body) ∨
            (¬ Braced body ∧ ∃ raw ∈ decodedTexts body, ¬ Utf8.Valid (Percent.bytes raw)))) ∧
      ∀ body fault, query = '?' :: body → ¬ Braced body → ofQuery query = .error fault →
        ∃ raw f, Blames (decodedTexts body) raw f ∧ fault = .percent raw f ∧ fault.message =
          ("invalid percent-encoding in '" : Text) ++ raw ++ ("': " : Text) ++ f.message := by
  refine ⟨?_, ?_⟩
  · cases query with
    | nil => simp [ofQuery]
    | cons c body =>
      by_cases mark : c = '?'
      · subst mark
        by_cases braced : Braced body
        · simp [ofQuery_braced braced, braced]
        · simp [ofQuery_plain braced, braced]
      · have refused : ofQuery (c :: body) = .error (.noQuestionMark (c :: body)) := by
          simp [ofQuery, mark]
        simp [refused, mark]
  · rintro body fault rfl plain faulty
    have found : firstFault (decodedTexts body) = some fault := by
      rw [← faultOf_ofQuery plain, faulty]
      rfl
    obtain ⟨raw, f, rfl, blames⟩ := blames_of_firstFault found
    exact ⟨raw, f, blames, rfl, rfl⟩

/-- A value is decoded before its name, and a sequence that its end cuts short is no broken one. -/
theorem cut_value_blamed :
    let body : Text := "k=1,%FF=a%E2%82&b"
    ¬ Braced body ∧ ofQuery ('?' :: body) = .error (.percent "a%E2%82" (.incomplete 1)) ∧
      Blames (decodedTexts body) "a%E2%82" (.incomplete 1) := by
  intro body
  have plain : ¬ Braced body := by decide +kernel
  have faulty : faultOf (ofQuery ('?' :: body)) = some (.percent "a%E2%82" (.incomplete 1)) := by
    decide +kernel
  have refused := faultOf_eq_some.mp faulty
  obtain ⟨raw, f, blames, same, -⟩ := (query_refused_iff ('?' :: body)).2 body _ rfl plain refused
  obtain ⟨rfl, rfl⟩ := QueryFault.percent.inj same
  exact ⟨plain, refused, blames⟩

end FilterSet
end RequireInjection
