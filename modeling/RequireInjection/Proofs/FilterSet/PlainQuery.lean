import Mathlib.Data.List.DropRight
import RequireInjection.FilterSet.Query
import RequireInjection.Proofs.Text.Splitting

/-!
What a query without an object means. Every segment says what becomes of the flag of one key. Taken
together the segments give each key the flag of its last segment, with the values appended since the
key was last assigned to, and the keys stand in the order in which they come up first.
-/
namespace RequireInjection
namespace FilterSet

def literals : List Text := ["true".toList, "false".toList, "null".toList]

/-- The text that stands for a scalar. A text that would be read as a literal stands for none. -/
inductive Spelled : Json → Text → Prop where
  | true : Spelled (.bool true) "true".toList
  | false : Spelled (.bool false) "false".toList
  | null : Spelled .null "null".toList
  | string {t : Text} (other : t ∉ literals) : Spelled (.string t) t

/-- The key of a segment, and what the segment does to its flag. -/
inductive Means : Text → Text → Setter → Prop where
  | append {name value key t : Text} {v : Json} (first : '=' ∉ name)
      (decoded : Percent.decode name = .ok key) (valued : Percent.decode value = .ok t)
      (spelled : Spelled v t) : Means ((name ++ ['[', ']']) ++ '=' :: value) key (.append v)
  | assign {name value key t : Text} {v : Json} (first : '=' ∉ name)
      (single : ¬ ['[', ']'] <:+ name) (decoded : Percent.decode name = .ok key)
      (valued : Percent.decode value = .ok t) (spelled : Spelled v t) :
      Means (name ++ '=' :: value) key (.assign v)
  | off {name key : Text} (valueless : '=' ∉ name) (decoded : Percent.decode name = .ok key) :
      Means ('-' :: name) key (.assign (.bool false))
  | on {name key : Text} (valueless : '=' ∉ name) (decoded : Percent.decode name = .ok key) :
      Means ('+' :: name) key (.assign (.bool true))
  | bare {name key : Text} (valueless : '=' ∉ name) (unsigned : name.head? ∉ [some '-', some '+'])
      (decoded : Percent.decode name = .ok key) : Means name key (.assign (.bool true))

/-- The texts of a segment that are decoded: name and value around the first equals sign, or the
name alone; the name without the brackets behind it or the sign in front. -/
def rawTexts (segment : Text) : List Text :=
  let name := segment.takeWhile (· ≠ '=')
  match segment.drop name.length with
  | _ :: value => [value, if ['[', ']'] <:+ name then name.take (name.length - 2) else name]
  | [] => [if name.head? ∈ [some '-', some '+'] then name.tail else name]

def Setter.isAppend : Setter → Bool
  | .append _ => true
  | .assign _ => false

def Setter.value : Setter → Json
  | .append v => v
  | .assign v => v

/-- The flag that the setters of one key leave: of the last one if it assigns, and otherwise the
values appended since the last assignment. -/
def flagOf (setters : List Setter) : Option Json :=
  match setters.getLast? with
  | none => none
  | some (.assign v) => some v
  | some (.append _) => some (.array ((setters.rtakeWhile Setter.isAppend).map Setter.value))

def settersOf (key : Text) (readings : List (Text × Setter)) : List Setter :=
  (readings.filter fun r => r.1 = key).map Prod.snd

def applyAll (readings : List (Text × Setter)) : FilterSet :=
  readings.foldl (fun s r => s.apply r.1 r.2) empty

def AssignsNoArray (readings : List (Text × Setter)) : Prop :=
  ∀ r ∈ readings, ∀ vs, r.2 ≠ .assign (.array vs)

section Segments

variable {segment name value key : Text} {setter : Setter} {t : Text}

theorem decodeName_eq_ok : decodeName segment = .ok t ↔ Percent.decode segment = .ok t := by
  unfold decodeName
  cases Percent.decode segment <;> simp [Except.mapError]

theorem arrayName?_brackets (name : Text) : arrayName? (name ++ ['[', ']']) = some name := by
  simp [arrayName?]

theorem arrayName?_eq_none (single : ¬ ['[', ']'] <:+ name) : arrayName? name = none := by
  unfold arrayName?
  split
  · rename_i rest backwards
    refine absurd ⟨rest.reverse, ?_⟩ single
    have whole := congrArg List.reverse backwards
    simpa using whole.symm
  · rfl

theorem literal_of_spelled {v : Json} (h : Spelled v t) : literal t = v := by
  cases h with
  | true => rfl
  | false => rfl
  | null => rfl
  | string other =>
    simp only [literals, List.mem_cons, List.not_mem_nil, or_false, not_or] at other
    obtain ⟨not_true, not_false, not_null⟩ := other
    rw [literal, if_neg not_true, if_neg not_false, if_neg not_null]

theorem exists_spelled (t : Text) : ∃ v, Spelled v t := by
  by_cases known : t ∈ literals
  · simp only [literals, List.mem_cons, List.not_mem_nil, or_false] at known
    rcases known with rfl | rfl | rfl
    · exact ⟨_, .true⟩
    · exact ⟨_, .false⟩
    · exact ⟨_, .null⟩
  · exact ⟨_, .string known⟩

theorem Spelled.ne_array {v : Json} (h : Spelled v t) (vs : List Json) : v ≠ .array vs := by
  cases h <;> simp

theorem readSegment_of_means (meaning : Means segment key setter) :
    readSegment segment = .ok (key, setter) := by
  cases meaning with
  | append first decoded valued spelled =>
    rename_i name value t v
    have absent : '=' ∉ name ++ ['[', ']'] := by simpa using first
    unfold readSegment
    rw [Text.splitOnce_append absent]
    simp [decodeName_eq_ok.mpr valued, literal_of_spelled spelled, arrayName?_brackets,
      decodeName_eq_ok.mpr decoded, bind, Except.bind, pure, Except.pure]
  | assign first single decoded valued spelled =>
    unfold readSegment
    rw [Text.splitOnce_append first]
    simp [decodeName_eq_ok.mpr valued, literal_of_spelled spelled, arrayName?_eq_none single,
      decodeName_eq_ok.mpr decoded, bind, Except.bind, pure, Except.pure]
  | off valueless decoded =>
    rename_i name
    have absent : '=' ∉ '-' :: name := by simpa using valueless
    unfold readSegment
    rw [Text.splitOnce_of_notMem absent]
    simp [decodeName_eq_ok.mpr decoded, bind, Except.bind, pure, Except.pure]
  | on valueless decoded =>
    rename_i name
    have absent : '=' ∉ '+' :: name := by simpa using valueless
    unfold readSegment
    rw [Text.splitOnce_of_notMem absent]
    simp [decodeName_eq_ok.mpr decoded, bind, Except.bind, pure, Except.pure]
  | bare valueless unsigned decoded =>
    unfold readSegment
    rw [Text.splitOnce_of_notMem valueless]
    simp only
    split
    · simp at unsigned
    · simp at unsigned
    · simp [decodeName_eq_ok.mpr decoded, bind, Except.bind, pure, Except.pure]

theorem rawTexts_valued (first : '=' ∉ name) (value : Text) :
    rawTexts (name ++ '=' :: value) =
      [value, if ['[', ']'] <:+ name then name.take (name.length - 2) else name] := by
  simp only [rawTexts, Text.takeWhile_before first, List.drop_left]

theorem rawTexts_valueless (absent : '=' ∉ name) :
    rawTexts name = [if name.head? ∈ [some '-', some '+'] then name.tail else name] := by
  simp only [rawTexts, Text.takeWhile_of_notMem absent, List.drop_length]

theorem decode_of_isOk (ok : (Percent.decode t).isOk) : ∃ v, Percent.decode t = .ok v := by
  cases decoded : Percent.decode t with
  | error fault => simp [decoded, Except.isOk, Except.toBool] at ok
  | ok v => exact ⟨v, rfl⟩

theorem means_of_decodes (decodes : ∀ raw ∈ rawTexts segment, (Percent.decode raw).isOk) :
    ∃ key setter, Means segment key setter := by
  rcases Text.notMem_or_eq_append '=' segment with valueless | ⟨name, value, rfl, first⟩
  · rw [rawTexts_valueless valueless] at decodes
    obtain ⟨key, decoded⟩ := decode_of_isOk (decodes _ (List.mem_singleton_self _))
    by_cases signed : segment.head? ∈ [some '-', some '+']
    · rw [if_pos signed] at decoded
      cases segment with
      | nil => simp at signed
      | cons c name =>
        have behind : '=' ∉ name := mt (List.mem_cons_of_mem c) valueless
        have sign : c = '-' ∨ c = '+' := by simpa using signed
        rcases sign with rfl | rfl
        · exact ⟨key, _, .off behind decoded⟩
        · exact ⟨key, _, .on behind decoded⟩
    · rw [if_neg signed] at decoded
      exact ⟨key, _, .bare valueless signed decoded⟩
  · rw [rawTexts_valued first] at decodes
    obtain ⟨t, valued⟩ := decode_of_isOk (decodes value (by simp))
    obtain ⟨v, spelled⟩ := exists_spelled t
    obtain ⟨key, decoded⟩ := decode_of_isOk
      (decodes _ (List.mem_cons_of_mem _ (List.mem_singleton_self _)))
    -- The mark of an array is looked for before the name is decoded.
    by_cases brackets : ['[', ']'] <:+ name
    · rw [if_pos brackets] at decoded
      obtain ⟨bare, rfl⟩ := brackets
      have kept : (bare ++ ['[', ']']).take ((bare ++ ['[', ']']).length - 2) = bare := by simp
      rw [kept] at decoded
      exact ⟨key, _, .append (by simpa using first) decoded valued spelled⟩
    · rw [if_neg brackets] at decoded
      exact ⟨key, _, .assign first brackets decoded valued spelled⟩

theorem Means.not_array (meaning : Means segment key setter) (vs : List Json) :
    setter ≠ .assign (.array vs) := by
  cases meaning with
  | append => simp
  | assign _ _ _ _ spelled => simpa using spelled.ne_array vs
  | off => simp
  | on => simp
  | bare => simp

end Segments

section Flags

variable {key : Text} {setter : Setter} {readings : List (Text × Setter)}

theorem applyAll_concat (readings : List (Text × Setter)) (r : Text × Setter) :
    applyAll (readings ++ [r]) = (applyAll readings).apply r.1 r.2 := by
  simp [applyAll]

theorem settersOf_concat (key : Text) (readings : List (Text × Setter)) (r : Text × Setter) :
    settersOf key (readings ++ [r]) =
      settersOf key readings ++ if r.1 = key then [r.2] else [] := by
  by_cases same : r.1 = key <;> simp [settersOf, same]

theorem flagOf_assign (setters : List Setter) (v : Json) :
    flagOf (setters ++ [.assign v]) = some v := by
  simp [flagOf]

theorem flagOf_append (setters : List Setter) (v : Json) :
    flagOf (setters ++ [.append v]) =
      some (.array ((setters.rtakeWhile Setter.isAppend).map Setter.value ++ [v])) := by
  have taken := List.rtakeWhile_concat_pos Setter.isAppend setters (.append v) rfl
  simp [flagOf, taken, Setter.value]

theorem paths_insert (s : FilterSet) (key : Text) (v : Json) :
    (s.insert key v).paths = if key ∈ s.paths then s.paths else s.paths ++ [key] := by
  have keys := Entries.keys_put s.entries key v
  unfold paths insert
  by_cases known : key ∈ s.entries.keys
  · simpa [known] using keys
  · simpa [known] using keys

theorem apply_eq_insert (s : FilterSet) (key : Text) (setter : Setter) :
    ∃ v, s.apply key setter = s.insert key v := by
  cases setter with
  | assign v => exact ⟨v, rfl⟩
  | append v =>
    cases flag : s.get? key with
    | none => exact ⟨.array [v], by simp [apply, flag]⟩
    | some w =>
      cases w with
      | array vs => exact ⟨.array (vs ++ [v]), by simp [apply, flag]⟩
      | _ => exact ⟨.array [v], by simp [apply, flag]⟩

theorem get?_insert_ne (s : FilterSet) {key other : Text} (differ : key ≠ other) (v : Json) :
    (s.insert key v).get? other = s.get? other := by
  rw [insert, get?, Entries.get?_put, if_neg differ]
  rfl

theorem get?_insert_self (s : FilterSet) (key : Text) (v : Json) :
    (s.insert key v).get? key = some v := by
  rw [insert, get?, Entries.get?_put, if_pos rfl]

theorem get?_apply_append {s : FilterSet} {setters : List Setter}
    (flag : s.get? key = flagOf setters) (scalar : ∀ vs, Setter.assign (.array vs) ∉ setters)
    (v : Json) :
    (s.apply key (.append v)).get? key = flagOf (setters ++ [.append v]) := by
  rw [flagOf_append]
  rcases List.eq_nil_or_concat setters with rfl | ⟨earlier, last, rfl⟩
  · have unset : s.get? key = none := flag
    simp [apply, unset, get?_insert_self]
  · rw [List.concat_eq_append] at flag scalar ⊢
    cases last with
    | append w =>
      rw [flagOf_append] at flag
      have taken := List.rtakeWhile_concat_pos Setter.isAppend earlier (.append w) rfl
      simp [apply, flag, get?_insert_self, taken, Setter.value]
    | assign w =>
      rw [flagOf_assign] at flag
      have stopped : (earlier ++ [Setter.assign w]).rtakeWhile Setter.isAppend = [] :=
        List.rtakeWhile_concat_neg Setter.isAppend earlier (.assign w) (by simp [Setter.isAppend])
      rw [stopped]
      cases w with
      | array vs => exact absurd (by simp) (scalar vs)
      | _ => simp [apply, flag, get?_insert_self]

theorem AssignsNoArray.setters (h : AssignsNoArray readings) (key : Text) (vs : List Json) :
    Setter.assign (.array vs) ∉ settersOf key readings := by
  intro member
  obtain ⟨r, among, same⟩ := List.mem_map.mp member
  exact h r (List.mem_filter.mp among).1 vs same

theorem get?_applyAll (h : AssignsNoArray readings) (key : Text) :
    (applyAll readings).get? key = flagOf (settersOf key readings) := by
  induction readings using List.reverseRecOn with
  | nil => rfl
  | append_singleton readings r ih =>
    have earlier : AssignsNoArray readings := fun q member => h q (List.mem_append_left _ member)
    rw [applyAll_concat, settersOf_concat]
    by_cases same : r.1 = key
    · rw [if_pos same, same]
      cases setter : r.2 with
      | assign v => rw [flagOf_assign, apply, get?_insert_self]
      | append v => exact get?_apply_append (ih earlier) (earlier.setters key) v
    · obtain ⟨v, inserted⟩ := apply_eq_insert (applyAll readings) r.1 r.2
      rw [if_neg same, List.append_nil, inserted, get?_insert_ne _ same, ih earlier]

theorem paths_applyAll (readings : List (Text × Setter)) :
    (applyAll readings).paths = (readings.map Prod.fst).eraseDups := by
  induction readings using List.reverseRecOn with
  | nil => rfl
  | append_singleton readings r ih =>
    obtain ⟨v, inserted⟩ := apply_eq_insert (applyAll readings) r.1 r.2
    rw [applyAll_concat, inserted, paths_insert, ih, List.map_append, List.eraseDups_append]
    by_cases known : r.1 ∈ readings.map Prod.fst
    · have listed : r.1 ∈ (readings.map Prod.fst).eraseDups := List.mem_eraseDups.mpr known
      rw [if_pos listed]
      simp [List.removeAll, known]
    · have unlisted : r.1 ∉ (readings.map Prod.fst).eraseDups := mt List.mem_eraseDups.mp known
      rw [if_neg unlisted]
      simp [List.removeAll, known, List.eraseDups_cons]

end Flags

theorem readSegments_of_means {segments : List Text} {readings : List (Text × Setter)}
    (meanings : List.Forall₂ (fun segment r => Means segment r.1 r.2) segments readings)
    (s : FilterSet) :
    readSegments s segments = .ok (readings.foldl (fun s r => s.apply r.1 r.2) s) := by
  induction meanings generalizing s with
  | nil => rfl
  | cons meaning rest ih =>
    rw [readSegments, readSegment_of_means meaning]
    exact ih _

theorem exists_readings {segments : List Text}
    (decodes : ∀ segment ∈ segments, ∀ raw ∈ rawTexts segment, (Percent.decode raw).isOk) :
    ∃ readings : List (Text × Setter),
      List.Forall₂ (fun segment r => Means segment r.1 r.2) segments readings := by
  induction segments with
  | nil => exact ⟨[], .nil⟩
  | cons segment rest ih =>
    obtain ⟨key, setter, meaning⟩ := means_of_decodes (decodes segment (by simp))
    obtain ⟨readings, meanings⟩ := ih fun other member => decodes other (by simp [member])
    exact ⟨(key, setter) :: readings, .cons meaning meanings⟩

theorem assignsNoArray_of_means {segments : List Text} {readings : List (Text × Setter)}
    (meanings : List.Forall₂ (fun segment r => Means segment r.1 r.2) segments readings) :
    AssignsNoArray readings := by
  induction meanings with
  | nil => simp [AssignsNoArray]
  | cons meaning rest ih =>
    intro r member
    rcases List.mem_cons.mp member with rfl | later
    · exact meaning.not_array
    · exact ih r later

def parts (body : Text) : List Text :=
  (body.splitOnP fun c => c = ',' || c = '&').filter (· ≠ [])

theorem segments_eq_parts (body : Text) : segments body = parts body := by
  rw [segments, parts, Text.splitBy_eq_splitOnP]
  refine List.filter_congr fun part _ => ?_
  cases part <;> simp

/-- A query that is no object and whose names and values can all be decoded gives a set. Its keys
are those of the segments in the order in which they first come up, and each has the flag that the
segments for it leave. -/
theorem plain_query_meaning (body : Text)
    (plain : ¬ (body.head? = some '{' ∧ body.getLast? = some '}'))
    (decodes : ∀ segment ∈ parts body, ∀ raw ∈ rawTexts segment, (Percent.decode raw).isOk) :
    ∃ s readings, ofQuery ('?' :: body) = .ok s ∧
      List.Forall₂ (fun segment r => Means segment r.1 r.2) (parts body) readings ∧
      s.paths = (readings.map Prod.fst).eraseDups ∧
      ∀ key, s.get? key = flagOf (settersOf key readings) := by
  obtain ⟨readings, meanings⟩ := exists_readings decodes
  have braced : isBraced body = false := by
    simpa [isBraced] using plain
  refine ⟨applyAll readings, readings, ?_, meanings, paths_applyAll readings,
    get?_applyAll (assignsNoArray_of_means meanings)⟩
  simp only [ofQuery, braced, Bool.false_eq_true, if_false, segments_eq_parts]
  exact readSegments_of_means meanings empty

/-- Segments whose keys are the same only once decoded are read as one entry. -/
theorem mixed_segments_read :
    let body : Text := "a[]=1&a=x,-b&&%61[]=2&+c&a[]=true"
    ¬ (body.head? = some '{' ∧ body.getLast? = some '}') ∧
      (∀ segment ∈ parts body, ∀ raw ∈ rawTexts segment, (Percent.decode raw).isOk) ∧
      ∃ s readings, ofQuery ('?' :: body) = .ok s ∧
        List.Forall₂ (fun segment r => Means segment r.1 r.2) (parts body) readings ∧
        (readings.map Prod.fst).eraseDups = [['a'], ['b'], ['c']] ∧
        ∀ key, s.get? key = flagOf (settersOf key readings) := by
  intro body
  have plain : ¬ (body.head? = some '{' ∧ body.getLast? = some '}') := by decide +kernel
  have decodes : ∀ segment ∈ parts body, ∀ raw ∈ rawTexts segment,
      (Percent.decode raw).isOk := by decide +kernel
  have listed : (ofQuery ('?' :: body)).map FilterSet.paths = .ok [['a'], ['b'], ['c']] := by
    decide +kernel
  obtain ⟨s, readings, result, meanings, paths, flags⟩ := plain_query_meaning body plain decodes
  rw [result] at listed
  have keys : s.paths = [['a'], ['b'], ['c']] := Except.ok.inj listed
  exact ⟨plain, decodes, s, readings, result, meanings, paths.symm.trans keys, flags⟩

end FilterSet
end RequireInjection
