import RequireInjection.Config.Document
import RequireInjection.Injection
import RequireInjection.Proofs.FilterSet.ObjectQuery
import RequireInjection.Proofs.Yaml.Nodes
import RequireInjection.Proofs.Yaml.PlainScalar

namespace RequireInjection

open Yaml
open Yaml.Scanner (flagToken)

namespace Yaml.Node

variable {v : Json} {root n : Node} {path : Path}

theorem exists_scalar {value : Text} {plain : Bool}
    (written : n.written = some (.scalar value plain)) :
    ∃ m, n = scalar m none none value plain := by
  cases n with
  | scalar m anchor tag value' plain' =>
    cases anchor <;> cases tag <;> simp_all [Node.written]
  | _ => cases written

theorem resolve_flag (flag : Flag v) {value : Text} {plain : Bool}
    (token : flagToken v = .scalar value plain) :
    ∃ s, Scalar.resolve none value plain = .ok s ∧ jsonOfScalar s = pure v := by
  cases flag with
  | null =>
    cases token
    exact ⟨.null, rfl, rfl⟩
  | bool b =>
    cases token
    cases b
    · exact ⟨.bool false, rfl, rfl⟩
    · exact ⟨.bool true, rfl, rfl⟩
  | @int n low high =>
    cases token
    have range : -(Nat.pow 2 63 : Int) ≤ n ∧ n < (Nat.pow 2 64 : Int) := ⟨low, high⟩
    refine ⟨.int n, ?_, ?_⟩
    · simp only [Scalar.resolve, if_true]
      exact congrArg Except.ok (Scalar.ofPlain_ofInt low high)
    · rw [jsonOfScalar, if_pos range]
  | string printed =>
    cases token
    exact ⟨.text _, rfl, rfl⟩

theorem readText_written {key : Text} {plain : Bool}
    (written : n.written = some (.scalar key plain)) (wanted : String) :
    readText root path wanted n = pure key := by
  obtain ⟨m, rfl⟩ := exists_scalar written
  rfl

theorem readJson_scalar (root : Node) (depth : Nat) (path : Path) (m : Mark) (value : Text)
    (plain : Bool) : readJson root depth path (scalar m none none value plain) =
      match Scalar.resolve none value plain with
      | .ok s => jsonOfScalar s
      | .error e => throw (.wrongValue ⟨path, m⟩ e.value e.kind) := by
  -- The recursion is behind a bind, so the definition does not unfold by its equations.
  delta readJson
  cases depth <;> rfl

theorem readJson_flag (flag : Flag v) (written : n.written = some (flagToken v)) (depth : Nat) :
    readJson root depth path n = pure v := by
  obtain ⟨value, plain, token⟩ := flagToken_scalar v
  obtain ⟨s, resolved, json⟩ := resolve_flag flag token
  rw [token] at written
  obtain ⟨m, rfl⟩ := exists_scalar written
  rw [readJson_scalar, resolved]
  exact json

end Yaml.Node

namespace Config

variable {members : List (Text × Json)} {root : Node}

theorem readFilters_spelled {entries : List (Node × Node)} (spelled : Node.Spell entries members)
    (fits : ∀ m ∈ members, Member m) (path : Path) (m : Mark) :
    readFilters root path (.mapping m none none entries) = pure (FilterSet.ofList members) := by
  have each : ∀ s : FilterSet, entries.foldlM (fun (s : FilterSet) (e : Node × Node) => do
      let key ← Node.readText root path "a string" e.1
      return s.insert key (← Node.readJson root (depthLimit - 2) (path ++ [e.1.step]) e.2)) s =
        (pure (members.foldl (fun s m => s.insert m.1 m.2) s) : Read FilterSet) := by
    induction members generalizing entries with
    | nil =>
      intro s
      obtain rfl : entries = [] := by simpa [Node.Spell] using spelled
      rfl
    | cons m ms ih =>
      intro s
      cases entries with
      | nil => cases spelled
      | cons e es =>
        obtain ⟨⟨key, flag⟩, later⟩ : (e.1.written = some (.scalar m.1 false) ∧
            e.2.written = some (flagToken m.2)) ∧ Node.Spell es ms := by
          simpa [Node.Spell] using spelled
        have rest := ih later (fun m' member => fits m' (by simp [member]))
        rw [List.foldlM_cons, Node.readText_written key, pure_bind,
          Node.readJson_flag (fits m (by simp)).flag flag, pure_bind, pure_bind, rest]
        rfl
  exact each FilterSet.empty

theorem ofYaml_filters (fits : ∀ m ∈ members, Member m) :
    ofYaml ("filters: ".toList ++ Json.compact (.object members)) =
      .ok ⟨FilterSet.ofList members, moduleExtensions, none⟩ := by
  obtain ⟨a, b, c, entries, document, spelled⟩ := Document.ofText_filters members fits
  have filters : ∀ root path, readFilters root path (.mapping c none none entries) =
      pure (FilterSet.ofList members) := fun root path => readFilters_spelled spelled fits path c
  rw [ofYaml, document]
  simp only [readRoot, Node.followed, pure_bind, List.foldlM_cons, List.foldlM_nil, readEntry,
    Node.readText, if_true, filters]
  rfl

theorem storable_of_flag {v : Json} (flag : Flag v) (depth : Nat) : Json.Storable depth v := by
  cases flag with
  | null => exact .null
  | bool b => exact .bool b
  | int low high => exact .int low high
  | string printed => exact .string _

/-- The object of a filter set gives it in a document and in a query alike, with nothing else set by
the document. -/
theorem document_and_query_agree (members : List (Text × Json))
    (distinct : (members.map Prod.fst).Nodup) (fits : ∀ m ∈ members, Member m) :
    ∃ c s, ofYaml ("filters: ".toList ++ Json.compact (.object members)) = .ok c ∧
      FilterSet.ofQuery ('?' :: Json.compact (.object members)) = .ok s ∧
      c.filters = s ∧ s.entries = members ∧
      c.extensions = moduleExtensions ∧ c.outDir = none ∧
      c.filters.mode = s.mode ∧ ∀ source, transform c.filters source = transform s source := by
  have storable : ∀ m ∈ members, Json.Storable 126 m.2 :=
    fun m member => storable_of_flag (fits m member).flag 126
  have query := (FilterSet.object_query_read members storable).1
  have entries : (FilterSet.ofList members).entries = members := by
    rw [FilterSet.entries_ofList, Entries.ofList_of_nodup distinct]
  refine ⟨_, _, ofYaml_filters fits, query, rfl, entries, rfl, rfl, rfl, ?_⟩
  intro source
  rfl

/-- Keys and flags that would mean something else outside of quotes, and both ends of the
integers. -/
theorem quoted_indicators_agree :
    let members : List (Text × Json) := [("a: b #".toList, .string "--- [&x, *x]".toList),
      ("<<".toList, .string "~".toList), ("\"\\ ".toList, .bool false), ([], .null),
      ("0x1F".toList, .int (-9223372036854775808)), ("- ?".toList, .int 18446744073709551615)]
    (members.map Prod.fst).Nodup ∧ (∀ m ∈ members, Member m) ∧
      ∃ c s, ofYaml ("filters: ".toList ++ Json.compact (.object members)) = .ok c ∧
        FilterSet.ofQuery ('?' :: Json.compact (.object members)) = .ok s ∧
        c.filters = s ∧ s.entries = members := by
  intro members
  have distinct : (members.map Prod.fst).Nodup := by decide
  have keys : ∀ m ∈ members, (∀ c ∈ m.1, IsPrinted c) ∧ m.1.length ≤ 500 := by decide
  have flags : ∀ m ∈ members, Flag m.2 := by
    intro m member
    simp only [members, List.mem_cons, List.not_mem_nil, or_false] at member
    rcases member with rfl | rfl | rfl | rfl | rfl | rfl
    · exact .string (by decide)
    · exact .string (by decide)
    · exact .bool false
    · exact .null
    · exact .int (by decide) (by decide)
    · exact .int (by decide) (by decide)
  have fits : ∀ m ∈ members, Member m := fun m member =>
    ⟨(keys m member).1, (keys m member).2, flags m member⟩
  obtain ⟨c, s, document, query, same, entries, -⟩ := document_and_query_agree members distinct fits
  exact ⟨distinct, fits, c, s, document, query, same, entries⟩

end Config
end RequireInjection
