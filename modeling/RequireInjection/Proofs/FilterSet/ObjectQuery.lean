import RequireInjection.Proofs.FilterSet.PlainQuery
import RequireInjection.Proofs.Json.Compact

namespace RequireInjection
namespace FilterSet

open Json

section Members

variable {members : List (Text × Json)}

theorem read_object (storable : ∀ m ∈ members, Storable 126 m.2) :
    Json.read (compact (.object members)) = .ok (.object (Entries.ofList members)) := by
  have each : ∀ m ∈ members, ReadsBack 127 m.2 := by
    intro m member
    exact readsBack_of_storable (storable m member) (by omega)
  have whole : value (4 * (compact (.object members)).length + 4) depthLimit
      (compact (.object members) ++ []) = .ok (.object (Entries.ofList members), []) :=
    value_object each (by omega)
  rw [List.append_nil] at whole
  simp [Json.read, readWith, whole, skipSpace, bind, Except.bind, pure, Except.pure,
    Except.mapError]

theorem isBraced_compact (members : List (Text × Json)) :
    isBraced (compact (.object members)) = true := by
  have text : compact (.object members) = ('\x7b' :: compactMembers members) ++ ['\x7d'] := by
    simp [compact]
  have last : (compact (.object members)).getLast? = some '\x7d' := by
    rw [text]
    exact List.getLast?_concat
  have first : (compact (.object members)).head? = some '\x7b' := by rw [text]; rfl
  rw [isBraced, first, last]
  rfl

theorem entries_ofList (members : List (Text × Json)) :
    (ofList members).entries = Entries.ofList members := by
  have puts : ∀ s : FilterSet, (members.foldl (fun s m => s.insert m.1 m.2) s).entries =
      members.foldl (fun es m => es.put m.1 m.2) s.entries := by
    induction members with
    | nil => intro s; rfl
    | cons m members ih => intro s; exact ih (s.insert m.1 m.2)
  exact puts empty

theorem eq_of_entries {s s' : FilterSet} (same : s.entries = s'.entries) : s = s' := by
  cases s
  cases s'
  cases same
  rfl

theorem ofList_ofList (members : List (Text × Json)) :
    ofList (Entries.ofList members) = ofList members := by
  apply eq_of_entries
  rw [entries_ofList, entries_ofList,
    Entries.ofList_of_nodup (Entries.nodup_keys_ofList members)]

theorem ofList_concat (members : List (Text × Json)) (m : Text × Json) :
    ofList (members ++ [m]) = (ofList members).insert m.1 m.2 := by
  simp [ofList]

theorem paths_ofList (members : List (Text × Json)) :
    (ofList members).paths = (members.map Prod.fst).eraseDups := by
  have assigned : ofList members =
      applyAll (members.map fun m => (m.1, Setter.assign m.2)) := by
    simp [ofList, applyAll, List.foldl_map, apply]
  have keys : (members.map fun m => (m.1, Setter.assign m.2)).map Prod.fst =
      members.map Prod.fst := by
    rw [List.map_map]
    rfl
  rw [assigned, paths_applyAll, keys]

theorem get?_ofList (members : List (Text × Json)) (key : Text) :
    (ofList members).get? key =
      ((members.filter fun m => m.1 = key).getLast?).map Prod.snd := by
  induction members using List.reverseRecOn with
  | nil => rfl
  | append_singleton members m ih =>
    rw [ofList_concat]
    by_cases same : m.1 = key
    · rw [same, get?_insert_self]
      simp [same]
    · rw [get?_insert_ne _ same, ih]
      simp [same]

end Members

/-- The compact text of an object whose flags can be stored, behind a question mark, gives the set
of its members put in order: a key that comes again keeps its place and has its last flag. -/
theorem object_query_read (members : List (Text × Json))
    (storable : ∀ m ∈ members, Storable 126 m.2) :
    ofQuery ('?' :: compact (.object members)) = .ok (ofList members) ∧
      (ofList members).paths = (members.map Prod.fst).eraseDups ∧
      ∀ key, (ofList members).get? key =
        ((members.filter fun m => m.1 = key).getLast?).map Prod.snd := by
  refine ⟨?_, paths_ofList members, get?_ofList members⟩
  simp only [ofQuery, isBraced_compact, if_true, read_object storable, ofList_ofList]

/-- A repeated key, escapes, both ends of the integers, and an object whose members keep their
order. -/
theorem repeated_key_read :
    let nested : Json :=
      .object [(['b'], .array [.int 18446744073709551615, .bool true]), (['a'], .null)]
    let members : List (Text × Json) :=
      [("\"\n".toList, .int (-9223372036854775808)), (['é'], .null), ("\"\n".toList, nested)]
    (∀ m ∈ members, Storable 126 m.2) ∧
      ofQuery ('?' :: compact (.object members)) = .ok (ofList members) ∧
      (ofList members).entries = [("\"\n".toList, nested), (['é'], .null)] := by
  intro nested members
  have items : ∀ v ∈ [Json.int 18446744073709551615, .bool true], Storable 124 v := by
    intro v member
    rcases List.mem_cons.mp member with rfl | last
    · exact .int (by decide) (by decide)
    · rw [List.mem_singleton.mp last]
      exact .bool true
  have inner : Storable 126 nested := by
    refine .object (by decide) ?_
    intro m member
    rcases List.mem_cons.mp member with rfl | last
    · exact .array items
    · rw [List.mem_singleton.mp last]
      exact .null
  have storable : ∀ m ∈ members, Storable 126 m.2 := by
    intro m member
    rcases List.mem_cons.mp member with rfl | later
    · exact .int (by decide) (by decide)
    rcases List.mem_cons.mp later with rfl | last
    · exact .null
    · rw [List.mem_singleton.mp last]
      exact inner
  exact ⟨storable, (object_query_read members storable).1, rfl⟩

end FilterSet
end RequireInjection
