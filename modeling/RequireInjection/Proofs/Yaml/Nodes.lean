import RequireInjection.Yaml.Node
import RequireInjection.Proofs.Yaml.Braces

namespace RequireInjection.Yaml

open Scanner (memberTokens membersTokens flagToken filtersTokens)

def Node.written : Node → Option TokenKind
  | .scalar _ none none value plain => some (.scalar value plain)
  | _ => none

def Node.Spell (entries : List (Node × Node)) (ms : List (Text × Json)) : Prop :=
  entries.map (fun e => (e.1.written, e.2.written)) =
    ms.map fun m => (some (.scalar m.1 false), some (flagToken m.2))

theorem Node.spell_append {es es' : List (Node × Node)} {ms ms' : List (Text × Json)}
    (front : Node.Spell es ms) (behind : Node.Spell es' ms') :
    Node.Spell (es ++ es') (ms ++ ms') := by
  rw [Spell, List.map_append, List.map_append, front, behind]

theorem map_kind_cons {ts : List Token} {k : TokenKind} {ks : List TokenKind}
    (kinds : ts.map Token.kind = k :: ks) :
    ∃ a b ts', ts = ⟨k, a, b⟩ :: ts' ∧ ts'.map Token.kind = ks := by
  obtain ⟨⟨k', a, b⟩, ts', rfl, rfl, behind⟩ := List.map_eq_cons_iff.mp kinds
  exact ⟨a, b, ts', rfl, behind⟩

theorem flagToken_scalar (v : Json) : ∃ value plain, flagToken v = .scalar value plain := by
  cases v with
  | string t => exact ⟨t, false, rfl⟩
  | _ => exact ⟨_, true, rfl⟩

namespace Reading

variable {ts : List Token} {m : Text × Json} {behind : List TokenKind} (n : Nat)
  (handles : Entries Text Text) (anchors : Entries Text Nat)
  {a b c d e f g h i j k l : Mark} {key : Text} {plain : Bool}

theorem flowEntries_first (kinds : ts.map Token.kind = memberTokens m ++ behind) : ∃ entry ts',
    flowEntries (n + 3) true ⟨ts, handles, anchors⟩ =
        (entry :: (flowEntries (n + 2) false ⟨ts', handles, anchors⟩).1,
          (flowEntries (n + 2) false ⟨ts', handles, anchors⟩).2) ∧
      Node.Spell [entry] [m] ∧ ts'.map Token.kind = behind := by
  obtain ⟨value, plain, flag⟩ := flagToken_scalar m.2
  obtain ⟨a, b, ts₁, rfl, kinds₁⟩ := map_kind_cons kinds
  obtain ⟨c, d, ts₂, rfl, kinds₂⟩ := map_kind_cons kinds₁
  obtain ⟨e, f, ts₃, rfl, kinds₃⟩ := map_kind_cons kinds₂
  obtain ⟨g, h, ts₄, rfl, kinds₄⟩ := map_kind_cons kinds₃
  rw [flag]
  refine ⟨(.scalar c none none m.1 false, .scalar g none none value plain), ts₄, rfl, ?_, kinds₄⟩
  simp [Node.Spell, Node.written, flag]

theorem flowEntries_next
    (kinds : ts.map Token.kind = .flowEntry :: (memberTokens m ++ behind)) : ∃ entry ts',
    flowEntries (n + 3) false ⟨ts, handles, anchors⟩ =
        (entry :: (flowEntries (n + 2) false ⟨ts', handles, anchors⟩).1,
          (flowEntries (n + 2) false ⟨ts', handles, anchors⟩).2) ∧
      Node.Spell [entry] [m] ∧ ts'.map Token.kind = behind := by
  obtain ⟨a, b, ts₁, rfl, kinds₁⟩ := map_kind_cons kinds
  obtain ⟨entry, ts', first, spelled, rest⟩ := flowEntries_first n handles anchors kinds₁
  refine ⟨entry, ts', ?_, spelled, rest⟩
  rw [← first]
  obtain ⟨c, d, ts₂, rfl, -⟩ := map_kind_cons kinds₁
  rfl

theorem flowEntries_tail (ms : List (Text × Json)) (enough : ms.length + 3 ≤ n)
    (kinds : ts.map Token.kind =
      (ms.flatMap fun m => .flowEntry :: memberTokens m) ++ .flowMappingEnd :: behind) :
    ∃ entries ts', flowEntries n false ⟨ts, handles, anchors⟩ = (entries, ⟨ts', handles, anchors⟩) ∧
      Node.Spell entries ms ∧ ts'.map Token.kind = behind := by
  induction ms generalizing n ts with
  | nil =>
    obtain ⟨a, b, ts', rfl, rest⟩ := map_kind_cons kinds
    obtain ⟨k, rfl⟩ : ∃ k, n = k + 1 := ⟨n - 1, by omega⟩
    exact ⟨[], ts', rfl, rfl, rest⟩
  | cons m ms ih =>
    obtain ⟨k, rfl⟩ : ∃ k, n = k + 3 := ⟨n - 3, by omega⟩
    rw [List.flatMap_cons, List.cons_append, List.cons_append, List.append_assoc] at kinds
    obtain ⟨entry, ts', read, spelled, rest⟩ := flowEntries_next k handles anchors kinds
    obtain ⟨entries, ts'', later, spelled', rest'⟩ := ih (k + 2) (by simp at enough; omega) rest
    refine ⟨entry :: entries, ts'', ?_, ?_, rest'⟩
    · rw [read, later]
    · exact Node.spell_append spelled spelled'

theorem flowEntries_members (ms : List (Text × Json)) (enough : ms.length + 3 ≤ n)
    (kinds : ts.map Token.kind = membersTokens ms ++ .flowMappingEnd :: behind) :
    ∃ entries ts', flowEntries n true ⟨ts, handles, anchors⟩ = (entries, ⟨ts', handles, anchors⟩) ∧
      Node.Spell entries ms ∧ ts'.map Token.kind = behind := by
  cases ms with
  | nil =>
    obtain ⟨a, b, ts', rfl, rest⟩ := map_kind_cons kinds
    obtain ⟨k, rfl⟩ : ∃ k, n = k + 1 := ⟨n - 1, by omega⟩
    exact ⟨[], ts', rfl, rfl, rest⟩
  | cons m ms =>
    obtain ⟨k, rfl⟩ : ∃ k, n = k + 3 := ⟨n - 3, by omega⟩
    rw [membersTokens, List.append_assoc] at kinds
    obtain ⟨entry, ts', read, spelled, rest⟩ := flowEntries_first k handles anchors kinds
    obtain ⟨entries, ts'', later, spelled', rest'⟩ :=
      flowEntries_tail (k + 2) handles anchors ms (by simp at enough; omega) rest
    refine ⟨entry :: entries, ts'', ?_, ?_, rest'⟩
    · rw [read, later]
    · exact Node.spell_append spelled spelled'

theorem blockEntries_braces :
    blockEntries (n + 3) ⟨⟨.key, c, d⟩ :: ⟨.scalar key plain, e, f⟩ :: ⟨.value, g, h⟩ ::
        ⟨.flowMappingStart, k, l⟩ :: ts, handles, anchors⟩ =
      ((.scalar e none none key plain,
          .mapping k none none (flowEntries n true ⟨ts, handles, anchors⟩).1) ::
            (blockEntries (n + 2) (flowEntries n true ⟨ts, handles, anchors⟩).2).1,
        (blockEntries (n + 2) (flowEntries n true ⟨ts, handles, anchors⟩).2).2) := rfl

theorem node_blockMapping :
    node (n + 1) .block ⟨⟨.blockMappingStart, a, b⟩ :: ts, handles, anchors⟩ =
      (.mapping a none none (blockEntries n ⟨ts, handles, anchors⟩).1,
        (blockEntries n ⟨ts, handles, anchors⟩).2) := rfl

theorem node_braces {entries : List (Node × Node)} {ts' : List Token}
    (read : flowEntries n true ⟨ts, handles, anchors⟩ =
      (entries, ⟨⟨.blockEnd, i, j⟩ :: ts', handles, anchors⟩)) :
    node (n + 4) .block ⟨⟨.blockMappingStart, a, b⟩ :: ⟨.key, c, d⟩ :: ⟨.scalar key plain, e, f⟩ ::
        ⟨.value, g, h⟩ :: ⟨.flowMappingStart, k, l⟩ :: ts, handles, anchors⟩ =
      (.mapping a none none [(.scalar e none none key plain, .mapping k none none entries)],
        ⟨ts', handles, anchors⟩) := by
  rw [node_blockMapping, blockEntries_braces, read]
  rfl

end Reading

namespace Document

theorem ofText_filters (ms : List (Text × Json)) (fits : ∀ m ∈ ms, Member m) :
    ∃ a b c entries, ofText ("filters: ".toList ++ Json.compact (.object ms)) =
        ⟨some (.mapping a none none [(.scalar b none none "filters".toList true,
          .mapping c none none entries)]), true⟩ ∧ Node.Spell entries ms := by
  obtain ⟨_, _, _, tokens, kinds₁⟩ := map_kind_cons (Scanner.tokens_filters ms fits)
  obtain ⟨a, _, _, rfl, kinds₂⟩ := map_kind_cons kinds₁
  obtain ⟨_, _, _, rfl, kinds₃⟩ := map_kind_cons kinds₂
  obtain ⟨b, _, _, rfl, kinds₄⟩ := map_kind_cons kinds₃
  obtain ⟨_, _, _, rfl, kinds₅⟩ := map_kind_cons kinds₄
  obtain ⟨c, _, ts, rfl, kinds₆⟩ := map_kind_cons kinds₅
  have long : ms.length + 3 ≤ ts.length := by
    have few := Scanner.length_le_membersTokens ms
    have size := congrArg List.length kinds₆
    rw [List.length_map, List.length_append] at size
    simp only [List.length_cons, List.length_nil] at size
    omega
  obtain ⟨entries, ts', read, spelled, kinds₇⟩ := Reading.flowEntries_members
    (4 * ts.length + 20) commonHandles [] ms (by omega) kinds₆
  obtain ⟨_, _, _, rfl, kinds₈⟩ := map_kind_cons kinds₇
  obtain ⟨_, _, _, rfl, -⟩ := map_kind_cons kinds₈
  refine ⟨a, b, c, entries, ?_, spelled⟩
  rw [ofText, tokens]
  exact congrArg ofRoot (Reading.node_braces (4 * ts.length + 20) commonHandles [] read)

end Document
end RequireInjection.Yaml
