import RequireInjection.Proofs.ContextCall.Order
import RequireInjection.Proofs.Edit.Run

/-!
Which context calls are replaced. Keeping every call that begins where all kept before it have ended
keeps exactly the calls that lie in no other one, because two calls are nested or apart. Their edits
fit the source, so none is refused and the result is their one-pass splice.
-/
namespace RequireInjection

open Script

variable {source : Text}

/-- The call that a node is, if it calls a declared name; of several declarations of the name the
first one counts. -/
def namedCall? (loaders : List ContextLoader) (p : Placed) : Option ContextCall := do
  let callee ← p.tree.callee?
  guard (callee.kind = .identifier)
  let loader ← loaders.find? fun b => b.name = callee.text
  let argument ← p.tree.firstArgument?
  return ⟨p.start, p.stop, loader.base, argument.text, p.text⟩

def namedCalls (tree : SyntaxTree source) : List ContextCall :=
  tree.nodes.filterMap (namedCall? (tree.nodes.filterMap ContextLoader.ofNode?))

def ContextCall.Encloses (c d : ContextCall) : Prop := c.start ≤ d.start ∧ d.stop ≤ c.stop

instance (c d : ContextCall) : Decidable (c.Encloses d) := inferInstanceAs (Decidable (_ ∧ _))

/-- The calls of declared names that lie in no other such call. -/
def outermostCalls (tree : SyntaxTree source) : List ContextCall :=
  (namedCalls tree).filter fun d => ∀ c ∈ namedCalls tree, c.Encloses d → c = d

/-- The look-up by base path and name with a call to fall back to, letter by letter. -/
def keyedLookup (base name call : Text) : Text :=
  ("(injections[" : Text) ++ base ++ (" + " : Text) ++ name ++ ("] || " : Text) ++ call ++
    (")" : Text)

/-- The edits that put its look-up in the place of every outermost call. -/
def keyedEdits (tree : SyntaxTree source) : List Edit :=
  (outermostCalls tree).map fun c =>
    ⟨c.start, c.stop, keyedLookup c.base c.name (source.slice c.start c.stop)⟩

theorem head_callsAt (loaders : List ContextLoader) (p : Placed) :
    (callsAt loaders p).head? = namedCall? loaders p := by
  rw [callsAt, List.head?_filterMap]
  induction loaders with
  | nil =>
    simp only [List.findSome?_nil, namedCall?, List.find?_nil]
    cases p.tree.callee? with
    | none => rfl
    | some callee => simp [guard]
  | cons b bs ih =>
    rw [List.findSome?_cons, ih]
    simp only [namedCall?, ContextCall.ofNode?, List.find?_cons]
    cases p.tree.callee? with
    | none => rfl
    | some callee =>
      by_cases named : callee.kind = .identifier
      · by_cases same : b.name = callee.text
        · cases p.tree.firstArgument? <;> simp [named, same, guard, Placed.text]
        · have other : ¬ callee.text = b.name := fun h => same h.symm
          simp [named, same, other, guard]
      · simp [named, guard]

theorem outermost_skip {covered : Nat} {skipped rest : List ContextCall}
    (h : ∀ c ∈ skipped, c.start < covered) :
    outermost covered (skipped ++ rest) = outermost covered rest := by
  induction skipped with
  | nil => rfl
  | cons c cs ih =>
    rw [List.cons_append, outermost, if_pos (h c (by simp))]
    exact ih fun d hd => h d (by simp [hd])

theorem outermost_same_range {covered start stop : Nat} {group rest : List ContextCall}
    (same : ∀ c ∈ group, c.start = start ∧ c.stop = stop) (wide : start < stop) :
    outermost covered (group ++ rest) = outermost covered (group.head?.toList ++ rest) := by
  cases group with
  | nil => rfl
  | cons c cs =>
    have first := same c (by simp)
    have others : ∀ d ∈ cs, d.start = start ∧ d.stop = stop := fun d hd => same d (by simp [hd])
    simp only [List.head?_cons, Option.toList_some, List.cons_append, List.nil_append, outermost]
    split
    · rename_i covers
      refine outermost_skip fun d hd => ?_
      have := others d hd
      omega
    · congr 1
      refine outermost_skip fun d hd => ?_
      have := others d hd
      omega

theorem outermost_callsAt {loaders : List ContextLoader} {nodes : List Placed}
    (wide : ∀ p ∈ nodes, CallsName p → p.start < p.stop) (covered : Nat) :
    outermost covered (nodes.flatMap (callsAt loaders)) =
      outermost covered (nodes.filterMap (namedCall? loaders)) := by
  induction nodes generalizing covered with
  | nil => rfl
  | cons p ps ih =>
    have later := ih fun q hq => wide q (by simp [hq])
    rw [List.flatMap_cons, List.filterMap_cons, ← head_callsAt]
    cases group : callsAt loaders p with
    | nil => exact later covered
    | cons c cs =>
      have range : ∀ d ∈ c :: cs, d.start = p.start ∧ d.stop = p.stop := by
        intro d hd
        rw [← group] at hd
        exact ⟨(mem_callsAt hd).1, (mem_callsAt hd).2.1⟩
      have called : CallsName p := (mem_callsAt (c := c) (by rw [group]; simp)).2.2
      rw [outermost_same_range range (wide p (by simp) called)]
      simp only [List.head?_cons, Option.toList_some, List.cons_append, List.nil_append, outermost,
        later]

/-- Calls in the order of their starts, each inside of an earlier one or behind it. -/
def Laminar (calls : List ContextCall) : Prop :=
  (∀ c ∈ calls, c.start < c.stop) ∧
    calls.Pairwise fun c d => c.start < d.start ∧ (d.stop ≤ c.stop ∨ c.stop ≤ d.start)

/-- What is kept behind an offset that cuts no call is what lies there in no other call. -/
theorem outermost_eq_filter {covered : Nat} {calls : List ContextCall} (laminar : Laminar calls)
    (whole : ∀ c ∈ calls, c.start < covered → c.stop ≤ covered) :
    outermost covered calls =
      calls.filter fun d => covered ≤ d.start ∧ ∀ c ∈ calls, c.Encloses d → c = d := by
  induction calls generalizing covered with
  | nil => rfl
  | cons c cs ih =>
    obtain ⟨wide, ordered⟩ := laminar
    obtain ⟨first, rest⟩ := List.pairwise_cons.mp ordered
    have later : Laminar cs := ⟨fun d hd => wide d (by simp [hd]), rest⟩
    have wide_first := wide c (by simp)
    rw [outermost, List.filter_cons]
    by_cases covers : c.start < covered
    · -- an earlier call holds `c`, so it also holds whatever `c` holds
      have dropped : ¬ (covered ≤ c.start ∧ ∀ d ∈ c :: cs, d.Encloses c → d = c) := by omega
      rw [if_pos covers, if_neg (by simpa using dropped),
        ih later fun d hd => whole d (by simp [hd])]
      refine List.filter_congr fun d hd => decide_eq_decide.mpr (and_congr_right fun behind => ?_)
      simp only [List.mem_cons, forall_eq_or_imp]
      have outside : c.Encloses d → c = d := by
        intro encloses
        have := wide d (by simp [hd])
        have := whole c (by simp) covers
        have := encloses.2
        omega
      exact ⟨fun h => ⟨outside, h⟩, fun h => h.2⟩
    · have kept : covered ≤ c.start ∧ ∀ d ∈ c :: cs, d.Encloses c → d = c := by
        refine ⟨by omega, fun d hd encloses => ?_⟩
        rcases List.mem_cons.mp hd with here | hd
        · exact here
        · have := (first d hd).1
          have := encloses.1
          omega
      have cut : ∀ d ∈ cs, d.start < c.stop → d.stop ≤ c.stop := by
        intro d hd inside
        have := (first d hd).2
        omega
      rw [if_neg covers, if_pos (by simpa using kept), ih later cut]
      congr 1
      refine List.filter_congr fun d hd => decide_eq_decide.mpr ?_
      have starts := first d hd
      have wide_d := wide d (by simp [hd])
      simp only [List.mem_cons, forall_eq_or_imp]
      constructor
      · rintro ⟨behind, h⟩
        refine ⟨by omega, ?_, h⟩
        rintro ⟨_, inside⟩
        omega
      · rintro ⟨_, outside, h⟩
        refine ⟨?_, h⟩
        by_cases inside : d.start < c.stop
        · have same := outside ⟨by omega, cut d hd inside⟩
          rw [same] at starts
          omega
        · omega

theorem namedCall_ranges {loaders : List ContextLoader} {p : Placed} {c : ContextCall}
    (h : namedCall? loaders p = some c) : c.start = p.start ∧ c.stop = p.stop ∧ CallsName p := by
  rw [← head_callsAt] at h
  exact mem_callsAt (List.mem_of_mem_head? (Option.mem_def.mpr h))

theorem callsName_wide (tree : SyntaxTree source) {p : Placed} (member : p ∈ tree.nodes)
    (called : CallsName p) : p.start < p.stop := by
  obtain ⟨callee, _, hcallee, _⟩ := called
  obtain ⟨others, htree⟩ := callee_eq_some hcallee
  have solid : p.tree.Solid := tree.solid_node member (by rw [htree]; simp [Tree.kind])
  have := solid.size_pos
  simp only [Placed.stop]
  omega

theorem namedCalls_laminar (tree : SyntaxTree source) : Laminar (namedCalls tree) := by
  constructor
  · intro c hc
    obtain ⟨p, hp, hcall⟩ := List.mem_filterMap.mp hc
    obtain ⟨hstart, hstop, called⟩ := namedCall_ranges hcall
    rw [hstart, hstop]
    exact callsName_wide tree hp called
  · rw [namedCalls, List.pairwise_filterMap]
    refine List.Pairwise.imp ?_ (callsName_ordered tree)
    intro p q ordered c hc d hd
    obtain ⟨hstart, hstop, called⟩ := namedCall_ranges (Option.mem_def.mp hc)
    obtain ⟨hstart', hstop', called'⟩ := namedCall_ranges (Option.mem_def.mp hd)
    rw [hstart, hstop, hstart', hstop']
    exact ordered called called'

theorem outermost_allContextCalls (tree : SyntaxTree source) :
    outermost 0 (allContextCalls tree.root) = outermostCalls tree := by
  have loaders : contextLoaders tree.root = tree.nodes.filterMap ContextLoader.ofNode? := by
    rw [contextLoaders, Tree.walk_eq_preorder]
    rfl
  have whole : ∀ c ∈ namedCalls tree, c.start < 0 → c.stop ≤ 0 := by omega
  have kept := outermost_eq_filter (namedCalls_laminar tree) whole
  rw [allContextCalls_eq, outermost_callsAt fun p hp => callsName_wide tree hp, loaders]
  refine kept.trans ?_
  simp [outermostCalls]

theorem outermost_fit {covered : Nat} {calls : List ContextCall}
    (ranges : ∀ c ∈ calls, c.start ≤ c.stop ∧ c.stop ≤ source.size ∧ source.IsBoundary c.start ∧
      source.IsBoundary c.stop) :
    Edit.AllFit source covered ((outermost covered calls).map ContextCall.edit) := by
  induction calls generalizing covered with
  | nil => trivial
  | cons c cs ih =>
    have others : ∀ d ∈ cs, d.start ≤ d.stop ∧ d.stop ≤ source.size ∧
        source.IsBoundary d.start ∧ source.IsBoundary d.stop := fun d hd => ranges d (by simp [hd])
    rw [outermost]
    split
    · exact ih others
    · obtain ⟨ordered, inside, start_boundary, stop_boundary⟩ := ranges c (by simp)
      exact ⟨⟨by simp only [ContextCall.edit]; omega, ordered, inside, start_boundary,
        stop_boundary⟩, ih others⟩

theorem outermostCalls_fit (tree : SyntaxTree source) :
    Edit.AllFit source 0 ((outermostCalls tree).map ContextCall.edit) := by
  rw [← outermost_allContextCalls]
  refine outermost_fit fun c hc => ?_
  rw [allContextCalls_eq] at hc
  obtain ⟨p, hp, hcall⟩ := List.mem_flatMap.mp hc
  obtain ⟨hstart, hstop, -⟩ := mem_callsAt hcall
  rw [hstart, hstop]
  exact tree.node_boundaries hp

theorem resolve_of_parsed {tree : SyntaxTree source} (parsed : parseScript source = .ok tree) :
    resolveContextCalls source =
      .ok (source.splice 0 ((outermostCalls tree).map ContextCall.edit)) := by
  obtain ⟨cursor, replaced, text⟩ := EditCursor.replaceAll_of_fit (outermostCalls_fit tree)
  simp [resolveContextCalls, parsed, bind, Except.bind, Except.mapError,
    outermost_allContextCalls, replaced, text, pure, Except.pure]

theorem call_eq_slice (tree : SyntaxTree source) {c : ContextCall}
    (outer : c ∈ outermostCalls tree) : c.call = source.slice c.start c.stop := by
  obtain ⟨p, member, called⟩ := List.mem_filterMap.mp (List.mem_filter.mp outer).1
  obtain ⟨start, stop, -⟩ := namedCall_ranges called
  rw [start, stop, tree.slice_node member]
  simp only [namedCall?, Option.bind_eq_bind, Option.bind_eq_some_iff, Option.pure_def,
    Option.some.injEq] at called
  obtain ⟨_, _, _, _, _, _, _, _, rfl⟩ := called
  rfl

theorem replacement_eq (tree : SyntaxTree source) {c : ContextCall}
    (outer : c ∈ outermostCalls tree) :
    c.replacement = keyedLookup c.base c.name (source.slice c.start c.stop) := by
  rw [← call_eq_slice tree outer]
  unfold ContextCall.replacement lookup keyedLookup
  simp only [List.append_assoc]
  rfl

theorem keyedEdits_eq (tree : SyntaxTree source) :
    keyedEdits tree = (outermostCalls tree).map ContextCall.edit :=
  List.map_congr_left fun c outer => by rw [ContextCall.edit, replacement_eq tree outer]

theorem resolved_around {tree : SyntaxTree source}
    (parsed : parse source = .ok tree) {before after : List ContextCall} {c : ContextCall}
    (calls : outermostCalls tree = before ++ c :: after) :
    ∃ front behind, resolveContextCalls source = .ok (front ++ (c.replacement ++ behind)) ∧
      (front.size : Int) = c.start + (before.map fun d => d.edit.growth).sum := by
  have read : parseScript source = .ok tree := by simp [parseScript, parsed, Except.mapError]
  have fit := outermostCalls_fit tree
  have resolved := resolve_of_parsed read
  rw [calls, List.map_append, List.map_cons] at fit resolved
  have cut : source = [] ++ source := rfl
  obtain ⟨front, behind, whole, place⟩ := Text.splice_around cut fit
  refine ⟨front, behind, resolved.trans (congrArg Except.ok whole), ?_⟩
  simpa [List.map_map, Function.comp_def, ContextCall.edit] using place

/-- Resolving context calls never fails on a script, and its result is the one-pass splice of the
source at the calls of declared names that lie in no other such call, each replaced by the look-up
of its base path and its argument. These calls are nested or apart, their edits fit the source, and
every node stands for the source between its ends. -/
theorem resolve_eq_splice_outermost (source : Text) :
    (resolveContextCalls source = (parseScript source).map fun tree =>
      source.splice 0 (keyedEdits tree)) ∧
    ∀ tree, parseScript source = .ok tree →
      Laminar (namedCalls tree) ∧
      Edit.AllFit source 0 (keyedEdits tree) ∧
      ∀ p ∈ tree.nodes, source.slice p.start p.stop = p.text := by
  constructor
  · cases parsed : parseScript source with
    | error fault => simp [resolveContextCalls, parsed, bind, Except.bind, Except.map]
    | ok tree => rw [resolve_of_parsed parsed, Except.map, keyedEdits_eq]
  · intro tree _
    rw [keyedEdits_eq]
    exact ⟨namedCalls_laminar tree, outermostCalls_fit tree, fun p hp => tree.slice_node hp⟩

/-- The first declaration of a name gives the base path, and a call inside another is kept. -/
theorem first_base_kept :
    let source : Text :=
      "var req = require.context('./m/');\nvar req = require.context('./n/');\nreq(req('a'), b);"
    (∃ tree, parseScript source = .ok tree ∧ Laminar (namedCalls tree) ∧
      (namedCalls tree).length = 2 ∧ Edit.AllFit source 0 (keyedEdits tree)) ∧
    resolveContextCalls source = .ok
      (("var req = require.context('./m/');\nvar req = require.context('./n/');\n" : Text) ++
        ("(injections['./m/' + req('a')] || req(req('a'), b));" : Text)) := by
  intro source
  have result : ((parseScript source).toOption.map fun tree =>
      ((namedCalls tree).length, source.splice 0 (keyedEdits tree))) = some (2,
        ("var req = require.context('./m/');\nvar req = require.context('./n/');\n" : Text) ++
          ("(injections['./m/' + req('a')] || req(req('a'), b));" : Text)) := by
    decide +kernel
  obtain ⟨spliced, laws⟩ := resolve_eq_splice_outermost source
  cases outcome : parseScript source with
  | error fault =>
    rw [outcome] at result
    cases result
  | ok tree =>
    rw [outcome] at result spliced
    obtain ⟨two, text⟩ := Prod.mk.inj (Option.some.inj result)
    obtain ⟨laminar, fit, -⟩ := laws tree outcome
    exact ⟨⟨tree, rfl, laminar, two, fit⟩, spliced.trans (congrArg Except.ok text)⟩

end RequireInjection
