import Mathlib.Data.List.Basic
import RequireInjection.CallPattern

/-!
Regular expressions as far as call patterns write them: characters, sets of characters, one or more
of a set, alternatives and brackets. A text is read as an expression, one character after another.
An expression takes the head of a text in several ways, which stand in the order of preference: an
earlier alternative before a later one, more of a set before fewer. The first way counts.
-/
namespace RequireInjection

inductive Regex where
  | empty
  | char (c : Char)
  | set (negated : Bool) (cs : List Char)
  | repeated (negated : Bool) (cs : List Char)
  | seq (first second : Regex)
  | alt (first second : Regex)
  | capture (inner : Regex)
  deriving DecidableEq, Repr

namespace Regex

section Ways

structure Way where
  taken : Text
  captured : Option Text
  rest : Text
  deriving DecidableEq, Repr

def Way.andThen (w v : Way) : Way := ⟨w.taken ++ v.taken, v.captured.or w.captured, v.rest⟩

def admits (negated : Bool) (cs : List Char) (c : Char) : Bool := cs.contains c != negated

def one? (p : Char → Bool) : Text → Option Way
  | [] => none
  | c :: t => if p c then some ⟨[c], none, t⟩ else none

/-- The longest way first. -/
def oneOrMore (p : Char → Bool) : Text → List Way
  | [] => []
  | c :: t =>
    if p c then (oneOrMore p t).map (⟨[c], none, t⟩ : Way).andThen ++ [⟨[c], none, t⟩] else []

def ways : Regex → Text → List Way
  | empty, t => [⟨[], none, t⟩]
  | char c, t => (one? (· = c) t).toList
  | set negated cs, t => (one? (admits negated cs) t).toList
  | repeated negated cs, t => oneOrMore (admits negated cs) t
  | seq a b, t => (ways a t).flatMap fun w => (ways b w.rest).map w.andThen
  | alt a b, t => ways a t ++ ways b t
  | capture a, t => (ways a t).map fun w => { w with captured := some w.taken }

def spelled (e : Regex) (t : Text) : Regex := t.foldl (fun e c => e.seq (.char c)) e

variable {a b e : Regex} {t : Text}

theorem ways_seq_of_option {f : Text → Option Way} (single : ∀ t, b.ways t = (f t).toList) :
    (a.seq b).ways t = (a.ways t).filterMap fun w => (f w.rest).map w.andThen := by
  rw [ways, List.filterMap_eq_flatMap_toList]
  congr 1
  funext w
  rw [single]
  cases f w.rest <;> rfl

theorem ways_spelled (e : Regex) (p t : Text) :
    (e.spelled p).ways t = (e.ways t).filterMap fun w =>
      (Text.stripPrefix? p w.rest).map fun rest => ⟨w.taken ++ p, w.captured, rest⟩ := by
  induction p generalizing e with
  | nil => simp [spelled, Text.stripPrefix?]
  | cons c cs ih =>
    have step : e.spelled (c :: cs) = (e.seq (.char c)).spelled cs := rfl
    rw [step, ih, ways_seq_of_option (b := .char c) (fun t => rfl), List.filterMap_filterMap]
    congr 1
    funext w
    cases w.rest with
    | nil => rfl
    | cons d ds =>
      by_cases same : c = d
      · simp [one?, Text.stripPrefix?, same, Way.andThen]
      · simp [one?, Text.stripPrefix?, same, Ne.symm same]

end Ways

section Reading

/-- What has been read between two brackets: the alternatives before the last bar, and the one
that is being read. -/
structure Branches where
  earlier : Option Regex
  current : Regex

namespace Branches

def fresh : Branches := ⟨none, .empty⟩

def whole (g : Branches) : Regex :=
  match g.earlier with
  | none => g.current
  | some e => .alt e g.current

def add (g : Branches) (e : Regex) : Branches := { g with current := .seq g.current e }

def bar (g : Branches) : Branches := ⟨some g.whole, .empty⟩

end Branches

inductive Mode where
  | between
  | escape
  | opened
  | marked
  | inSet (negated : Bool) (cs : List Char)

structure Reading where
  branches : Branches
  around : List (Bool × Branches)
  mode : Mode

namespace Reading

def add (s : Reading) (e : Regex) : Reading :=
  { s with branches := s.branches.add e, mode := .between }

def close? (s : Reading) : Option Reading :=
  match s.around with
  | [] => none
  | (captures, outer) :: around =>
    let inner := if captures then .capture s.branches.whole else s.branches.whole
    some ⟨outer.add inner, around, .between⟩

def repeat? (s : Reading) : Option Reading :=
  match s.branches.current with
  | .seq e (.set negated cs) =>
    some { s with branches := { s.branches with current := .seq e (.repeated negated cs) } }
  | _ => none

def item? (s : Reading) (c : Char) : Option Reading :=
  if c = '\\' then some { s with mode := .escape }
  else if c = '[' then some { s with mode := .inSet false [] }
  else if c = '(' then some ⟨.fresh, (true, s.branches) :: s.around, .opened⟩
  else if c = ')' then s.close?
  else if c = '|' then some { s with branches := s.branches.bar, mode := .between }
  else if c = '+' then s.repeat?
  else if CallPattern.isMeta c then none
  else some (s.add (.char c))

def setItem? (s : Reading) (negated : Bool) (cs : List Char) (c : Char) : Option Reading :=
  if c = ']' then if cs = [] then none else some (s.add (.set negated cs))
  else if c = '^' then
    if cs = [] ∧ negated = false then some { s with mode := .inSet true [] } else none
  else if "[\\-&~".toList.contains c then none
  else some { s with mode := .inSet negated (cs ++ [c]) }

def step? (s : Reading) (c : Char) : Option Reading :=
  match s.mode with
  | .between => s.item? c
  | .escape => if CallPattern.isMeta c then some (s.add (.char c)) else none
  | .opened => if c = '?' then some { s with mode := .marked } else s.item? c
  | .marked =>
    match s.around with
    | (_, outer) :: around =>
      if c = ':' then some ⟨s.branches, (false, outer) :: around, .between⟩ else none
    | [] => none
  | .inSet negated cs => s.setItem? negated cs c

end Reading

def Reads (t : Text) (s s' : Reading) : Prop := t.foldlM Reading.step? s = some s'

def ofText? (t : Text) : Option Regex :=
  match t.foldlM Reading.step? ⟨.fresh, [], .between⟩ with
  | some ⟨branches, [], .between⟩ => some branches.whole
  | _ => none

variable {u : Text} {s s' s'' : Reading}

theorem Reads.append (h : Reads t s s') (h' : Reads u s' s'') : Reads (t ++ u) s s'' := by
  rw [Reads, List.foldlM_append, h]
  exact h'

theorem ofText?_of_reads {g : Branches} (h : Reads t ⟨.fresh, [], .between⟩ ⟨g, [], .between⟩) :
    ofText? t = some g.whole := by
  rw [ofText?, h]

variable (g : Branches) (around : List (Bool × Branches))

theorem reads_plain {c : Char} (plain : CallPattern.isMeta c = false) :
    Reads [c] ⟨g, around, .between⟩ ⟨g.add (.char c), around, .between⟩ := by
  have other : ∀ d, CallPattern.isMeta d = true → c ≠ d := by
    rintro d special rfl
    rw [plain] at special
    cases special
  have step : Reading.step? ⟨g, around, .between⟩ c =
      some ⟨g.add (.char c), around, .between⟩ := by
    simp only [Reading.step?, Reading.item?]
    rw [if_neg (other '\\' (by decide)), if_neg (other '[' (by decide)),
      if_neg (other '(' (by decide)), if_neg (other ')' (by decide)),
      if_neg (other '|' (by decide)), if_neg (other '+' (by decide)), plain]
    rfl
  rw [Reads, List.foldlM_cons, step]
  rfl

theorem reads_special {c : Char} (special : CallPattern.isMeta c) :
    Reads ['\\', c] ⟨g, around, .between⟩ ⟨g.add (.char c), around, .between⟩ := by
  have step : Reading.step? ⟨g, around, .escape⟩ c =
      some ⟨g.add (.char c), around, .between⟩ := by
    rw [Reading.step?, if_pos special]
    rfl
  have escape : Reading.step? ⟨g, around, .between⟩ '\\' = some ⟨g, around, .escape⟩ := rfl
  rw [Reads, List.foldlM_cons, escape, Option.bind_eq_bind, Option.bind_some, List.foldlM_cons, step]
  rfl

theorem reads_escaped (t : Text) : Reads (CallPattern.escaped t) ⟨g, around, .between⟩
    ⟨{ g with current := g.current.spelled t }, around, .between⟩ := by
  induction t generalizing g with
  | nil => rfl
  | cons c cs ih =>
    have later := ih (g.add (.char c))
    rw [CallPattern.escaped, List.flatMap_cons]
    refine Reads.append ?_ later
    by_cases special : CallPattern.isMeta c
    · rw [if_pos special]
      exact reads_special g around special
    · rw [if_neg special]
      exact reads_plain g around (by simpa using special)

def Branches.spell (g : Branches) : List Text → Branches
  | [] => g
  | [p] => { g with current := g.current.spelled p }
  | p :: ps => ({ g with current := g.current.spelled p } : Branches).bar.spell ps

theorem reads_alternatives (ps : List Text) :
    Reads (Text.join ['|'] (ps.map CallPattern.escaped)) ⟨g, around, .between⟩
      ⟨g.spell ps, around, .between⟩ := by
  induction ps generalizing g with
  | nil => rfl
  | cons p ps ih =>
    cases ps with
    | nil => exact reads_escaped g around p
    | cons p' ps =>
      let spelled : Branches := { g with current := g.current.spelled p }
      have bar : Reads ['|'] ⟨spelled, around, .between⟩ ⟨spelled.bar, around, .between⟩ := rfl
      exact ((reads_escaped g around p).append bar).append (ih spelled.bar)

def spelledWay? (t p : Text) : Option Way :=
  (Text.stripPrefix? p t).map fun rest => ⟨p, none, rest⟩

theorem ways_alternative (earlier : Option Regex) (p t : Text) :
    (Branches.mk earlier (empty.spelled p)).whole.ways t =
      (earlier.map (·.ways t)).getD [] ++ [p].filterMap (spelledWay? t) := by
  have current : (empty.spelled p).ways t = [p].filterMap (spelledWay? t) := by
    rw [ways_spelled]
    rfl
  cases earlier with
  | none => exact current
  | some e => simp only [Branches.whole, ways, current, Option.map_some, Option.getD_some]

theorem ways_spell (p : Text) (ps : List Text) (earlier : Option Regex) (t : Text) :
    ((Branches.mk earlier .empty).spell (p :: ps)).whole.ways t =
      (earlier.map (·.ways t)).getD [] ++ (p :: ps).filterMap (spelledWay? t) := by
  induction ps generalizing p earlier with
  | nil => exact ways_alternative earlier p t
  | cons p' ps ih =>
    have first := ways_alternative earlier p t
    have others := ih p' (some (Branches.mk earlier (empty.spelled p)).whole)
    rw [Option.map_some, Option.getD_some, first, List.append_assoc, ← List.filterMap_append]
      at others
    exact others

theorem ways_alternatives {ps : List Text} (nonempty : ps ≠ []) (t : Text) :
    (Branches.fresh.spell ps).whole.ways t = ps.filterMap (spelledWay? t) := by
  cases ps with
  | nil => exact absurd rfl nonempty
  | cons p ps => exact ways_spell p ps none t

end Reading

end Regex
end RequireInjection
