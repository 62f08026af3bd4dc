import RequireInjection.Yaml.Token
import RequireInjection.Proofs.Yaml.Line

namespace RequireInjection.Yaml
namespace Scanner

open Input

section Taking

variable {s s' s'' : Scanner}

def Settled (s : Scanner) : Prop := ∀ c ∈ s.candidates, c = none

/-- A key may have begun before the first token that is not taken. -/
def Waits (s : Scanner) : Prop := ∃ c, some c ∈ s.candidates ∧ c.place = s.taken

def drained (s : Scanner) : Scanner :=
  { s with queue := [], taken := s.taken + s.queue.length }

/-- The first scanner's tokens are of the given kinds, and then come those of the second. -/
def Gives (s : Scanner) (kinds : List TokenKind) (s' : Scanner) : Prop :=
  ∃ ts : List Token, ts.map Token.kind = kinds ∧
    ∀ n, s.remaining (ts.length + n) = ts ++ s'.remaining n

theorem Gives.trans {kinds kinds' : List TokenKind} (first : Gives s kinds s')
    (last : Gives s' kinds' s'') : Gives s (kinds ++ kinds') s'' := by
  obtain ⟨ts, rfl, front⟩ := first
  obtain ⟨ts', rfl, behind⟩ := last
  refine ⟨ts ++ ts', List.map_append, ?_⟩
  intro n
  rw [List.length_append, Nat.add_assoc, front, behind, List.append_assoc]

def Yields (s : Scanner) (kinds : List TokenKind) : Prop :=
  ∃ ts : List Token, ts.map Token.kind = kinds ∧ ∀ n, s.remaining (ts.length + n) = ts

theorem Gives.yields {kinds kinds' : List TokenKind} (first : Gives s kinds s')
    (last : Yields s' kinds') : Yields s (kinds ++ kinds') := by
  obtain ⟨ts, rfl, front⟩ := first
  obtain ⟨ts', rfl, behind⟩ := last
  refine ⟨ts ++ ts', List.map_append, ?_⟩
  intro n
  rw [List.length_append, Nat.add_assoc, front, behind]

/-- Every place where a key may have begun is near enough for one. -/
def Fresh (s : Scanner) : Prop :=
  ∀ c, some c ∈ s.candidates → s.mark.line ≤ c.mark.line ∧ s.mark.index ≤ c.mark.index + 1024

theorem Settled.fresh (settled : Settled s) : Fresh s := by
  intro c member
  cases settled _ member

theorem dropStale_fresh (fresh : Fresh s) : s.dropStale = some s := by
  have near : ∀ c, some c ∈ s.candidates →
      (decide (c.mark.line < s.mark.line) || decide (c.mark.index + 1024 < s.mark.index)) =
        false := by
    intro c member
    obtain ⟨line, index⟩ := fresh c member
    simp only [Bool.or_eq_false_iff, decide_eq_false_iff_not]
    omega
  have none_stale : (s.candidates.any fun c => (c.map fun c =>
      ((c.mark.line < s.mark.line || c.mark.index + 1024 < s.mark.index) && c.required)).getD
        false) = false := by
    rw [List.any_eq_false]
    intro c member
    cases c with
    | none => simp
    | some c => simp [near c member]
  have same : (s.candidates.map fun c => c.filter fun c =>
      !(c.mark.line < s.mark.line || c.mark.index + 1024 < s.mark.index)) = s.candidates := by
    rw [List.map_congr_left (g := id), List.map_id]
    intro c member
    cases c with
    | none => rfl
    | some c => rw [Option.filter_some, near c member]; rfl
  simp only [dropStale, none_stale, same, Bool.false_eq_true, if_false]

theorem ready_settled (settled : Settled s) (full : s.queue ≠ []) (n : Nat) :
    s.ready (n + 1) = some s := by
  have empty : s.queue.isEmpty = false := by simpa using full
  have no_wait : (s.candidates.any fun c => (c.map fun c => c.place == s.taken).getD false) =
      false := by
    rw [List.any_eq_false]
    intro c member
    simp [settled c member]
  simp only [ready, empty, dropStale_fresh settled.fresh, Option.bind_eq_bind, Option.bind_some,
    no_wait, Bool.false_eq_true, if_false]
  rfl

theorem ready_waits (waits : Waits s) (full : s.queue ≠ []) (fresh : Fresh s) (n : Nat) :
    s.ready (n + 1) = s.fetch.bind (ready n) := by
  obtain ⟨c, member, here⟩ := waits
  have empty : s.queue.isEmpty = false := by simpa using full
  have wait : (s.candidates.any fun c => (c.map fun c => c.place == s.taken).getD false) =
      true := by
    rw [List.any_eq_true]
    exact ⟨some c, member, by simp [here]⟩
  simp only [ready, empty, dropStale_fresh fresh, Option.bind_eq_bind, Option.bind_some, wait,
    Bool.false_eq_true, if_false, if_true]

theorem ready_empty (empty : s.queue = []) (n : Nat) :
    s.ready (n + 1) = s.fetch.bind (ready n) := by
  simp [ready, empty]

theorem gives_first {t : Token} {queue : List Token} (settled : Settled s)
    (front : s.queue = t :: queue) (going : t.kind ≠ .streamEnd) :
    Gives s [t.kind] { s with queue, taken := s.taken + 1 } := by
  have full : s.queue ≠ [] := by simp [front]
  refine ⟨[t], rfl, ?_⟩
  intro n
  rw [List.length_singleton, Nat.add_comm, remaining, ready_settled settled full]
  simp only [front, if_neg going, List.singleton_append]

theorem yields_last {t : Token} (settled : Settled s) (last : s.queue = [t])
    (stop : t.kind = .streamEnd) : Yields s [.streamEnd] := by
  have full : s.queue ≠ [] := by simp [last]
  refine ⟨[t], by simp [stop], ?_⟩
  intro n
  rw [List.length_singleton, Nat.add_comm, remaining, ready_settled settled full]
  simp only [last, if_pos stop]

theorem gives_queue (settled : Settled s) (going : ∀ t ∈ s.queue, t.kind ≠ .streamEnd) :
    Gives s (s.queue.map Token.kind) s.drained := by
  induction size : s.queue generalizing s with
  | nil =>
    have same : s.drained = s := by
      cases s
      cases size
      rfl
    rw [same]
    exact ⟨[], rfl, by simp⟩
  | cons t queue ih =>
    have first := gives_first settled size (going t (by simp [size]))
    have later : ∀ u ∈ queue, u.kind ≠ .streamEnd :=
      fun u member => going u (by simp [size, member])
    have sum : s.taken + (queue.length + 1) = s.taken + 1 + queue.length := by omega
    have same : s.drained = drained { s with queue, taken := s.taken + 1 } := by
      simp only [drained, size, List.length_cons, sum]
    rw [same]
    exact first.trans (ih (s := { s with queue, taken := s.taken + 1 }) settled later rfl)

theorem gives_of_ready (same : ∀ n, s.ready (n + 3) = s'.ready (n + 3)) (settled : Settled s')
    (full : s'.queue ≠ []) : Gives s [] s' := by
  refine ⟨[], rfl, ?_⟩
  intro n
  rw [List.length_nil, Nat.zero_add, List.nil_append]
  cases n with
  | zero => rfl
  | succ n =>
    rw [remaining, remaining, same, ready_settled settled full, ready_settled settled full]

theorem gives_fetch (empty : s.queue = []) (fetched : s.fetch = some s') (settled : Settled s')
    (full : s'.queue ≠ []) : Gives s [] s' := by
  apply gives_of_ready _ settled full
  intro n
  rw [ready_empty empty, fetched, Option.bind_some, ready_settled settled full,
    ready_settled settled full]

theorem gives_of_fetch (empty : s.queue = []) (fetched : s.fetch = some s') (settled : Settled s')
    (full : s'.queue ≠ []) (going : ∀ t ∈ s'.queue, t.kind ≠ .streamEnd) :
    Gives s (s'.queue.map Token.kind) s'.drained :=
  (gives_fetch empty fetched settled full).trans (gives_queue settled going)

theorem yields_of_fetch {t u : Token} (empty : s.queue = []) (fetched : s.fetch = some s')
    (settled : Settled s') (queue : s'.queue = [t, u]) (going : t.kind ≠ .streamEnd)
    (stop : u.kind = .streamEnd) : Yields s [t.kind, .streamEnd] := by
  have reached := gives_fetch empty fetched settled (by simp [queue])
  have first := gives_first settled queue going
  exact (reached.trans first).yields (yields_last settled rfl stop)

theorem gives_of_key (empty : s.queue = []) (fetched : s.fetch = some s') (waits : Waits s')
    (full : s'.queue ≠ []) (fresh : Fresh s') (decided : s'.fetch = some s'')
    (settled : Settled s'') (full' : s''.queue ≠ [])
    (going : ∀ t ∈ s''.queue, t.kind ≠ .streamEnd) :
    Gives s (s''.queue.map Token.kind) s''.drained := by
  have reached : Gives s [] s'' := by
    apply gives_of_ready _ settled full'
    intro n
    rw [ready_empty empty, fetched, Option.bind_some, ready_waits waits full fresh, decided,
      Option.bind_some, ready_settled settled full', ready_settled settled full']
  exact reached.trans (gives_queue settled going)

end Taking

structure AtToken (s : Scanner) (c : Char) (rest : Text) (column : Nat) : Prop where
  started : s.started = true
  input : s.input = firstLine (c :: rest) column
  fresh : Fresh s
  level : s.inFlow = true ∨ s.indent ≤ column
  printed : IsPrinted c
  solid : c ≠ ' '
  no_comment : c ≠ '#'
  unmarked : 0 < column ∨ isNameChar c ∧ c ≠ '-'

section Fetching

variable {s : Scanner} {rest : Text} {c : Char} {column : Nat}

theorem AtToken.not_isBlank (here : AtToken s c rest column) : isBlank c = false := by
  rw [Bool.eq_false_iff, ne_eq, isBlank_iff here.printed]
  exact here.solid

theorem AtToken.not_isSpace (here : AtToken s c rest column) :
    isSpace c = false ∧ isTab c = false := by
  simpa [isBlank] using here.not_isBlank

theorem AtToken.toNextToken (here : AtToken s c rest column) (n : Nat) :
    s.toNextToken (n + 1) = s := by
  obtain ⟨no_space, no_tab⟩ := here.not_isSpace
  have no_order_mark : s.input.test 0 (fun c => c.toNat == 0xFEFF) = false := by
    have := here.printed.2
    simp [here.input, Input.test]
    omega
  have passed : s.input.skipWhile
      (fun c => isSpace c || ((s.inFlow || !s.keyAllowed) && isTab c)) = s.input := by
    rw [here.input]
    apply skipWhile_firstLine
    intro d head
    obtain rfl : d = c := by simpa using head.symm
    simp [no_space, no_tab]
  have kept : s.input.skipComment = s.input := by
    rw [here.input]
    exact skipComment_firstLine here.no_comment
  have going : s.input.test 0 isBreak = false := by
    simpa [here.input, Input.test] using not_isBreak here.printed
  rw [Scanner.toNextToken]
  simp only [no_order_mark, Bool.and_false, Bool.false_eq_true, if_false, passed, kept, going]

theorem AtToken.toNextToken_blank (front : s.input = firstLine (' ' :: c :: rest) column)
    (here : AtToken { s with input := firstLine (c :: rest) (column + 1) } c rest (column + 1))
    (n : Nat) :
    s.toNextToken (n + 1) = { s with input := firstLine (c :: rest) (column + 1) } := by
  obtain ⟨no_space, no_tab⟩ := here.not_isSpace
  have no_order_mark : s.input.test 0 (fun c => c.toNat == 0xFEFF) = false := by
    rw [front]
    rfl
  have passed : s.input.skipWhile
      (fun c => isSpace c || ((s.inFlow || !s.keyAllowed) && isTab c)) =
        firstLine (c :: rest) (column + 1) := by
    have blank : isSpace ' ' = true := rfl
    simp [front, skipWhile, takeWhile, blank, no_space, no_tab, skipMany]
  have going : (firstLine (c :: rest) (column + 1)).test 0 isBreak = false := by
    simpa [Input.test] using not_isBreak here.printed
  rw [Scanner.toNextToken]
  simp only [no_order_mark, Bool.and_false, Bool.false_eq_true, if_false, passed,
    skipComment_firstLine here.no_comment, going]

theorem fetch_blank (front : s.input = firstLine (' ' :: c :: rest) column)
    (here : AtToken { s with input := firstLine (c :: rest) (column + 1) } c rest (column + 1)) :
    s.fetch = ({ s with input := firstLine (c :: rest) (column + 1) } : Scanner).fetch := by
  have started : s.started = true := here.started
  rw [fetch, if_neg (by simp [started]), AtToken.toNextToken_blank front here, fetch,
    if_neg (by simp [started]), here.toNextToken]

theorem AtToken.arrived (here : AtToken s c rest column) (n : Nat) :
    (s.toNextToken (n + 1)).dropStale = some s := by
  rw [here.toNextToken, dropStale_fresh here.fresh]

theorem unroll_level {i : Int} (level : s.inFlow = true ∨ s.indent ≤ i) : s.unroll i = s := by
  cases inside : s.inFlow with
  | true => simp [Scanner.unroll, inside]
  | false =>
    have shallow : s.indent ≤ i := by simpa [inside] using level
    rw [Scanner.unroll, if_neg (by simp [inside]), unroll.close.eq_def, if_pos shallow]

theorem AtToken.unroll (here : AtToken s c rest column) : s.unroll s.mark.column = s := by
  have column : s.mark.column = column := by
    rw [mark, here.input]
    rfl
  rw [column]
  exact unroll_level here.level

theorem AtToken.no_mark (here : AtToken s c rest column) :
    ((s.input.mark.column == 0) = false ∨ c ≠ '%') ∧ s.input.seesDocumentMark '-' = false ∧
      s.input.seesDocumentMark '.' = false := by
  rcases here.unmarked with later | ⟨name, no_dash⟩
  · have : (column == 0) = false := by simpa using Nat.ne_of_gt later
    simp [here.input, seesDocumentMark, this]
  · have no_dot : c ≠ '.' := ne_of_isNameChar name rfl
    refine ⟨Or.inr (ne_of_isNameChar name rfl), ?_⟩
    simp [here.input, seesDocumentMark, Input.test, no_dash, no_dot]

theorem fetch_indicator {f : Scanner → Option Scanner} (here : AtToken s c rest column)
    (indicator : (c, f) ∈ [('"', (·.fetchQuoted false)), (',', fetchFlowEntry),
      ('\x7b', (·.fetchFlowStart .flowMappingStart)),
      ('\x7d', (·.fetchFlowEnd .flowMappingEnd))]) :
    s.fetch = f s := by
  obtain ⟨-, no_dashes, no_dots⟩ := here.no_mark
  simp only [fetch, here.started, here.arrived, Option.bind_eq_bind, Option.bind_some,
    here.unroll, no_dashes, no_dots]
  simp only [List.mem_cons, Prod.mk.injEq, List.not_mem_nil, or_false] at indicator
  rcases indicator with ⟨rfl, rfl⟩ | ⟨rfl, rfl⟩ | ⟨rfl, rfl⟩ | ⟨rfl, rfl⟩ <;> simp [here.input]

theorem fetch_colon (here : AtToken s ':' rest column)
    (value : s.inFlow = true ∨ rest.head? = some ' ') : s.fetch = s.fetchValue := by
  obtain ⟨-, no_dashes, no_dots⟩ := here.no_mark
  have behind : (s.inFlow || s.input.blankOrEnd 1) = true := by
    rcases value with inside | blank
    · rw [inside, Bool.true_or]
    · cases rest with
      | nil => cases blank
      | cons d ds =>
        obtain rfl : d = ' ' := by simpa using blank
        simp [here.input, blankOrEnd, isBlank, isSpace]
  simp only [fetch, here.started, here.arrived, Option.bind_eq_bind, Option.bind_some,
    here.unroll, no_dashes, no_dots, behind]
  simp [here.input]

theorem no_indicator (name : isNameChar c) (no_dash : c ≠ '-') : isIndicator c = false := by
  have indicators : ("-?:,[]\x7b\x7d#&*!|>'\"%@`".toList.all fun d => d == '-' || !isNameChar d) =
      true := by decide
  rw [Bool.eq_false_iff, isIndicator, ne_eq, List.contains_iff_mem]
  intro member
  have either := List.all_eq_true.mp indicators c member
  simp [no_dash, name] at either

theorem fetch_word (here : AtToken s c rest column) (name : isNameChar c)
    (more : s.input.blankOrEnd 1 = false) : s.fetch = s.fetchPlain := by
  obtain ⟨no_percent, no_dashes, no_dots⟩ := here.no_mark
  have other : ∀ d, isNameChar d = false → c ≠ d := fun d => ne_of_isNameChar name
  have front : s.input.rest = c :: rest := by rw [here.input]; rfl
  have plain : (!(isIndicator c || isBlank c) || (c == '-' && !s.input.test 1 isBlank)) = true := by
    by_cases dash : c = '-'
    · have : s.input.test 1 isBlank = false := by
        revert more
        rw [blankOrEnd, Input.test]
        cases s.input.rest[1]? with
        | none => simp
        | some d => simp +contextual
      simp [dash, this]
    · simp [no_indicator name dash, here.not_isBlank]
  simp only [fetch, here.started, here.arrived, Option.bind_eq_bind, Option.bind_some, here.unroll,
    no_dashes, no_dots, more, plain, front]
  simp [other '%' rfl, other '[' rfl, other ']' rfl, other '\x7b' rfl, other '\x7d' rfl,
    other ',' rfl, other '?' rfl, other ':' rfl, other '*' rfl, other '&' rfl, other '!' rfl,
    other '|' rfl, other '>' rfl, other '\'' rfl, other '"' rfl]

end Fetching

end Scanner
end RequireInjection.Yaml
