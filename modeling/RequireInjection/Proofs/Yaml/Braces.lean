import RequireInjection.Proofs.Yaml.Fetching
import RequireInjection.Proofs.Json.Compact

namespace RequireInjection.Yaml
namespace Scanner

open Input

section Braces

def lineMark (column : Nat) : Mark := ⟨column, 0, column⟩

def inBraces (taken : Nat) (rest : Text) (column : Nat) (keyAllowed : Bool)
    (candidate : Option KeyCandidate) (queue : List Token) : Scanner where
  input := firstLine rest column
  queue := queue
  taken := taken
  started := true
  flowLevel := 1
  indent := 0
  indents := [-1]
  keyAllowed := keyAllowed
  candidates := [candidate, none]

variable {rest k : Text} {c : Char} {taken column : Nat} {keyAllowed : Bool}
  {candidate : Option KeyCandidate} {queue : List Token}

theorem inBraces_settled : Settled (inBraces taken rest column keyAllowed none queue) := by
  intro c member
  simpa [inBraces] using member

theorem inBraces_fresh (near : ∀ c ∈ candidate, column ≤ c.mark.index + 1024) :
    Fresh (inBraces taken rest column keyAllowed candidate queue) := by
  intro c member
  refine ⟨Nat.zero_le _, near c ?_⟩
  simpa [inBraces, eq_comm] using member

theorem inBraces_atToken (later : 0 < column)
    (near : ∀ c ∈ candidate, column ≤ c.mark.index + 1024) (printed : IsPrinted c) (solid : c ≠ ' ')
    (no_comment : c ≠ '#') :
    AtToken (inBraces taken (c :: rest) column keyAllowed candidate queue) c rest column where
  started := rfl
  input := rfl
  fresh := inBraces_fresh near
  level := Or.inl rfl
  printed := printed
  solid := solid
  no_comment := no_comment
  unmarked := Or.inl later

theorem gives_token {s : Scanner} {t : Token} (empty : s.queue = [])
    (fetched : s.fetch = some (inBraces taken rest column keyAllowed none [t]))
    (going : t.kind ≠ .streamEnd) :
    Gives s [t.kind] (inBraces (taken + 1) rest column keyAllowed none []) := by
  have going : ∀ u ∈ (inBraces taken rest column keyAllowed none [t]).queue,
      u.kind ≠ .streamEnd := by simpa [inBraces] using going
  exact gives_of_fetch empty fetched inBraces_settled (List.cons_ne_nil t []) going

theorem saveCandidate_allowed (taken : Nat) (rest : Text) (column : Nat) :
    (inBraces taken rest column true none []).saveCandidate =
      some (inBraces taken rest column true (some ⟨false, taken, lineMark column⟩) []) := rfl

theorem saveCandidate_refused (taken : Nat) (rest : Text) (column : Nat) :
    (inBraces taken rest column false none []).saveCandidate =
      some (inBraces taken rest column false none []) := rfl

theorem fetch_quoted (later : 0 < column) (printed : ∀ c ∈ k, IsPrinted c)
    (saved : (inBraces taken (Json.quoted k ++ rest) column keyAllowed none []).saveCandidate =
      some (inBraces taken (Json.quoted k ++ rest) column keyAllowed candidate [])) :
    (inBraces taken (Json.quoted k ++ rest) column keyAllowed none []).fetch =
      some (inBraces taken rest (column + (Json.quoted k).length) false candidate
        [⟨.scalar k false, lineMark column, lineMark (column + (Json.quoted k).length)⟩]) := by
  have here : AtToken (inBraces taken (Json.quoted k ++ rest) column keyAllowed none []) '"'
      (k.flatMap Json.escaped ++ ['"'] ++ rest) column :=
    inBraces_atToken later (by simp) (by decide) (by decide) (by decide)
  have read : readQuoted false
      (inBraces taken (Json.quoted k ++ rest) column keyAllowed candidate []).input =
        some (k, firstLine rest (column + (Json.quoted k).length)) := readQuoted_quoted k printed
  rw [fetch_indicator (f := (·.fetchQuoted false)) here (by simp), fetchQuoted, saved,
    Option.bind_eq_bind, Option.bind_some, read]
  rfl

theorem fetch_key_colon (taken : Nat) (rest : Text) {m : Mark} (later : 0 < column)
    (near : column ≤ m.index + 1024) (t : Token) :
    (inBraces taken (':' :: rest) column false (some ⟨false, taken, m⟩) [t]).fetch =
      some (inBraces taken rest (column + 1) false none
        [⟨.key, m, m⟩, t, ⟨.value, lineMark column, lineMark (column + 1)⟩]) := by
  have here : AtToken (inBraces taken (':' :: rest) column false (some ⟨false, taken, m⟩) [t]) ':'
      rest column :=
    inBraces_atToken later (by simpa using near) (by decide) (by decide) (by decide)
  rw [fetch_colon here (Or.inl rfl)]
  simp only [fetchValue, inBraces, insertAt, Nat.sub_self]
  rfl

theorem gives_key (later : 0 < column) (printed : ∀ c ∈ k, IsPrinted c) (short : k.length ≤ 500) :
    Gives (inBraces taken (Json.quoted k ++ ':' :: rest) column true none [])
      [.key, .scalar k false, .value]
      (inBraces (taken + 3) rest (column + (Json.quoted k).length + 1) false none []) := by
  have size := escaped_length_le printed
  -- Escapes at most double the key, so its colon is near enough.
  have width : (Json.quoted k).length ≤ 1024 := by
    simp only [Json.quoted, List.length_cons, List.length_append, List.length_nil]
    omega
  have near : column + (Json.quoted k).length ≤ (lineMark column).index + 1024 := by
    simp only [lineMark]
    omega
  have saved := saveCandidate_allowed taken (Json.quoted k ++ ':' :: rest) column
  have scalar := fetch_quoted later printed saved
  have behind : 0 < column + (Json.quoted k).length := by omega
  generalize column + (Json.quoted k).length = stop at near scalar behind ⊢
  have colon := fetch_key_colon taken rest behind near
    ⟨.scalar k false, lineMark column, lineMark stop⟩
  exact gives_of_key rfl scalar ⟨⟨false, taken, lineMark column⟩, by simp [inBraces], rfl⟩
    (by simp [inBraces]) (inBraces_fresh (by simpa using near)) colon inBraces_settled
    (by simp [inBraces]) (by simp [inBraces])

theorem gives_quoted (later : 0 < column) (printed : ∀ c ∈ k, IsPrinted c) :
    Gives (inBraces taken (Json.quoted k ++ rest) column false none []) [.scalar k false]
      (inBraces (taken + 1) rest (column + (Json.quoted k).length) false none []) := by
  have saved := saveCandidate_refused taken (Json.quoted k ++ rest) column
  exact gives_token rfl (fetch_quoted later printed saved) (by simp)

theorem not_blankOrEnd {w : Text} (word : IsWord w) (ends : Ends true rest) :
    (firstLine (c :: (w ++ rest)) column).blankOrEnd 1 = false := by
  cases w with
  | nil =>
    cases rest with
    | nil => cases ends
    | cons d ds => rcases ends with rfl | rfl <;> rfl
  | cons d ds =>
    have name : isNameChar d := word d (by simp)
    have printed := printed_of_isNameChar name
    have no_blank : isBlank d = false := by
      rw [Bool.eq_false_iff, ne_eq, isBlank_iff printed]
      exact ne_of_isNameChar name rfl
    simp [blankOrEnd, no_blank, not_isBreak printed]

theorem gives_word {w : Text} (later : 0 < column) (word : IsWord w) (proper : w ≠ [])
    (ends : Ends true rest) :
    Gives (inBraces taken (w ++ rest) column false none []) [.scalar w true]
      (inBraces (taken + 1) rest (column + w.length) false none []) := by
  have plain : (inBraces taken (w ++ rest) column false none []).fetch =
      (inBraces taken (w ++ rest) column false none []).fetchPlain := by
    cases w with
    | nil => exact absurd rfl proper
    | cons c cs =>
      have name : isNameChar c := word c (by simp)
      have here : AtToken (inBraces taken (c :: (cs ++ rest)) column false none []) c (cs ++ rest)
          column :=
        inBraces_atToken later (by simp) (printed_of_isNameChar name) (ne_of_isNameChar name rfl)
          (ne_of_isNameChar name rfl)
      exact fetch_word here name (not_blankOrEnd (fun d member => word d (by simp [member])) ends)
  have read : readPlain (inBraces taken (w ++ rest) column false none []).inFlow
      ((inBraces taken (w ++ rest) column false none []).indent + 1).toNat
      (inBraces taken (w ++ rest) column false none []).input =
        some (w, false, firstLine rest (column + w.length)) :=
    readPlain_word word proper ends _ (no_documentMark later)
  have fetched : (inBraces taken (w ++ rest) column false none []).fetch =
      some (inBraces taken rest (column + w.length) false none
        [⟨.scalar w true, lineMark column, lineMark (column + w.length)⟩]) := by
    rw [plain, fetchPlain, saveCandidate_refused, Option.bind_eq_bind, Option.bind_some, read]
    rfl
  exact gives_token rfl fetched (by simp)

theorem gives_comma (taken : Nat) (later : 0 < column) :
    Gives (inBraces taken (',' :: rest) column false none []) [.flowEntry]
      (inBraces (taken + 1) rest (column + 1) true none []) := by
  have fetched : (inBraces taken (',' :: rest) column false none []).fetch =
      some (inBraces taken rest (column + 1) true none
        [⟨.flowEntry, lineMark column, lineMark (column + 1)⟩]) := by
    have here : AtToken (inBraces taken (',' :: rest) column false none []) ',' rest column :=
      inBraces_atToken later (by simp) (by decide) (by decide) (by decide)
    rw [fetch_indicator (f := fetchFlowEntry) here (by simp)]
    rfl
  exact gives_token rfl fetched (by simp)

end Braces

section Members

open Json

def flagToken : Json → TokenKind
  | .string t => .scalar t false
  | v => .scalar (compact v) true

def memberTokens (m : Text × Json) : List TokenKind :=
  [.key, .scalar m.1 false, .value, flagToken m.2]

def membersTokens : List (Text × Json) → List TokenKind
  | [] => []
  | m :: ms => memberTokens m ++ ms.flatMap fun m => .flowEntry :: memberTokens m

variable {rest : Text} {taken column : Nat} {v : Json} {m : Text × Json}

theorem isWord_ofNat (n : Nat) : IsWord (Text.ofNat n) := by
  intro c member
  obtain ⟨low, high⟩ := Text.isDecimal_of_mem_ofNat member
  simp [isNameChar, Yaml.isDigit, low, high]

theorem isWord_ofInt (n : Int) : IsWord (Text.ofInt n) := by
  cases n with
  | ofNat n => exact isWord_ofNat n
  | negSucc n =>
    intro c member
    rcases List.mem_cons.mp member with rfl | digit
    · decide
    · exact isWord_ofNat (n + 1) c digit

theorem ofInt_ne_nil (n : Int) : Text.ofInt n ≠ [] := by
  cases n with
  | ofNat n => exact Nat.toDigits_ne_nil
  | negSucc n => simp [Text.ofInt]

theorem gives_flag (later : 0 < column) (flag : Flag v) (ends : Ends true rest) :
    Gives (inBraces taken (compact v ++ rest) column false none []) [flagToken v]
      (inBraces (taken + 1) rest (column + (compact v).length) false none []) := by
  cases flag with
  | null => exact gives_word later (by decide) (by decide) ends
  | bool b =>
    cases b with
    | true => exact gives_word later (by decide) (by decide) ends
    | false => exact gives_word later (by decide) (by decide) ends
  | @int n low high => exact gives_word later (isWord_ofInt n) (ofInt_ne_nil n) ends
  | string printed => exact gives_quoted later printed

theorem gives_member (taken : Nat) (later : 0 < column) (fits : Member m) (ends : Ends true rest) :
    Gives (inBraces taken (compactMember m ++ rest) column true none []) (memberTokens m)
      (inBraces (taken + 4) rest (column + (quoted m.1).length + 1 + (compact m.2).length) false
        none []) := by
  have text : compactMember m ++ rest = quoted m.1 ++ ':' :: (compact m.2 ++ rest) := by
    simp [compactMember]
  rw [text]
  exact (gives_key later fits.printed fits.short).trans (gives_flag (by omega) fits.flag ends)

theorem ends_membersTail (ms : List (Text × Json)) (rest : Text) :
    Ends true (membersTail ms ++ '\x7d' :: rest) := by
  cases ms with
  | nil => exact Or.inr rfl
  | cons m ms => exact Or.inl rfl

theorem gives_membersTail (taken : Nat) (later : 0 < column) (ms : List (Text × Json))
    (fits : ∀ m ∈ ms, Member m) (rest : Text) : ∃ taken' column', 0 < column' ∧
      Gives (inBraces taken (membersTail ms ++ '\x7d' :: rest) column false none [])
        (ms.flatMap fun m => .flowEntry :: memberTokens m)
        (inBraces taken' ('\x7d' :: rest) column' false none []) := by
  induction ms generalizing taken column with
  | nil => exact ⟨taken, column, later, [], rfl, by simp [membersTail]⟩
  | cons m ms ih =>
    have text : membersTail (m :: ms) ++ '\x7d' :: rest =
        ',' :: (compactMember m ++ (membersTail ms ++ '\x7d' :: rest)) := by
      simp [membersTail]
    have first := (gives_comma taken later).trans
      (gives_member _ (Nat.succ_pos column) (fits m (by simp)) (ends_membersTail ms rest))
    have behind : 0 < column + 1 + (quoted m.1).length + 1 + (compact m.2).length := by omega
    obtain ⟨taken', column', later', tail⟩ := ih (taken + 1 + 4) behind
      fun m' member => fits m' (by simp [member])
    refine ⟨taken', column', later', ?_⟩
    rw [text]
    exact first.trans tail

theorem gives_members (taken : Nat) (later : 0 < column) (ms : List (Text × Json))
    (fits : ∀ m ∈ ms, Member m) (rest : Text) : ∃ taken' column' keyAllowed, 0 < column' ∧
      Gives (inBraces taken (compactMembers ms ++ '\x7d' :: rest) column true none [])
        (membersTokens ms) (inBraces taken' ('\x7d' :: rest) column' keyAllowed none []) := by
  cases ms with
  | nil => exact ⟨taken, column, true, later, [], rfl, by simp [compactMembers]⟩
  | cons m ms =>
    have first := gives_member taken later (fits m (by simp)) (ends_membersTail ms rest)
    have behind : 0 < column + (quoted m.1).length + 1 + (compact m.2).length := by omega
    obtain ⟨taken', column', later', tail⟩ := gives_membersTail (taken + 4) behind ms
      (fun m' member => fits m' (by simp [member])) rest
    refine ⟨taken', column', false, later', ?_⟩
    rw [compactMembers_cons, List.append_assoc]
    exact first.trans tail

end Members

section Document

variable {taken column : Nat} {keyAllowed : Bool}

def outside (taken : Nat) (rest : Text) (column : Nat) (indent : Int) (indents : List Int)
    (keyAllowed : Bool) (candidate : Option KeyCandidate) (queue : List Token) : Scanner where
  input := firstLine rest column
  queue := queue
  taken := taken
  started := true
  indent := indent
  indents := indents
  keyAllowed := keyAllowed
  candidates := [candidate]

theorem outside_settled {rest : Text} {indent : Int} {indents : List Int} {queue : List Token} :
    Settled (outside taken rest column indent indents keyAllowed none queue) := by
  intro c member
  simpa [outside] using member

theorem gives_open (taken column : Nat) (rest : Text) :
    Gives (outside taken (' ' :: '\x7b' :: rest) column 0 [-1] false none []) [.flowMappingStart]
      (inBraces (taken + 1) rest (column + 2) true none []) := by
  have here : AtToken (outside taken ('\x7b' :: rest) (column + 1) 0 [-1] false none []) '\x7b' rest
      (column + 1) := {
    started := rfl
    input := rfl
    fresh := outside_settled.fresh
    level := Or.inr (Int.natCast_nonneg _)
    printed := by decide
    solid := by decide
    no_comment := by decide
    unmarked := Or.inl (Nat.succ_pos column) }
  have fetched : (outside taken (' ' :: '\x7b' :: rest) column 0 [-1] false none []).fetch =
      some (inBraces taken rest (column + 2) true none
        [⟨.flowMappingStart, lineMark (column + 1), lineMark (column + 2)⟩]) := by
    have passed : (outside taken (' ' :: '\x7b' :: rest) column 0 [-1] false none []).fetch =
        (outside taken ('\x7b' :: rest) (column + 1) 0 [-1] false none []).fetch :=
      fetch_blank rfl here
    rw [passed, fetch_indicator (f := (·.fetchFlowStart .flowMappingStart)) here (by simp)]
    rfl
  exact gives_token rfl fetched (by simp)

theorem gives_close (taken : Nat) (later : 0 < column) (keyAllowed : Bool) (rest : Text) :
    Gives (inBraces taken ('\x7d' :: rest) column keyAllowed none []) [.flowMappingEnd]
      (outside (taken + 1) rest (column + 1) 0 [-1] false none []) := by
  have fetched : (inBraces taken ('\x7d' :: rest) column keyAllowed none []).fetch =
      some (outside taken rest (column + 1) 0 [-1] false none
        [⟨.flowMappingEnd, lineMark column, lineMark (column + 1)⟩]) := by
    have here : AtToken (inBraces taken ('\x7d' :: rest) column keyAllowed none []) '\x7d' rest
        column := inBraces_atToken later (by simp) (by decide) (by decide) (by decide)
    rw [fetch_indicator (f := (·.fetchFlowEnd .flowMappingEnd)) here (by simp)]
    rfl
  exact gives_of_fetch rfl fetched outside_settled (by simp [outside]) (by simp [outside])

theorem yields_end (later : 0 < column) :
    Yields (outside taken [] column 0 [-1] false none []) [.blockEnd, .streamEnd] := by
  have inside : (column == 0) = false := by simpa using Nat.ne_of_gt later
  generalize now : outside taken [] column 0 [-1] false none [] = s
  have settled : Settled s := by
    rw [← now]
    exact outside_settled
  have place : s.mark.column = column := by rw [← now]; rfl
  have started : s.started = true := by rw [← now]; rfl
  have empty : s.input.rest = [] := by rw [← now]; rfl
  have passed : s.toNextToken 1 = s := by
    have : s.input.mark.column = column := place
    simp only [Scanner.toNextToken, this, inside]
    rw [← now]
    rfl
  have level : s.unroll column = s := by
    rw [← now]
    exact unroll_level (Or.inr (Int.natCast_nonneg _))
  have fetched : s.fetch = s.fetchStreamEnd := by
    rw [fetch, if_neg (by simp [started]), empty, List.length_nil, passed,
      dropStale_fresh settled.fresh, Option.bind_eq_bind, Option.bind_some, place, level]
    simp only [empty]
  -- The end of the text counts as the end of its last line.
  have ended : s.fetchStreamEnd =
      some { outside taken [] column (-1) [] false none
          [⟨.blockEnd, ⟨column, 1, 0⟩, ⟨column, 1, 0⟩⟩,
            ⟨.streamEnd, ⟨column, 1, 0⟩, ⟨column, 1, 0⟩⟩]
        with input := ⟨[], ⟨column, 1, 0⟩⟩ } := by
    simp only [fetchStreamEnd, place, inside]
    rw [← now]
    rfl
  have settled' : ∀ c ∈ [(none : Option KeyCandidate)], c = none := by simp
  exact yields_of_fetch (by rw [← now]; rfl) (fetched.trans ended) settled' rfl (by simp) rfl

theorem gives_start (t : Text) :
    Gives (ofText t) [.streamStart] (outside 1 t 0 (-1) [] true none []) := by
  have fetched : (ofText t).fetch =
      some (outside 0 t 0 (-1) [] true none [⟨.streamStart, lineMark 0, lineMark 0⟩]) := rfl
  exact gives_of_fetch rfl fetched outside_settled (by simp [outside]) (by simp [outside])

theorem gives_filters {rest : Text} :
    Gives (outside 1 ("filters:".toList ++ ' ' :: rest) 0 (-1) [] true none [])
      [.blockMappingStart, .key, .scalar "filters".toList true, .value]
      (outside 5 (' ' :: rest) 8 0 [-1] false none []) := by
  have word : AtToken (outside 1 ("filters:".toList ++ ' ' :: rest) 0 (-1) [] true none []) 'f'
      ("ilters:".toList ++ ' ' :: rest) 0 := {
    started := rfl
    input := rfl
    fresh := outside_settled.fresh
    level := Or.inr (show (-1 : Int) ≤ _ by decide)
    printed := by decide
    solid := by decide
    no_comment := by decide
    unmarked := Or.inr (by decide) }
  -- The word waits as a possible key until the colon has put the tokens of a key before it.
  have key : (outside 1 ("filters:".toList ++ ' ' :: rest) 0 (-1) [] true none []).fetch =
      some (outside 1 (':' :: ' ' :: rest) 7 (-1) [] false (some ⟨false, 1, lineMark 0⟩)
        [⟨.scalar "filters".toList true, lineMark 0, lineMark 7⟩]) := by
    have saved :
        (outside 1 ("filters:".toList ++ ' ' :: rest) 0 (-1) [] true none []).saveCandidate =
          some (outside 1 ("filters:".toList ++ ' ' :: rest) 0 (-1) [] true
            (some ⟨false, 1, lineMark 0⟩) []) := rfl
    have ends : Ends false (':' :: ' ' :: rest) := ⟨rfl, rfl⟩
    have read : readPlain false 0 (firstLine ("filters".toList ++ ':' :: ' ' :: rest) 0) =
        some ("filters".toList, false, firstLine (':' :: ' ' :: rest) 7) :=
      readPlain_word (by decide) (by decide) ends 0 rfl
    rw [fetch_word word (by decide) rfl, fetchPlain, saved, Option.bind_eq_bind, Option.bind_some]
    exact congrArg (Option.bind · _) read
  have fresh : Fresh (outside 1 (':' :: ' ' :: rest) 7 (-1) [] false (some ⟨false, 1, lineMark 0⟩)
      [⟨.scalar "filters".toList true, lineMark 0, lineMark 7⟩]) := by
    intro c member
    obtain rfl : c = ⟨false, 1, lineMark 0⟩ := by simpa [outside] using member
    exact ⟨Nat.zero_le _, show 7 ≤ 0 + 1024 by decide⟩
  have colon : AtToken (outside 1 (':' :: ' ' :: rest) 7 (-1) [] false
      (some ⟨false, 1, lineMark 0⟩) [⟨.scalar "filters".toList true, lineMark 0, lineMark 7⟩]) ':'
      (' ' :: rest) 7 := {
    started := rfl
    input := rfl
    fresh := fresh
    level := Or.inr (show (-1 : Int) ≤ _ by decide)
    printed := by decide
    solid := by decide
    no_comment := by decide
    unmarked := Or.inl (by decide) }
  have decided : (outside 1 (':' :: ' ' :: rest) 7 (-1) [] false (some ⟨false, 1, lineMark 0⟩)
        [⟨.scalar "filters".toList true, lineMark 0, lineMark 7⟩]).fetch =
      some (outside 1 (' ' :: rest) 8 0 [-1] false none
        [⟨.blockMappingStart, lineMark 0, lineMark 0⟩, ⟨.key, lineMark 0, lineMark 0⟩,
          ⟨.scalar "filters".toList true, lineMark 0, lineMark 7⟩,
          ⟨.value, lineMark 7, lineMark 8⟩]) := by
    rw [fetch_colon colon (Or.inr rfl)]
    rfl
  exact gives_of_key rfl key ⟨⟨false, 1, lineMark 0⟩, by simp [outside], rfl⟩ (by simp [outside])
    fresh decided outside_settled (by simp [outside]) (by simp [outside])

def filtersTokens (ms : List (Text × Json)) : List TokenKind :=
  .streamStart :: .blockMappingStart :: .key :: .scalar "filters".toList true :: .value ::
    .flowMappingStart :: (membersTokens ms ++ [.flowMappingEnd, .blockEnd, .streamEnd])

theorem yields_filters (ms : List (Text × Json)) (fits : ∀ m ∈ ms, Member m) :
    Yields (ofText ("filters: ".toList ++ Json.compact (.object ms))) (filtersTokens ms) := by
  have text : "filters: ".toList ++ Json.compact (.object ms) =
      "filters:".toList ++ ' ' :: '\x7b' :: (Json.compactMembers ms ++ ['\x7d']) := by
    simp [Json.compact]
  have opened := (gives_start _).trans
    (gives_filters.trans (gives_open 5 8 (Json.compactMembers ms ++ ['\x7d'])))
  obtain ⟨taken, column, keyAllowed, later, members⟩ :=
    gives_members 6 (Nat.succ_pos 9) ms fits []
  have closed := (gives_close taken later keyAllowed []).yields (yields_end (Nat.succ_pos column))
  rw [text]
  exact opened.yields (members.yields closed)

theorem printed_compact {v : Json} (flag : Flag v) : ∀ c ∈ Json.compact v, IsPrinted c := by
  cases flag with
  | null => decide
  | bool b => cases b <;> decide
  | @int n low high =>
    intro c member
    exact printed_of_isNameChar (isWord_ofInt n c member)
  | string printed => exact printed_quoted printed

theorem printed_members {ms : List (Text × Json)} (fits : ∀ m ∈ ms, Member m) :
    ∀ c ∈ Json.compactMembers ms, IsPrinted c := by
  have member : ∀ m ∈ ms, ∀ c ∈ Json.compactMember m, IsPrinted c := by
    intro m inside c
    have colon : IsPrinted ':' := by decide
    have key := printed_quoted (fits m inside).printed c
    have value := printed_compact (fits m inside).flag c
    simp only [Json.compactMember, List.mem_append, List.mem_cons]
    rintro (front | rfl | back)
    · exact key front
    · exact colon
    · exact value back
  have comma : IsPrinted ',' := by decide
  cases ms with
  | nil => simp [Json.compactMembers]
  | cons m ms =>
    intro c inside
    simp only [Json.compactMembers_cons, Json.membersTail, List.mem_append, List.mem_flatMap,
      List.mem_cons] at inside
    rcases inside with front | ⟨m', later, rfl | back⟩
    · exact member m (by simp) c front
    · exact comma
    · exact member m' (by simp [later]) c back

theorem length_le_membersTokens (ms : List (Text × Json)) :
    ms.length ≤ (membersTokens ms).length := by
  have behind : ∀ ms : List (Text × Json),
      ms.length ≤ (ms.flatMap fun m => .flowEntry :: memberTokens m).length := by
    intro ms
    induction ms with
    | nil => simp
    | cons m ms ih =>
      rw [List.flatMap_cons, List.length_append, List.length_cons, List.length_cons]
      omega
  cases ms with
  | nil => exact Nat.le_refl 0
  | cons m ms =>
    have := behind ms
    have four : (memberTokens m).length = 4 := rfl
    rw [membersTokens, List.length_append, List.length_cons, four]
    omega

theorem membersTokens_length_le (ms : List (Text × Json)) :
    (membersTokens ms).length ≤ 5 * (Json.compactMembers ms).length := by
  have behind : ∀ ms : List (Text × Json),
      (ms.flatMap fun m => .flowEntry :: memberTokens m).length ≤
        5 * (Json.membersTail ms).length := by
    intro ms
    induction ms with
    | nil => simp
    | cons m ms ih =>
      have tail : (Json.membersTail (m :: ms)).length =
          (Json.compactMember m).length + 1 + (Json.membersTail ms).length := by
        rw [Json.membersTail, List.flatMap_cons, List.length_append]
        rfl
      have five : (TokenKind.flowEntry :: memberTokens m).length = 5 := rfl
      rw [List.flatMap_cons, List.length_append, tail, five]
      omega
  cases ms with
  | nil => simp [membersTokens]
  | cons m ms =>
    have := behind ms
    have one : 1 ≤ (Json.compactMember m).length := by simp [Json.compactMember]; omega
    have four : (memberTokens m).length = 4 := rfl
    rw [Json.compactMembers_cons, membersTokens, List.length_append, List.length_append, four]
    omega

/-- A document in which the key is given an object of flags has its tokens in order. -/
theorem tokens_filters (ms : List (Text × Json)) (fits : ∀ m ∈ ms, Member m) :
    (tokens ("filters: ".toList ++ Json.compact (.object ms))).map Token.kind =
      filtersTokens ms := by
  obtain ⟨ts, kinds, taken⟩ := yields_filters ms fits
  have text : Json.compact (.object ms) = '\x7b' :: (Json.compactMembers ms ++ ['\x7d']) := by
    simp [Json.compact]
  have printable : ("filters: ".toList ++ Json.compact (.object ms)).all isPrintable = true := by
    have members := printed_members fits
    have each : ∀ c, IsPrinted c → isPrintable c = true := by
      rintro c ⟨low, high⟩
      simp [isPrintable, low, high]
    have inside : (Json.compactMembers ms).all isPrintable = true := by
      rw [List.all_eq_true]
      exact fun c member => each c (members c member)
    rw [text, List.all_append, List.all_cons, List.all_append, inside]
    rfl
  have size : ts.length ≤ 5 * ("filters: ".toList ++ Json.compact (.object ms)).length + 8 := by
    have few := membersTokens_length_le ms
    have same : ts.length = (filtersTokens ms).length := by rw [← kinds, List.length_map]
    rw [same, text, filtersTokens]
    simp only [List.length_append, List.length_cons, List.length_nil]
    omega
  obtain ⟨n, enough⟩ := Nat.exists_eq_add_of_le size
  rw [tokens, if_pos printable, enough, taken, kinds]

end Document

end Scanner
end RequireInjection.Yaml
