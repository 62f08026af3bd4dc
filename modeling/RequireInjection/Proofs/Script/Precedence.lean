import RequireInjection.Proofs.Script.Operands

/-!
Precedence of operators. The operators behind an operand are read down to a least level, so each of
them finds on both sides what binds at least as tightly as it does. Hence the operators group by
their levels in the tree of every script.
-/
namespace RequireInjection.Script

open Std.Do Grammar Reader Keeping

set_option mvcgen.warning false

variable {source : Text} {ground : Ground}

def operatorAhead (t : Text) : Text :=
  if wordText t == [] then punctuator t else wordText t

/-- The level of the operator that comes next; zero if none does or it may not be used here. -/
def State.reach (s : State source) : Nat :=
  if operatorAhead s.ahead = "in".toList ∧ s.setting.inOperator = false then 0
  else level (operatorAhead s.ahead)

theorem level_le (op : Text) : level op ≤ levels.length := by
  unfold level
  split
  · rename_i n found
    have := (List.findIdx?_eq_some_iff_findIdx_eq.mp found).1
    omega
  · omega

theorem State.reach_le (s : State source) : s.reach ≤ levels.length := by
  unfold State.reach
  split
  · omega
  · exact level_le _

theorem reach_of_allowed {s : State source} (may : (operatorAhead s.ahead != "in".toList ||
    s.setting.inOperator) = true) : s.reach = level (operatorAhead s.ahead) := by
  simp only [Bool.or_eq_true, bne_iff_ne, ne_eq] at may
  rw [State.reach, if_neg]
  rintro ⟨isIn, forbidden⟩
  simp_all

theorem reach_of_forbidden {s : State source} (may : (operatorAhead s.ahead != "in".toList ||
    s.setting.inOperator) = false) : s.reach = 0 := by
  simp only [Bool.or_eq_false_iff, bne_eq_false_iff_eq] at may
  rw [State.reach, if_pos may]

/-- On the ground stands one tree that neither an operator of the least level nor the one ahead can
divide. -/
def Leads (ground : Ground) (least : Nat) (s : State source) : Prop :=
  ∃ x, Stands ground.older x s ∧ least ≤ x.rank ∧ s.reach ≤ x.rank

/-- Operators of at least the given level have been read, so the one ahead is of a lower level. -/
def Closes (mark least : Nat) (before s : State source) : Prop :=
  ∀ ground, mark = ground.older.length → 1 ≤ least → Steady ground before →
    Leads ground least before → Steady ground s ∧ Leads ground least s ∧ s.reach < least

theorem Operand.leads {s : State source} (operand : Operand ground s) {least : Nat}
    (bound : least ≤ Tree.tightest) : Leads ground least s := by
  obtain ⟨x, stands, tight⟩ := operand
  have reach := s.reach_le
  refine ⟨x, stands, by omega, ?_⟩
  rw [tight, Tree.tightest]
  omega

theorem parts_of_stands {older : List Tree} {x : Tree} {s : State source}
    (stands : Stands older x s) :
    ∃ new, s.made = new ++ older ∧ Tree.parts new = [x] := by
  obtain ⟨token, lead, made, trivia⟩ := stands
  refine ⟨x :: lead, made, ?_⟩
  have blank := Tree.parts_eq_nil trivia
  simp only [Tree.parts] at blank ⊢
  simp [token, blank]

theorem leads_gathered {least : Nat} {op : Text} {x y : Tree} {before o r s : State source}
    (steady : Steady ground r) (left : Stands ground.older x before)
    (mark : Stands before.made (.leaf .punctuation op) o) (right : Stands o.made y r)
    (positive : 0 < level op) (least_le : least ≤ level op) (left_rank : level op ≤ x.rank)
    (right_rank : if op = "**".toList then level op ≤ y.rank else level op < y.rank)
    (reach : r.reach ≤ level op) {lead body : List Tree}
    (gathered : Gathered r ground.older.length .binaryExpression lead body s) :
    Steady ground s ∧ Leads ground least s := by
  obtain ⟨new₁, hnew₁, parts₁⟩ := parts_of_stands left
  obtain ⟨new₂, hnew₂, parts₂⟩ := parts_of_stands mark
  obtain ⟨new₃, hnew₃, parts₃⟩ := parts_of_stands right
  have all : r.made = (new₃ ++ new₂ ++ new₁) ++ ground.older := by
    rw [hnew₃, hnew₂, hnew₁]
    simp
  have fresh : lead ++ body = (new₃ ++ new₂ ++ new₁).reverse := by
    rw [← gathered.whole, all, take_newer]
  -- What is gathered are the two operands and the operator between them, blanks aside.
  have parts : Tree.parts body = [x, .leaf .punctuation op, y] := by
    have blank := Tree.parts_eq_nil gathered.trivia
    have split := congrArg Tree.parts fresh
    rw [Tree.parts_append, blank, List.nil_append] at split
    rw [split]
    simp only [Tree.parts] at parts₁ parts₂ parts₃ ⊢
    simp [parts₁, parts₂, parts₃]
  have groups : Tree.Groups body := ⟨x, op, y, parts, positive, left_rank, right_rank⟩
  refine ⟨gathered.steady steady (Nat.le_refl _) groups, ?_⟩
  refine ⟨.node .binaryExpression body, ⟨rfl, lead.reverse, ?_, ?_⟩, ?_, ?_⟩
  · rw [gathered.made, all, drop_older]
  · intro t member
    exact gathered.trivia t (List.mem_reverse.mp member)
  · rw [Tree.rank_binary parts]
    exact least_le
  · rw [Tree.rank_binary parts]
    have : s.reach = r.reach := by simp [State.reach, gathered.ahead, gathered.setting_eq]
    omega

/-- One turn of the loop over operators: nothing is read, or one operator with its right operand. -/
theorem binaryTail_closes {go : Go source} (m least : Nat) (before : State source)
    (operands : ∀ before : State source, ⦃fun s => ⌜s = before⌝⦄ go .operand
      ⦃⇓? _ s => ⌜Tree.AllFormed before.made → Steady before.here s ∧ Operand before.here s⌝⦄)
    (tails : ∀ (m least : Nat) (before : State source), ⦃fun s => ⌜s = before⌝⦄
      go (.binaryTail m least) ⦃⇓? _ s => ⌜Closes m least before s⌝⦄)
    (here : m = ground.older.length) (positive : 1 ≤ least) (steady : Steady ground before)
    (leads : Leads ground least before) :
    ⦃fun s => ⌜s = before⌝⦄ binaryTail go m least
    ⦃⇓? _ s => ⌜Steady ground s ∧ Leads ground least s ∧ s.reach < least⌝⦄ := by
  unfold binaryTail
  -- steps are taken as relations to the state before them, since the ground changes on the way
  mvcgen [-ahead_looks, -keeps_opening, -keeps_gather, -keeps_expectText, ahead, opening,
    expectText_took, gather_gathered, operands, tails]
  case vc1.isTrue =>
    rename_i s₀ start w op l allowed goes _ o took _ o' marked _ r raised _ t closed _ g gathered
      _ s
    obtain ⟨rfl, rfl⟩ := marked
    subst start
    simp only [bne_iff_ne, ne_eq, Bool.and_eq_true, decide_eq_true_eq] at goes
    obtain ⟨⟨is_operator, least_le⟩, may⟩ := goes
    have reach : s₀.reach = level op := reach_of_allowed may
    obtain ⟨x, x_stands, -, x_rank⟩ := leads
    rw [reach] at x_rank
    -- the right operand stands on the ground that ends with the operator
    have o_steady := took.steady steady
    obtain ⟨r_steady, r_operand⟩ := raised o_steady.formed
    have op_level := level_le op
    obtain ⟨t_steady, ⟨y, y_stands, y_rank, -⟩, t_reach⟩ := closed o'.here rfl (by split <;> omega)
      r_steady (r_operand.leads (by rw [Tree.tightest]; split <;> omega))
    have right_rank : if op = "**".toList then level op ≤ y.rank else level op < y.rank := by
      simp only [beq_iff_eq] at y_rank
      split at y_rank
      · rename_i power
        rwa [if_pos power]
      · rename_i other
        rw [if_neg other]
        omega
    obtain ⟨lead, body, gathered⟩ := gathered
    subst here
    obtain ⟨g_steady, g_leads⟩ := leads_gathered (o_steady.trans t_steady) x_stands
      (took.stands rfl) y_stands (by omega) least_le x_rank right_rank
      (by split at t_reach <;> omega) gathered
    intro closes
    exact closes ground rfl positive g_steady g_leads
  case vc2.isFalse =>
    rename_i s₀ start w op l allowed stops
    subst start
    refine ⟨steady, leads, ?_⟩
    by_cases may : allowed = true
    · have reach : s₀.reach = level op := reach_of_allowed may
      have : ¬(l ≠ 0 ∧ least ≤ l) := by simpa [may] using stops
      omega
    · have reach : s₀.reach = 0 := reach_of_forbidden (Bool.eq_false_of_not_eq_true may)
      omega

theorem Closes.steady {m : Nat} {before r s : State source} (closes : Closes m 1 r s)
    (here : m = before.made.length) (steady : Steady ground before)
    (raised : Tree.AllFormed before.made → Steady before.here r ∧ Operand before.here r) :
    Steady ground s := by
  obtain ⟨r_steady, operand⟩ := raised steady.formed
  have tight : 1 ≤ Tree.tightest := by rw [Tree.tightest]; omega
  exact steady.trans (closes before.here here (Nat.le_refl _) r_steady (operand.leads tight)).1

/-- What the rules promise of the goals: each keeps its ground, operands are made in one piece, and
the operators behind them are read down to a level. -/
structure Reads (go : Go source) : Prop where
  keeps : ∀ (goal : Goal) (ground : Ground), goal.Above ground.older.length → Keeps ground (go goal)
  operand : ∀ ground, MakesOperand ground (go .operand)
  primary : ∀ ground, MakesOperand ground (go .primary)
  element : ∀ ground, MakesOperand ground (go .element)
  chain : ∀ (ground : Ground) (m : Nat) (onlyMembers : Bool), m = ground.older.length →
    ExtendsOperand ground (go (.chain m onlyMembers))
  tail : ∀ (m least : Nat) (before : State source), ⦃fun s => ⌜s = before⌝⦄
    go (.binaryTail m least) ⦃⇓? _ s => ⌜Closes m least before s⌝⦄

variable {go : Go source}

theorem Reads.operand_here (reads : Reads go) (before : State source) :
    ⦃fun s => ⌜s = before⌝⦄ go .operand
    ⦃⇓? _ s => ⌜Tree.AllFormed before.made → Steady before.here s ∧ Operand before.here s⌝⦄ := by
  rw [triple_iff]
  rintro s u s' rfl h formed
  exact triple_iff.mp (reads.operand s.here) s u s' ⟨rfl, steady_here formed⟩ h

theorem Reads.rule_tail (reads : Reads go) (m least : Nat) (before : State source) :
    ⦃fun s => ⌜s = before⌝⦄ rule go (.binaryTail m least)
    ⦃⇓? _ s => ⌜Closes m least before s⌝⦄ := by
  rw [triple_iff]
  intro s u s' same h ground here positive steady leads
  exact triple_iff.mp (binaryTail_closes m least before reads.operand_here reads.tail here positive
    steady leads) s u s' same h

theorem Reads.keeps_expression (reads : Reads go) : Keeps ground (expression go) := by
  have onExpression : ∀ ground, Keeps ground (go .expression) :=
    fun ground => reads.keeps .expression ground trivial
  have onOperand := reads.operand_here
  have onTail := reads.tail
  clear reads
  unfold expression
  mvcgen [onExpression, onOperand, onTail] <;> grind [Closes.steady]

theorem Reads.rule (reads : Reads go) : Reads (rule go) where
  keeps goal ground above := by
    have inner := reads.keeps
    cases goal with
    | statements inSwitch => exact keeps_statements inner inSwitch
    | statement => exact keeps_statement inner
    | block => exact keeps_statementBlock inner
    | declarators => exact keeps_declarators inner
    | switchCases => exact keeps_switchCases inner
    | expressions => exact keeps_expressions inner
    | expression => exact reads.keeps_expression
    | moreExpressions => exact keeps_moreExpressions inner
    | operand =>
      exact keeps_of_operand fun ground =>
        operand_operand inner (reads.primary ground) (reads.chain ground)
    | primary =>
      exact keeps_of_operand fun ground => operand_primary inner (reads.element ground)
    -- A tail reaches below the ground: it takes the operand on the left with it.
    | binaryTail m least => exact above.elim
    | chain m onlyMembers => exact keeps_chain inner m onlyMembers above
    | newExpression => exact keeps_of_operand fun _ => operand_newExpression inner
    | items => exact keeps_items inner
    | members => exact keeps_members inner
    | classMembers => exact keeps_classMembers inner
    | decorators => exact keeps_decorators inner
    | templateParts => exact keeps_templateParts inner
    | elementNames m => exact keeps_elementNames inner m above
    | element => exact keeps_of_operand fun _ => operand_element inner
    | attributes => exact keeps_attributes inner
    | children => exact keeps_children inner
  operand ground := operand_operand reads.keeps (reads.primary ground) (reads.chain ground)
  primary ground := operand_primary reads.keeps (reads.element ground)
  element _ := operand_element reads.keeps
  chain ground m onlyMembers here := operand_chain reads.keeps m onlyMembers here
    fun onlyMembers => reads.chain ground m onlyMembers here
  tail m least before := reads.rule_tail m least before

theorem reads_fail : Reads (fun _ => fail : Go source) where
  keeps _ _ _ := triple_fail
  operand _ := triple_fail
  primary _ := triple_fail
  element _ := triple_fail
  chain _ _ _ _ := triple_fail
  tail _ _ _ := triple_fail

theorem reads_derive (n : Nat) : Reads (derive n : Go source) := by
  induction n with
  | zero => exact reads_fail
  | succ n ih => exact ih.rule

theorem keeps_script (steps : Nat) : Keeps ground (script steps : Reader source Unit) := by
  have onStatements : Keeps ground (derive steps (.statements false) : Reader source Unit) :=
    (reads_derive steps).keeps (.statements false) ground trivial
  unfold script
  mvcgen [onStatements] <;> grind

theorem parse_run {tree : SyntaxTree source} (h : parse source = .ok tree) :
    ∃ steps s, script steps (State.start source) = .ok ((), s) ∧ s.unread = [] ∧
      tree.items = s.made.reverse := by
  simp only [parse] at h
  split at h
  · cases h
  · rename_i u s run
    split at h
    · rename_i nothing
      split at h
      · cases h
      · cases h
        exact ⟨_, s, run, nothing, rfl⟩
    · cases h

theorem parse_formed {tree : SyntaxTree source} (h : parse source = .ok tree) :
    Tree.AllFormed tree.items := by
  obtain ⟨steps, s, run, -, items⟩ := parse_run h
  have start : Steady ⟨[], {}⟩ (State.start source) :=
    ⟨List.suffix_refl _, by simp [State.start, Tree.AllFormed], rfl⟩
  have steady : Steady ⟨[], {}⟩ s := triple_iff.mp (keeps_script steps) _ _ _ start run
  rw [items, Tree.allFormed_iff]
  intro t member
  exact (Tree.allFormed_iff _).mp steady.formed t (List.mem_reverse.mp member)

theorem formed_of_parsed {tree : SyntaxTree source} (parsed : parse source = .ok tree) {p : Placed}
    (member : p ∈ tree.nodes) : p.tree.Formed :=
  Tree.formed_of_mem_preorder 0 p tree.root
    ((Tree.formed_node _ _).mpr ⟨trivial, parse_formed parsed⟩) member

theorem parse_grouped {tree : SyntaxTree source} (h : parse source = .ok tree) :
    Tree.AllGrouped tree.items :=
  Tree.AllFormed.grouped tree.items (parse_formed h)

end RequireInjection.Script
