import RequireInjection.Proofs.Script.Counting
import RequireInjection.Proofs.Script.Statements

namespace RequireInjection.Script

open Std.Do Grammar Reader Counting

set_option mvcgen.warning false

variable {source : Text} {t : Tally}

/-- In a class, `static get` with the line break behind it is one token. -/
theorem plain_staticGetterLine (text : Text) :
    ∀ c ∈ text.take (staticGetterLine text), Tally.isPlain c := by
  unfold staticGetterLine
  split
  · simp
  rename_i static
  dsimp only
  split
  · rename_i found
    simp only [Bool.and_eq_true, decide_eq_true_eq] at found
    obtain ⟨⟨long, get⟩, -⟩ := found
    have static : wordText text = "static".toList := by simpa using static
    have first : text.take 6 = "static".toList := take_of_wordText static
    obtain ⟨tail, stripped⟩ := Option.isSome_iff_exists.mp get
    have second := Text.eq_append_of_stripPrefix? stripped
    -- the token: both words, the blanks between them, and some of those behind them
    have parts : text = "static".toList ++ ((text.drop 6).takeWhile isAsciiBlank ++
        ("get".toList ++ tail)) := by
      rw [← first, ← second, List.takeWhile_append_dropWhile, List.take_append_drop]
    set blanks := (text.drop 6).takeWhile isAsciiBlank
    set rest := (text.drop 6).dropWhile isAsciiBlank
    set line := (rest.drop 3).takeWhile isAsciiBlank
    have short : (line.reverse.dropWhile (· != '\n')).length ≤ line.length := by
      simpa using List.length_dropWhile_le (· != '\n') line.reverse
    have line_eq : line = tail.takeWhile isAsciiBlank := by simp [line, second]
    have count : text.length - rest.length = 6 + blanks.length := by
      have whole := congrArg List.length parts
      have behind := congrArg List.length second
      simp at whole behind
      omega
    set behind := (line.reverse.dropWhile (· != '\n')).length
    have total : text.length - rest.length + 3 + behind = "static".toList.length +
        (blanks.length + ("get".toList.length + behind)) := by
      simp
      omega
    have inner : tail.take behind = line.take behind := by
      obtain ⟨after, begins⟩ : line <+: tail := line_eq ▸ List.takeWhile_prefix _
      rw [← begins, List.take_append_of_le_length short]
    have token : text.take (text.length - rest.length + 3 + behind) =
        "static".toList ++ (blanks ++ ("get".toList ++ line.take behind)) := by
      rw [total]
      conv_lhs => rw [parts]
      rw [List.take_length_add_append, List.take_length_add_append, List.take_length_add_append,
        inner]
    rw [token]
    have words : ∀ w ∈ ["static".toList, "get".toList], w.all Tally.isPlain := by decide
    simp only [List.forall_mem_append]
    refine ⟨List.all_eq_true.mp (words _ (by simp)), fun c member => ?_,
      List.all_eq_true.mp (words _ (by simp)), fun c member => ?_⟩
    · exact Tally.plain_of_blank (List.mem_takeWhile_imp member)
    · exact Tally.plain_of_blank (List.mem_takeWhile_imp (List.mem_of_mem_take member))
  · simp

theorem even_modifiers (inClass : Bool) : Even t (modifiers inClass : Reader source Bool) := by
  have silent : ∀ (t : Tally) (text : Text), t.afterAll (text.take (staticGetterLine text)) = t :=
    fun t text => Tally.afterAll_plain (plain_staticGetterLine text) t
  unfold modifiers
  extract_lets follows
  have looked : ∀ w starToo t, Even t (follows w starToo) := by
    intro w starToo t
    simp only [follows]
    mvcgen <;> grind
  clear_value follows
  mvcgen [-ahead_looks, -even_take, ahead, take_tally, looked] <;> grind

theorem even_propertyAfterDot : Even t (propertyAfterDot : Reader source Unit) := by
  unfold propertyAfterDot
  mvcgen <;> grind

theorem afterAll_augmentedMark {m : Text} (augmented : augmentedMarks.contains m) (t : Tally) :
    t.afterAll m = t := by
  have plain : ∀ m ∈ augmentedMarks, m.all Tally.isPlain := by decide
  exact Tally.afterAll_plain (List.all_eq_true.mp (plain m (by simpa using augmented))) t

theorem afterAll_operator {op : Text} (operator : level op ≠ 0) (t : Tally) :
    t.afterAll op = t := by
  have plain : ∀ ops ∈ levels, ∀ op ∈ ops, op.all Tally.isPlain := by decide
  unfold level at operator
  split at operator
  · rename_i n found
    obtain ⟨below, holds, -⟩ := List.findIdx?_eq_some_iff_getElem.mp found
    have known := plain _ (List.getElem_mem below) op (by simpa using holds)
    exact Tally.afterAll_plain (List.all_eq_true.mp known) t
  · exact absurd rfl operator

theorem even_importExpression : Even t (importExpression : Reader source Unit) := by
  unfold importExpression
  mvcgen <;> grind

theorem acceptSemicolon_tally :
    ⦃fun s => ⌜s.tally = t⌝⦄ (discard (accept ";") : Reader source Unit)
    ⦃⇓? _ s => ⌜s.tally = t ∨ s.tally = t.ended⌝⦄ := by
  refine triple_discard ?_
  mvcgen
  grind

theorem settles_block {p : Reader source Unit}
    (inner : Settles t p) :
    Settles t (Reader.block p) := by
  mvcgen [-even_block, -even_within, Reader.block, within, inner]

section

variable {go : Go source} (reads : ∀ (goal : Goal) (t : Tally),
  ⦃fun s => ⌜s.tally = t⌝⦄ go goal ⦃⇓? _ s => ⌜Leaves goal t s⌝⦄)

include reads

theorem even_parameters : Even t (parameters go) := by
  unfold parameters
  mvcgen [reads] <;> grind

theorem even_arguments : Even t (arguments go) := by
  unfold arguments
  mvcgen [reads] <;> grind

theorem even_memberName : Even t (memberName go) := by
  unfold memberName
  mvcgen [reads] <;> grind

theorem even_functionRest : Even t (functionRest go) := by
  unfold functionRest
  mvcgen [even_parameters, reads]
  grind

theorem even_items : Even t (items go) := by
  unfold items
  mvcgen [reads] <;> grind

theorem even_member : Even t (member go) := by
  unfold member
  mvcgen [even_modifiers, even_memberName, even_functionRest, reads] <;> grind

theorem even_members : Even t (members go) := by
  unfold members
  mvcgen [even_member, reads] <;> grind

theorem even_templateParts : Even t (templateParts go) := by
  unfold templateParts
  mvcgen [-even_shift, shift_tally, reads] <;> grind

theorem even_template : Even t (template go) := by
  unfold template
  mvcgen [reads]
  grind

theorem even_arrow (m : Nat) : Even t (arrow go m) := by
  unfold arrow
  mvcgen [even_orElse, reads] <;> grind

theorem even_parenthesized : Even t (parenthesized go) := by
  unfold parenthesized
  mvcgen [even_arrow, reads] <;> grind

theorem even_array : Even t (array go) := by
  unfold array
  mvcgen [reads] <;> grind

theorem even_object : Even t (object go) := by
  unfold object
  mvcgen [reads] <;> grind

theorem even_functionExpression : Even t (functionExpression go) := by
  unfold functionExpression
  mvcgen [even_functionRest, reads] <;> grind

theorem even_classFrom (m : Nat) (kind : Kind) : Even t (classFrom go m kind) := by
  unfold classFrom
  mvcgen [reads] <;> grind

theorem even_decorators : Even t (decorators go) := by
  unfold decorators
  mvcgen [even_arguments, reads] <;> grind

theorem even_elementNames (m : Nat) : Even t (elementNames go m) := by
  unfold elementNames
  mvcgen [reads] <;> grind

theorem even_subscript (m : Nat) : Even t (subscript go m) := by
  unfold subscript
  mvcgen [reads] <;> grind

theorem even_call (m : Nat) : Even t (call go m) := by
  unfold call
  mvcgen [even_arguments, reads]
  grind

theorem even_chain (m : Nat) (onlyMembers : Bool) : Even t (chain go m onlyMembers) := by
  unfold chain
  mvcgen [even_propertyAfterDot, even_call, even_subscript, even_template, reads] <;> grind

theorem even_newExpression : Even t (newExpression go) := by
  unfold newExpression
  mvcgen [even_arguments, reads] <;> grind

theorem even_name : Even t (name go) := by
  unfold name
  mvcgen [even_arrow, reads] <;> grind

theorem even_asyncExpression : Even t (asyncExpression go) := by
  unfold asyncExpression
  mvcgen [even_functionExpression, even_arrow, reads] <;> grind

theorem even_primaryWord (w : Text) : Even t (primaryWord go w) := by
  have ofClass : Even t (do classFrom go (← mark) .classExpression) := by
    mvcgen [even_classFrom, reads]
    grind
  unfold primaryWord
  refine triple_ite (even_functionExpression reads) (triple_ite ofClass ?_)
  refine triple_ite (even_newExpression reads) ?_
  refine triple_ite (even_anyWord rfl) (triple_ite (even_anyWord rfl) ?_)
  refine triple_ite (even_anyWord rfl) (triple_ite (even_anyWord rfl) ?_)
  refine triple_ite (even_anyWord rfl) (triple_ite (even_anyWord rfl) ?_)
  refine triple_ite even_importExpression ?_
  exact triple_ite (even_asyncExpression reads) (even_name reads)

theorem even_primary : Even t (primary go) := by
  have decorated : Even t (do
      let m ← mark
      go .decorators
      classFrom go m .classExpression) := by
    mvcgen [even_classFrom, reads]
    grind
  have privateOperand : ∀ text, Even t (do
      take .privateName (privateName text) true
      unless ← seesWord "in" do fail : Reader source Unit) := by
    intro text
    mvcgen <;> grind
  unfold primary
  refine triple_looks ahead_looks fun text => ?_
  cases text with
  | nil => exact triple_fail
  | cons c cs =>
    refine triple_ite (even_primaryWord reads _) (triple_ite (even_take _ _ rfl) ?_)
    refine triple_ite (even_take _ _ rfl) (triple_ite (even_parenthesized reads) ?_)
    refine triple_ite (even_array reads) (triple_ite (even_object reads) ?_)
    refine triple_ite (even_template reads) (triple_ite (even_take _ _ rfl) ?_)
    refine triple_ite ?_ (triple_ite decorated (privateOperand _))
    mvcgen [reads]
    grind

theorem even_target : Even t (target go) := by
  unfold target
  mvcgen [reads] <;> grind [afterAll_augmentedMark]

theorem even_yieldExpression : Even t (yieldExpression go) := by
  unfold yieldExpression
  mvcgen [reads] <;> grind

theorem even_operand : Even t (operand go) := by
  unfold operand
  mvcgen [even_yieldExpression, even_target, reads] <;> grind

theorem even_binaryTail (m least : Nat) : Even t (binaryTail go m least) := by
  unfold binaryTail
  mvcgen [reads] <;> grind [afterAll_operator]

theorem even_expression : Even t (expression go) := by
  unfold expression
  mvcgen [reads] <;> grind

theorem even_moreExpressions : Even t (moreExpressions go) := by
  unfold moreExpressions
  mvcgen [reads] <;> grind

theorem even_expressions : Even t (expressions go) := by
  unfold expressions
  mvcgen [reads] <;> grind

theorem even_tagName : Even t (tagName go) := by
  unfold tagName
  mvcgen [reads] <;> grind

theorem even_bracedExpression : Even t (bracedExpression go) := by
  unfold bracedExpression
  mvcgen [reads] <;> grind

theorem even_tagAttribute : Even t (tagAttribute go) := by
  unfold tagAttribute
  mvcgen [even_bracedExpression, reads] <;> grind

theorem even_attributes : Even t (attributes go) := by
  unfold attributes
  mvcgen [even_tagAttribute, reads] <;> grind

theorem even_children : Even t (children go) := by
  unfold children
  mvcgen [even_tagName, even_bracedExpression, reads] <;> grind

theorem even_element : Even t (element go) := by
  unfold element
  mvcgen [even_tagName, reads] <;> grind

theorem even_statementBlock : Even t (Grammar.block go) := by
  unfold Grammar.block
  mvcgen [-even_block, settles_block, reads] <;> grind

theorem settles_classMember : Settles t (classMember go) := by
  unfold classMember
  mvcgen [-even_discard, acceptSemicolon_tally, even_modifiers, even_memberName, even_functionRest,
    reads] <;> grind

theorem settles_classMembers : Settles t (classMembers go) := by
  unfold classMembers
  mvcgen [settles_classMember, reads] <;> grind [Tally.AtTop]

end

end RequireInjection.Script
