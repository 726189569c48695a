import ContentSpace.Grammar.Program
import ContentSpace.Proofs.Grammar.Ensures
import ContentSpace.Proofs.Grammar.Spelling.Reading

/-!
# Expressions are read as they are written

The words of an expression, with spaces between them, are the tokens of the text they make up. So
the text of an expression is read as the expression, with the parentheses that are needed and with
more, if there is room for as many levels as it has words.
-/

namespace ContentSpace

namespace Spelling

open Source

variable {settings : Settings} {least : Nat} {node : Node} {words : List Word}

/-- Words stand alone between brackets when they do without. -/
theorem standsAlone_bracketed {before after : String} (opening : before ∈ ["(", "["])
    (closing : after ∈ [")", "]"]) (alone : ∀ word ∈ words, StandsAlone settings word) :
    ∀ word ∈ Word.symbol before :: words ++ [Word.symbol after], StandsAlone settings word := by
  have all : ∀ text ∈ ["(", "["] ++ [")", "]"], text ∈ ["(", ")", "[", "]", ",", "."] := by decide
  have first : StandsAlone settings (.symbol before) :=
    standsAlone_symbol (all before (List.mem_append_left _ opening))
  have last : StandsAlone settings (.symbol after) :=
    standsAlone_symbol (all after (List.mem_append_right _ closing))
  exact List.forall_mem_append.mpr
    ⟨List.forall_mem_cons.mpr ⟨first, alone⟩, List.forall_mem_singleton.mpr last⟩

/-- Words stand alone in a list of items when they do in the items. -/
theorem standsAlone_separated {items : List (Node × List Word)}
    (alone : ∀ item ∈ items, ∀ word ∈ item.2, StandsAlone settings word) :
    ∀ word ∈ Word.separated (items.map Prod.snd), StandsAlone settings word := by
  cases items with
  | nil => simp [Word.separated]
  | cons first others =>
    obtain ⟨here, later⟩ := List.forall_mem_cons.mp alone
    rw [List.map_cons, Word.separated_cons, List.flatMap_map]
    refine List.forall_mem_append.mpr ⟨here, fun word member => ?_⟩
    obtain ⟨item, inside, member⟩ := List.mem_flatMap.mp member
    rcases List.mem_cons.mp member with rfl | member
    · exact standsAlone_symbol (by decide)
    · exact later item inside word member

/-- The words that spell an expression stand alone. -/
theorem standsAlone (spelling : Spelling least node words)
    (dotted : ∀ start ∈ settings.privileged, '.' ∈ start.toList) :
    ∀ word ∈ words, StandsAlone settings word := by
  have name {name : String} (plain : IsPlainName name) : StandsAlone settings (.identifier name) :=
    standsAlone_identifier plain dotted
  induction spelling with
  | parenthesized _ ih => exact standsAlone_bracketed (by decide) (by decide) ih
  | var plain => exact List.forall_mem_singleton.mpr (name plain)
  | whole _ => exact List.forall_mem_singleton.mpr (standsAlone_digits _)
  | @binary _ _ primitive text _ _ _ _ found _ _ _ ihLeft ihRight =>
    have member : text ∈ operators := by cases primitive <;> cases found <;> decide
    exact List.forall_mem_append.mpr
      ⟨ihLeft, List.forall_mem_cons.mpr ⟨standsAlone_operator member, ihRight⟩⟩
  | not _ _ ih => exact List.forall_mem_cons.mpr ⟨standsAlone_operator (by decide), ih⟩
  | neg _ _ _ ih => exact List.forall_mem_cons.mpr ⟨standsAlone_operator (by decide), ih⟩
  | index _ _ _ ihNode ihPlace =>
    rw [List.append_assoc]
    exact List.forall_mem_append.mpr
      ⟨ihNode, standsAlone_bracketed (by decide) (by decide) ihPlace⟩
  | field _ _ plain ih =>
    refine List.forall_mem_append.mpr ⟨ih, List.forall_mem_cons.mpr ⟨?_, ?_⟩⟩
    · exact standsAlone_symbol (by decide)
    · exact List.forall_mem_singleton.mpr (name plain)
  | call _ _ _ ihTarget ihArguments =>
    exact List.forall_mem_append.mpr
      ⟨ihTarget, standsAlone_bracketed (by decide) (by decide) (standsAlone_separated ihArguments)⟩
  | array _ ih => exact standsAlone_bracketed (by decide) (by decide) (standsAlone_separated ih)
  | pipeline _ _ ihValue ihStage =>
    exact List.forall_mem_append.mpr
      ⟨ihValue, List.forall_mem_cons.mpr ⟨standsAlone_operator (by decide), ihStage⟩⟩

end Spelling

open Grammar

/-- The text that spells an expression is read as the expression, if there is room for as many
levels as it has words. -/
theorem parseExpression_of_spelling {settings : Settings} {scope : Scope} {node : Node}
    {words : List Word} (spelling : Spelling 0 node words)
    (dotted : ∀ start ∈ settings.privileged, '.' ∈ start.toList)
    (enough : words.length ≤ settings.maxDepth) :
    parseExpression settings scope (Word.spaced words) = .ok node := by
  have taken := taken_of_spelling (start settings scope (Word.spaced words)) spelling
  exact parseExpression_of_takes (taken.takes enough)
    (Source.map_word_tokens_spaced (spelling.standsAlone dotted))

/-- Expressions are read as they are written: the text of an expression with the parentheses that
the strengths of its parts ask for is read as the expression, and so is every text with more
parentheses, if there is room for as many levels as the text has words. -/
theorem parseExpression_spaced {node : Node} (expressible : Expressible node) (scope : Scope)
    (defaultTag : String) (maxDepth : Nat) :
    (node.words.length ≤ maxDepth →
      parseExpression { maxDepth, defaultTag } scope (Word.spaced node.words) = .ok node) ∧
    ∀ words, Spelling 0 node words → words.length ≤ maxDepth →
      parseExpression { maxDepth, defaultTag } scope (Word.spaced words) = .ok node := by
  have dotted : ∀ start ∈ ["ls.", "sys."], '.' ∈ start.toList := by decide
  have spelled (words : List Word) (spelling : Spelling 0 node words)
      (enough : words.length ≤ maxDepth) :
      parseExpression { maxDepth, defaultTag } scope (Word.spaced words) = .ok node :=
    parseExpression_of_spelling spelling dotted enough
  exact ⟨spelled node.words (expressible.spelling 0 (Nat.zero_le _)), spelled⟩

/-- A sum is read between the parentheses it needs, and a negation between ones it does not need. -/
theorem parseExpression_spaced_product :
    let node := Node.apply .mul [.apply .add [.var "a", .var "b"], .apply .not [.var "c"]]
    parseExpression { maxDepth := 8 } {} "( a + b ) * ! c" = .ok node ∧
      parseExpression { maxDepth := 10 } {} "( a + b ) * ( ! c )" = .ok node := by
  intro node
  have plain : ∀ name ∈ ["a", "b", "c"], Source.IsPlainName name := by
    intro name member
    simp only [List.mem_cons, List.not_mem_nil, or_false] at member
    rcases member with rfl | rfl | rfl <;>
      exact ⟨⟨_, [], rfl, by decide, by simp⟩, by decide, by decide⟩
  have a := plain "a" (by decide)
  have b := plain "b" (by decide)
  have c := plain "c" (by decide)
  have expressible : Expressible node :=
    .binary rfl (.binary rfl (.var a) (.var b)) (.not (.var c))
  have sum : Spelling 6 (.apply .add [.var "a", .var "b"])
      (Word.parenthesized ([.identifier "a"] ++ .operator "+" :: [.identifier "b"])) :=
    .parenthesized (.binary rfl (Nat.zero_le 5) (.var a) (.var b))
  have negation : Spelling 7 (.apply .not [.var "c"])
      (Word.parenthesized (.operator "!" :: [.identifier "c"])) :=
    .parenthesized (.not (Nat.zero_le 7) (.var c))
  exact ⟨(parseExpression_spaced expressible {} "value" 8).1 (by decide),
    (parseExpression_spaced expressible {} "value" 10).2 _
      (.binary rfl (Nat.zero_le 6) sum negation) (by decide)⟩

end ContentSpace
