import ContentSpace.Grammar.Program
import ContentSpace.Proofs.Grammar.Spelling.Reading
import ContentSpace.Proofs.Source.Blank
import ContentSpace.Tree.Printer

/-!
# Literals are read as they are printed

A printed text has a backslash in front of each character that would end it or start an escape. So
no quote in it stands without a backslash, and backslashes come in pairs with what follows them: the
string goes on to the last quote, and resolving its escapes gives the text back.
-/

namespace ContentSpace

variable {settings : Settings}

/-- A character that stands as it is neither ends a string nor starts an escape; any other one is
written as an escape that stands for it. -/
theorem escapedChar_cases (c : Char) :
    (c ≠ '"' ∧ c ≠ '\\' ∧ escapedChar c = [c]) ∨
      ∃ letter, escapedChar c = ['\\', letter] ∧
        ∀ rest, Grammar.unescaped ('\\' :: letter :: rest) = c :: Grammar.unescaped rest := by
  by_cases quote : c = '"'
  · exact .inr ⟨'"', by rw [quote]; rfl, fun rest => by rw [quote, Grammar.unescaped]⟩
  by_cases escape : c = '\\'
  · exact .inr ⟨'\\', by rw [escape]; rfl, fun rest => by rw [escape, Grammar.unescaped]⟩
  by_cases newline : c = '\n'
  · exact .inr ⟨'n', by rw [newline]; rfl, fun rest => by rw [newline, Grammar.unescaped]⟩
  by_cases tab : c = '\t'
  · exact .inr ⟨'t', by rw [tab]; rfl, fun rest => by rw [tab, Grammar.unescaped]⟩
  · exact .inl ⟨quote, escape, by simp [escapedChar, quote, escape, newline, tab]⟩

namespace Source

/-- The escaped characters of a text are in a string, whatever comes after its closing quote. -/
theorem stringBody_escaped (text rest : List Char) :
    stringBody (text.flatMap escapedChar ++ '"' :: rest) = (text.flatMap escapedChar, true) := by
  induction text with
  | nil => rfl
  | cons c text ih =>
    rw [List.flatMap_cons, List.append_assoc]
    rcases escapedChar_cases c with ⟨noQuote, noEscape, plain⟩ | ⟨letter, escaped, -⟩
    · rw [plain, List.singleton_append, stringBody_cons noQuote noEscape, ih, List.singleton_append]
    · rw [escaped, List.cons_append, List.singleton_append, stringBody, ih]
      rfl

/-- A printed text is a single string. -/
theorem map_word_tokens_printString (text : String) :
    (tokens settings (printString text)).map Token.word =
      [⟨.string, String.ofList (text.toList.flatMap escapedChar)⟩] := by
  have found : extent settings '"' (text.toList.flatMap escapedChar ++ ['"']) =
      ⟨(text.toList.flatMap escapedChar).length + 1,
        some (.string, text.toList.flatMap escapedChar)⟩ := by
    have solid : Text.isBlank '"' = false := by decide
    simp [extent, solid, stringBody_escaped]
  rw [tokens, map_word_tokensOf, printString, String.toList_ofList, List.cons_append, pieces, found]
  have nothing : (text.toList.flatMap escapedChar ++ ['"']).drop
      ((text.toList.flatMap escapedChar).length + 1) = [] := by
    simp
  rw [nothing, pieces]
  rfl

end Source

namespace Grammar

/-- Resolving the escapes of a text gives the text back. -/
theorem unescaped_escaped (text : List Char) : unescaped (text.flatMap escapedChar) = text := by
  induction text with
  | nil => rfl
  | cons c text ih =>
    rw [List.flatMap_cons]
    rcases escapedChar_cases c with ⟨-, noEscape, plain⟩ | ⟨letter, escaped, stands⟩
    · rw [plain, List.singleton_append, unescaped, ih]
      -- The escapes come first in the reader, and none of them starts here.
      all_goals intros; contradiction
    · rw [escaped, List.cons_append, List.singleton_append, stands, ih]

variable {env : Environment}

/-- A string is read as the text it stands for. -/
theorem Selects.string (text : String) :
    Selects env (.string (stringContent text)) [⟨.string, text⟩] := by
  refine .literal nofun nofun fun below token rest known => ?_
  obtain ⟨span, rfl⟩ := Token.exists_of_word known
  have kind : (Token.mk .string text span).kind = .string := rfl
  show ((ofKind env .string .expectedExpression).andThen fun token =>
    return Node.string (stringContent token.text)).run _ = _
  rw [Consumer.run_andThen, run_ofKind kind, ok_bind]
  rfl

end Grammar

open Grammar

/-- A printed text is read back: the text of the literal is a single string token, up to the end of
the source, and it is read as the literal with whatever settings, if there is room for a level. -/
theorem parseExpression_print_string (text : String) (settings : Settings) (scope : Scope)
    (depth : Nat) :
    let printed := (Node.string text).print
    (∃ token, Source.tokens settings printed ++ [Source.endToken printed] =
      [token, Source.endToken printed] ∧ token.kind = .string ∧ stringContent token.text = text) ∧
    parseExpression { settings with maxDepth := depth + 1 } scope printed = .ok (.string text) ∧
    parseExpression {} {} printed = .ok (.string text) := by
  intro printed
  have content : stringContent (String.ofList (text.toList.flatMap escapedChar)) = text := by
    rw [stringContent, String.toList_ofList, unescaped_escaped, String.ofList_toList]
  have word (settings : Settings) : (Source.tokens settings printed).map Token.word =
      [⟨.string, String.ofList (text.toList.flatMap escapedChar)⟩] :=
    Source.map_word_tokens_printString text
  have parsed (settings : Settings) (scope : Scope) (enough : 1 ≤ settings.maxDepth) :
      parseExpression settings scope printed = .ok (.string text) := by
    rw [← content]
    refine parseExpression_of_takes ?_ (word settings)
    exact (Selects.string _).operates.takes (List.cons_ne_nil _ _) enough
  refine ⟨?single, parsed _ scope (Nat.le_add_left 1 depth), parsed {} {} (by decide)⟩
  obtain ⟨token, single, known⟩ := List.map_eq_singleton_iff.mp (word settings)
  obtain ⟨span, rfl⟩ := Token.exists_of_word known
  exact ⟨_, congrArg (· ++ [Source.endToken printed]) single, rfl, content⟩

/-- Quotes, backslashes in front of a quote and of a letter, and a line break are read back. -/
example : (Node.string "\"\\\"\\n\n").print = "\"\\\"\\\\\\\"\\\\n\\n\"" := by decide

end ContentSpace
