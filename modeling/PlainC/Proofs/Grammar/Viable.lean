import PlainC.Proofs.Grammar.Exact
import PlainC.Proofs.Grammar.Mending

set_option autoImplicit false

/-!
No syntax error comes late: what stands in front of the token that it is about can still become a
program. The trees that are read show this, because the lexemes in front of the first gap are also
the beginning of the mended trees.
-/

namespace PlainC

/-- The kinds of tokens begin something that the grammar derives. -/
def Grammar.Viable (kinds : List Kind) : Prop :=
  ∃ more, Grammar.Derives (.rule .unit) (kinds ++ more)

/-- What stands in front of the first gap of declarations can become a program. -/
theorem viable_beforeGap {decls : List Decl} (formed : ∀ decl ∈ decls, decl.Formed) :
    Grammar.Viable ((beforeGap (decls.flatMap Decl.parts)).map At.value) := by
  have mends := Mends.flatMap Decl.mends decls
  have formed' : ∀ decl ∈ decls.map Decl.mended, decl.Formed := by
    intro decl among
    obtain ⟨decl', among', rfl⟩ := List.mem_map.mp among
    exact decl'.formed_mended (formed decl' among')
  obtain ⟨more, same⟩ := mends.beforeGap_isPrefix
  have derived := derives_unit formed' mends.gapless
  rw [kindsOf, ← same, List.map_append, List.append_assoc] at derived
  exact ⟨_, derived⟩

namespace Program

/-- The lexemes up to the first end of input are tokens that know where they stand. -/
theorem token_of_split {before : List Token} (final : Token) (behind : List Token)
    {first more : List Lexeme} (split : Lexeme.number 0 before = first ++ more) :
    ∃ token, (before ++ final :: behind)[first.length]? = some token ∧
      more.headD ⟨final.kind, ⟨before.length, final.span, final.line⟩⟩ =
        ⟨token.kind, ⟨first.length, token.span, token.line⟩⟩ ∧
      first.map At.value = ((before ++ final :: behind).take first.length).map Token.kind := by
  obtain ⟨front, rest, rfl, rfl, rfl⟩ := Lexeme.exists_of_number_eq_append split
  rw [Lexeme.length_number, Lexeme.map_value_number, List.append_assoc, List.take_left]
  cases rest with
  | nil => exact ⟨final, by simp, by simp [Lexeme.number], rfl⟩
  | cons token rest => exact ⟨token, by simp, by simp [Lexeme.number], rfl⟩

/-- A syntax error is about one of the tokens, which it gives with its place, and the grammar derives
something that begins with the tokens in front of it. -/
theorem ofTokens_viable (tokens : List Token) (ends : Ends tokens) (fault : Fault)
    (refused : (ofTokens tokens).result = .error fault) (syntactic : fault.cause.IsSyntactic) :
    ∃ token wanted, tokens[fault.place.index]? = some token ∧
      fault = ⟨.unexpected wanted token.kind, ⟨fault.place.index, token.span, token.line⟩⟩ ∧
      Grammar.Viable ((tokens.take fault.place.index).map Token.kind) := by
  obtain ⟨before, final, behind, rfl, isEnd, others⟩ := exists_end ends
  rw [ofTokens_result_append isEnd others ends] at refused
  generalize lastIs : (⟨final.kind, ⟨before.length, final.span, final.line⟩⟩ : Lexeme) = last at refused
  obtain ⟨decls, rest, h, spans, formed, -⟩ := Decl.parseAll_reads last (Lexeme.number 0 before)
  rw [h, Checked.result_map_eq_error] at refused
  obtain ⟨wanted, gap, first, rfl⟩ := (reports_tableOfDecls decls).firstGap refused syntactic
  obtain ⟨more, split, rfl⟩ := spans.beforeGap_append first
  obtain ⟨token, found, here, kinds⟩ := token_of_split final behind split
  rw [lastIs] at here
  refine ⟨token, wanted, ?_, ?_, ?_⟩ <;> rw [here]
  · exact found
  · exact kinds ▸ viable_beforeGap formed

/-- In `int a[(2;` the parenthesis is not closed, and what stands in front of the semicolon can still
become a program. -/
theorem ofTokens_viable_size :
    (ofTokens [⟨.keyword .intKw, ⟨0, 3⟩, 1⟩, ⟨.identifier "a", ⟨4, 5⟩, 1⟩,
        ⟨.delimiter .leftBracket, ⟨5, 6⟩, 1⟩, ⟨.delimiter .leftParen, ⟨6, 7⟩, 1⟩,
        ⟨.literal .integer "2", ⟨7, 8⟩, 1⟩, ⟨.delimiter .semicolon, ⟨8, 9⟩, 1⟩,
        ⟨.endOfInput, ⟨9, 9⟩, 1⟩]).result =
      .error ⟨.unexpected (.mark .rightParen) (.delimiter .semicolon), ⟨5, ⟨8, 9⟩, 1⟩⟩ ∧
    Grammar.Viable [.keyword .intKw, .identifier "a", .delimiter .leftBracket,
      .delimiter .leftParen, .literal .integer "2"] := by
  refine ⟨rfl, ?_⟩
  obtain ⟨-, -, -, -, viable⟩ := ofTokens_viable [⟨.keyword .intKw, ⟨0, 3⟩, 1⟩,
    ⟨.identifier "a", ⟨4, 5⟩, 1⟩, ⟨.delimiter .leftBracket, ⟨5, 6⟩, 1⟩,
    ⟨.delimiter .leftParen, ⟨6, 7⟩, 1⟩, ⟨.literal .integer "2", ⟨7, 8⟩, 1⟩,
    ⟨.delimiter .semicolon, ⟨8, 9⟩, 1⟩, ⟨.endOfInput, ⟨9, 9⟩, 1⟩] (by decide)
    ⟨.unexpected (.mark .rightParen) (.delimiter .semicolon), ⟨5, ⟨8, 9⟩, 1⟩⟩ rfl trivial
  exact viable

end Program

end PlainC
