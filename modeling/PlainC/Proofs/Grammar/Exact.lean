import PlainC.Proofs.Checking.Gaps
import PlainC.Proofs.Grammar.Trees
import PlainC.Proofs.Program.Front
import PlainC.Proofs.Reading.Decl

set_option autoImplicit false

/-!
The analysis follows the grammar exactly: it accepts only what the grammar derives, and what the
grammar derives is never refused for its form.
-/

namespace PlainC

namespace Program

open Grammar Grammar.Form

/-- The trees that are read have no gap just if the lexemes have a tree of the grammar. -/
theorem gapless_parseAll_iff (last : Lexeme) (ts : List Lexeme) :
    Gapless ((Decl.parseAll last ts).1.flatMap Decl.parts) ↔
      Derives (rule .unit) (ts.map At.value ++ [.endOfInput]) := by
  obtain ⟨decls, rest, h, spans, formed, complete⟩ := Decl.parseAll_reads last ts
  rw [h]
  constructor
  · intro gapless
    obtain rfl := complete gapless
    have derived := derives_unit formed gapless
    rwa [kindsOf, ← List.append_nil (lexemesOf _), ← spans.eq_append] at derived
  · intro derived
    have hasTree := (derives_unit_iff (ts ++ [⟨.endOfInput, last.place⟩])).mp (by simpa using derived)
    obtain ⟨decls', place, formed', gapless, same⟩ := hasTree
    obtain ⟨rfl, -⟩ := List.append_inj' same rfl
    rw [Decl.parseAll_lexemes last decls' formed' gapless] at h
    obtain ⟨rfl, -⟩ := Prod.mk.inj h
    exact gapless

/-- If the tokens end with the end of input, then what is accepted is derived by the grammar up to
the first end of input. What the grammar derives is accepted, or else it breaks a rule of the language
or has a literal without a value. -/
theorem ofTokens_grammatical (tokens : List Token) (ends : Ends tokens) :
    (∀ program, (ofTokens tokens).result = .ok program →
      tokens[program.position]?.map Token.kind = some .endOfInput ∧
      Derives (rule .unit) ((tokens.take program.position).map Token.kind ++ [.endOfInput])) ∧
    (Derives (rule .unit)
        ((tokens.takeWhile fun token => token.kind ≠ .endOfInput).map Token.kind ++ [.endOfInput]) →
      (∃ program, (ofTokens tokens).result = .ok program) ∨
      ∃ fault, (ofTokens tokens).result = .error fault ∧
        ((∃ broken, fault.cause = .violation broken) ∨ ∃ error, fault.cause = .literal error)) := by
  obtain ⟨last, -, h⟩ := ofTokens_result ends
  have reports := reports_tableOfDecls (Decl.parseAll last (front tokens)).1
  have exact_iff := gapless_parseAll_iff last (front tokens)
  obtain ⟨spelled, isEnd⟩ := front_spelled ends
  rw [h]
  cases checked : (tableOfDecls (Decl.parseAll last (front tokens)).1).result with
  | ok table =>
    refine ⟨?_, fun _ => .inl ⟨_, rfl⟩⟩
    rintro program ⟨⟩
    refine ⟨isEnd, ?_⟩
    rw [spelled]
    exact exact_iff.mp (reports.gapless checked)
  | error fault =>
    refine ⟨nofun, fun derived => .inr ⟨fault, rfl, ?_⟩⟩
    have gapless := exact_iff.mpr (map_value_front tokens ▸ derived)
    cases cause : fault.cause with
    | violation broken => exact .inl ⟨broken, rfl⟩
    | literal error => exact .inr ⟨error, rfl⟩
    | unexpected | noTokens =>
      obtain ⟨wanted, lexeme, gap, -⟩ := reports.firstGap checked (by simp [cause, Cause.IsSyntactic])
      rw [gapless] at gap
      cases gap

/-- The tokens of `int x;` are accepted, and so the grammar derives them. -/
theorem ofTokens_grammatical_int :
    Ends [⟨.keyword .intKw, ⟨0, 3⟩, 1⟩, ⟨.identifier "x", ⟨4, 5⟩, 1⟩,
        ⟨.delimiter .semicolon, ⟨5, 6⟩, 1⟩, ⟨.endOfInput, ⟨6, 6⟩, 1⟩] ∧
      Derives (rule .unit) [.keyword .intKw, .identifier "x", .delimiter .semicolon, .endOfInput] := by
  refine ⟨by decide, ?_⟩
  have accepted := (ofTokens_grammatical [⟨.keyword .intKw, ⟨0, 3⟩, 1⟩, ⟨.identifier "x", ⟨4, 5⟩, 1⟩,
    ⟨.delimiter .semicolon, ⟨5, 6⟩, 1⟩, ⟨.endOfInput, ⟨6, 6⟩, 1⟩] (by decide)).1
  exact (accepted _ rfl).2

end Program

end PlainC
