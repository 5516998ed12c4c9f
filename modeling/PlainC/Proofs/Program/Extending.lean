import PlainC.Proofs.Anchoring.Source
import PlainC.Proofs.Declaring.Decl
import PlainC.Proofs.Program.Front

set_option autoImplicit false

/-!
Declarations that are complete are settled. What follows them is read and checked as if they were
given: it does not change what they declare, and no fault is found in them any more.
-/

namespace PlainC

open Checked

namespace Program

/-- The tokens are well-formed declarations, one after the other, and pass the check. -/
structure Complete (tokens : List Token) (decls : List Decl) (declared : Declared) : Prop where
  others : ∀ token ∈ tokens, token.kind ≠ .endOfInput
  formed : ∀ decl ∈ decls, decl.Formed
  gapless : Gapless (decls.flatMap Decl.parts)
  lexemes : lexemesOf (decls.flatMap Decl.parts) = Lexeme.number 0 tokens
  given : (decls.foldlM Decl.check ⟨.initial, 0⟩).Gives declared

/-- What is accepted in front of the end of input is complete. -/
theorem exists_complete {tokens : List Token} {final : Token} {program : Program}
    (isEnd : final.kind = .endOfInput) (others : ∀ token ∈ tokens, token.kind ≠ .endOfInput)
    (accepted : (ofTokens (tokens ++ [final])).result = .ok program) :
    ∃ decls declared, Complete tokens decls declared ∧ declared.table = program.table := by
  obtain ⟨decls, written⟩ := exists_written accepted
  have given := ((written.accepted_iff (ends_of_accepted accepted)).mp accepted).1
  simp only [tableOfDecls, gives_bind, gives_pure] at given
  obtain ⟨declared, given, same⟩ := given
  have lexemes := written.lexemes
  rw [front_eq isEnd others] at lexemes
  exact ⟨decls, declared, ⟨others, written.formed, written.gapless, lexemes, given⟩, same.symm⟩

/-- The lexemes of what follows some tokens, up to the end of input. -/
def frontBehind (tokens behind : List Token) : List Lexeme :=
  (Lexeme.number tokens.length behind).takeWhile fun lexeme => lexeme.value ≠ .endOfInput

/-- What follows complete declarations is checked in the table that these leave. -/
theorem Complete.ofTokens_result {tokens : List Token} {decls : List Decl} {declared : Declared}
    (complete : Complete tokens decls declared) {behind : List Token} (ends : Ends behind) :
    ∃ last ∈ Lexeme.number tokens.length behind, last.value = .endOfInput ∧
      (ofTokens (tokens ++ behind)).result =
        ((Decl.parseAll last (frontBehind tokens behind)).1.foldlM Decl.check declared).result.map
          fun declared' => ⟨declared'.table, tokens.length + (frontBehind tokens behind).length⟩ := by
  have ends' : Ends (tokens ++ behind) := by
    cases behind with
    | nil => cases ends
    | cons token behind => exact (ends_append_cons tokens token behind).mpr ends
  obtain ⟨last, among, isEnd, h⟩ := ofTokens_result_mem ends'
  have among' : last ∈ Lexeme.number tokens.length behind := by
    rw [Lexeme.number_append, Nat.zero_add] at among
    rcases List.mem_append.mp among with inFront | among
    · obtain ⟨token, inside, same, -⟩ := Lexeme.exists_token inFront
      exact absurd (same.symm.trans isEnd) (complete.others token inside)
    · exact among
  refine ⟨last, among', isEnd, ?_⟩
  have split : front (tokens ++ behind) =
      lexemesOf (decls.flatMap Decl.parts) ++ frontBehind tokens behind := by
    rw [front_append complete.others, complete.lexemes, frontBehind]
  have given : (decls.foldlM Decl.check ⟨.initial, 0⟩).result = .ok declared := complete.given
  rw [h, split, Decl.parseAll_append last complete.formed complete.gapless, tableOfDecls_result,
    List.foldlM_append, Logged.result_bind, given, List.length_append, complete.lexemes,
    Lexeme.length_number]
  change ((List.foldlM Decl.check declared _).result.map _).map _ = _
  cases (List.foldlM Decl.check declared _).result <;> rfl

namespace Complete

variable {tokens behind : List Token} {decls : List Decl} {declared : Declared}

/-- Complete declarations keep their symbols, and these come first. -/
theorem grows (complete : Complete tokens decls declared) (ends : Ends behind) {program : Program}
    (accepted : (ofTokens (tokens ++ behind)).result = .ok program) :
    ∃ more, program.table.symbols = declared.table.symbols ++ more := by
  obtain ⟨last, -, -, h⟩ := complete.ofTokens_result ends
  obtain ⟨decls', rest, read, -, formed, -⟩ := Decl.parseAll_reads last (frontBehind tokens behind)
  rw [h, read, result_map_eq_ok] at accepted
  obtain ⟨declared', given, rfl⟩ := accepted
  obtain ⟨more, -, grown⟩ := declarations_of_gives formed given
  exact ⟨more, grown⟩

/-- No fault is about complete declarations. -/
theorem exists_token_of_fault (complete : Complete tokens decls declared) (ends : Ends behind)
    {fault : Fault} (refused : (ofTokens (tokens ++ behind)).result = .error fault) :
    ∃ token ∈ behind, fault.diagnostic.span = token.span ∧ fault.diagnostic.line = token.line := by
  obtain ⟨last, last_mem, -, h⟩ := complete.ofTokens_result ends
  rw [h, result_map_eq_error] at refused
  obtain ⟨lexeme, read, place, -⟩ := Decl.exists_lexeme_of_fault refused
  have mem : lexeme ∈ Lexeme.number tokens.length behind := by
    rcases read with inFront | isLast
    · exact (List.takeWhile_sublist _).subset inFront
    · exact isLast ▸ last_mem
  obtain ⟨token, inside, -, span, line⟩ := Lexeme.exists_token mem
  rw [← place] at span line
  exact ⟨token, inside, span, line⟩

end Complete

/-- Behind complete declarations, the table only grows, and faults are only found in what follows. -/
theorem ofTokens_extends (first behind : List Token) (final final' : Token)
    (isEnd : final.kind = .endOfInput) (isEnd' : final'.kind = .endOfInput)
    (others : ∀ token ∈ first, token.kind ≠ .endOfInput) (program : Program)
    (accepted : (ofTokens (first ++ [final])).result = .ok program) :
    (∀ program', (ofTokens (first ++ behind ++ [final'])).result = .ok program' →
      ∃ more, program'.table.symbols = program.table.symbols ++ more) ∧
    ∀ fault, (ofTokens (first ++ behind ++ [final'])).result = .error fault →
      ∃ index token, first.length ≤ index ∧ (first ++ behind ++ [final'])[index]? = some token ∧
        fault.diagnostic.span = token.span ∧ fault.diagnostic.line = token.line := by
  obtain ⟨decls, declared, complete, same⟩ := exists_complete isEnd others accepted
  have ends : Ends (behind ++ [final']) := by simp [Ends, isEnd']
  rw [List.append_assoc, ← same]
  refine ⟨fun program' accepted' => complete.grows ends accepted', fun fault refused => ?_⟩
  obtain ⟨token, inside, about⟩ := complete.exists_token_of_fault ends refused
  obtain ⟨index, found⟩ := List.getElem?_of_mem inside
  refine ⟨first.length + index, token, Nat.le_add_right _ _, ?_, about⟩
  rw [List.getElem?_append_right (Nat.le_add_right _ _), Nat.add_sub_cancel_left, found]

/-- Behind `int x;`, the tokens of `char y;` add a symbol, and those of a second `int x;` are at
fault. -/
theorem ofTokens_extends_variable :
    let first : List Token :=
      [⟨.keyword .intKw, ⟨0, 3⟩, 1⟩, ⟨.identifier "x", ⟨4, 5⟩, 1⟩, ⟨.delimiter .semicolon, ⟨5, 6⟩, 1⟩]
    let second : List Token :=
      [⟨.keyword .charKw, ⟨7, 11⟩, 2⟩, ⟨.identifier "y", ⟨12, 13⟩, 2⟩,
        ⟨.delimiter .semicolon, ⟨13, 14⟩, 2⟩]
    let again : List Token :=
      [⟨.keyword .intKw, ⟨7, 10⟩, 2⟩, ⟨.identifier "x", ⟨11, 12⟩, 2⟩,
        ⟨.delimiter .semicolon, ⟨12, 13⟩, 2⟩]
    let final : Token := ⟨.endOfInput, ⟨14, 14⟩, 2⟩
    (∃ program program' more, (ofTokens (first ++ [final])).result = .ok program ∧
      (ofTokens (first ++ second ++ [final])).result = .ok program' ∧
      program'.table.symbols = program.table.symbols ++ more) ∧
    ∃ fault index token, (ofTokens (first ++ again ++ [final])).result = .error fault ∧
      3 ≤ index ∧ (first ++ again ++ [final])[index]? = some token ∧
      fault.diagnostic.span = token.span ∧ fault.diagnostic.line = token.line := by
  intro first second again final
  have others : ∀ token ∈ first, token.kind ≠ .endOfInput := by decide
  obtain ⟨program, accepted⟩ : ∃ program, (ofTokens (first ++ [final])).result = .ok program :=
    ⟨_, rfl⟩
  have extended := ofTokens_extends first second final final rfl rfl others program accepted
  have extended' := ofTokens_extends first again final final rfl rfl others program accepted
  obtain ⟨program', accepted'⟩ : ∃ program',
      (ofTokens (first ++ second ++ [final])).result = .ok program' := ⟨_, rfl⟩
  obtain ⟨fault, refused⟩ : ∃ fault, (ofTokens (first ++ again ++ [final])).result = .error fault :=
    ⟨_, rfl⟩
  obtain ⟨more, grown⟩ := extended.1 program' accepted'
  obtain ⟨index, token, behind, found, about⟩ := extended'.2 fault refused
  exact ⟨⟨program, program', more, accepted, accepted', grown⟩,
    fault, index, token, refused, behind, found, about⟩

end Program

end PlainC
