import PlainC.Program
import PlainC.Proofs.Checking.Gaps
import PlainC.Proofs.Checking.Gives
import PlainC.Proofs.Reading.Decl

set_option autoImplicit false

/-!
The front of a program: the lexemes before the first end of input, which are all that is read. There
is at most one list of declarations that they are written from, and the analysis is the check of it.
-/

namespace PlainC

namespace Lexeme

theorem map_value_number (index : Nat) (tokens : List Token) :
    (number index tokens).map At.value = tokens.map Token.kind := by
  induction tokens generalizing index with
  | nil => rfl
  | cons token tokens ih => simp [number, ih]

theorem length_number (index : Nat) (tokens : List Token) :
    (number index tokens).length = tokens.length := by
  simpa using congrArg List.length (map_value_number index tokens)

theorem number_append (index : Nat) (first second : List Token) :
    number index (first ++ second) =
      number index first ++ number (index + first.length) second := by
  induction first generalizing index with
  | nil => rfl
  | cons token first ih => simp [number, ih, Nat.add_assoc, Nat.add_comm 1]

theorem getElem?_number (index : Nat) (tokens : List Token) (i : Nat) :
    (number index tokens)[i]? =
      tokens[i]?.map fun token => ⟨token.kind, ⟨index + i, token.span, token.line⟩⟩ := by
  induction tokens generalizing index i with
  | nil => rfl
  | cons token tokens ih =>
    cases i with
    | zero => rfl
    | succ i => simp [number, ih, Nat.add_assoc, Nat.add_comm 1]

/-- Numbered tokens know where they stand. -/
theorem getElem?_of_mem_number {tokens : List Token} {lexeme : Lexeme}
    (mem : lexeme ∈ number 0 tokens) : ∃ token, tokens[lexeme.place.index]? = some token ∧
      lexeme.value = token.kind ∧ lexeme.place.span = token.span ∧
        lexeme.place.line = token.line := by
  obtain ⟨i, found⟩ := List.getElem?_of_mem mem
  rw [getElem?_number, Option.map_eq_some_iff] at found
  obtain ⟨token, found, rfl⟩ := found
  exact ⟨token, by simpa using found, rfl, rfl, rfl⟩

/-- Where numbered tokens are split, so are the tokens. -/
theorem exists_of_number_eq_append {index : Nat} {tokens : List Token} {first second : List Lexeme}
    (h : number index tokens = first ++ second) : ∃ front behind, tokens = front ++ behind ∧
      number index front = first ∧ number (index + front.length) behind = second := by
  induction first generalizing index tokens with
  | nil => exact ⟨[], tokens, rfl, rfl, h⟩
  | cons lexeme first ih =>
    cases tokens with
    | nil => cases h
    | cons token tokens =>
      obtain ⟨rfl, rest⟩ := List.cons.inj h
      obtain ⟨front, behind, rfl, rfl, rfl⟩ := ih rest
      refine ⟨token :: front, behind, rfl, rfl, ?_⟩
      rw [List.length_cons, Nat.add_right_comm, Nat.add_assoc]

theorem exists_of_number_eq_cons {index : Nat} {tokens : List Token} {lexeme : Lexeme}
    {rest : List Lexeme} (h : number index tokens = lexeme :: rest) : ∃ token behind,
      tokens = token :: behind ∧ lexeme = ⟨token.kind, ⟨index, token.span, token.line⟩⟩ ∧
        number (index + 1) behind = rest := by
  cases tokens with
  | nil => cases h
  | cons token tokens =>
    obtain ⟨rfl, rfl⟩ := List.cons.inj h
    exact ⟨token, tokens, rfl, rfl, rfl⟩

end Lexeme

namespace Program

theorem tableOfDecls_result (decls : List Decl) :
    (tableOfDecls decls).result =
      (decls.foldlM Decl.check ⟨SymbolTable.initial, 0⟩).result.map Declared.table := by
  rw [tableOfDecls, Logged.result_bind]
  cases (decls.foldlM Decl.check ⟨SymbolTable.initial, 0⟩).result <;> rfl

/-- The lexemes before the first end of input. -/
def front (tokens : List Token) : List Lexeme :=
  (Lexeme.number 0 tokens).takeWhile fun lexeme => lexeme.value ≠ .endOfInput

/-- The tokens end with the end of input. -/
def Ends (tokens : List Token) : Prop := tokens.getLast?.map Token.kind = some .endOfInput

instance (tokens : List Token) : Decidable (Ends tokens) := by
  unfold Ends
  infer_instance

theorem ends_iff {tokens : List Token} :
    Ends tokens ↔ ∃ last, (Lexeme.number 0 tokens).getLast? = some last ∧
      last.value = .endOfInput := by
  rw [Ends, ← Option.map_eq_some_iff, ← List.getLast?_map, ← List.getLast?_map,
    Lexeme.map_value_number]

/-- What stands in front makes no difference to the end. -/
theorem ends_append_cons (first : List Token) (token : Token) (second : List Token) :
    Ends (first ++ token :: second) ↔ Ends (token :: second) := by
  simp [Ends, List.getLast?_append, List.getLast?_cons]

theorem exists_end {tokens : List Token} (ends : Ends tokens) :
    ∃ (before : List Token) (final : Token) (behind : List Token),
      tokens = before ++ final :: behind ∧ final.kind = .endOfInput ∧
      ∀ token ∈ before, token.kind ≠ .endOfInput := by
  induction tokens with
  | nil => simp [Ends] at ends
  | cons token tokens ih =>
    by_cases ended : token.kind = .endOfInput
    · exact ⟨[], token, tokens, rfl, ended, by simp⟩
    · have ends' : Ends tokens := by
        cases tokens with
        | nil => simp [Ends, ended] at ends
        | cons => simpa [Ends] using ends
      obtain ⟨before, final, behind, rfl, isEnd, others⟩ := ih ends'
      exact ⟨token :: before, final, behind, rfl, isEnd, by simpa using ⟨ended, others⟩⟩

section

variable {before behind : List Token} {final : Token}

/-- Of tokens without an end of input, all are read. -/
theorem front_append (others : ∀ token ∈ before, token.kind ≠ .endOfInput) (behind : List Token) :
    front (before ++ behind) = Lexeme.number 0 before ++
      (Lexeme.number before.length behind).takeWhile fun lexeme => lexeme.value ≠ .endOfInput := by
  have before' : ∀ lexeme ∈ Lexeme.number 0 before, lexeme.value ≠ .endOfInput := by
    intro lexeme among same
    have among' : lexeme.value ∈ (Lexeme.number 0 before).map At.value := List.mem_map_of_mem among
    rw [Lexeme.map_value_number, same] at among'
    obtain ⟨token, among, same⟩ := List.mem_map.mp among'
    exact others token among same
  rw [front, Lexeme.number_append, List.takeWhile_append_of_pos (by simpa using before'),
    Nat.zero_add]

theorem front_eq (isEnd : final.kind = .endOfInput)
    (others : ∀ token ∈ before, token.kind ≠ .endOfInput) :
    front (before ++ final :: behind) = Lexeme.number 0 before := by
  rw [front_append others]
  simp [Lexeme.number, isEnd]

theorem map_value_front (tokens : List Token) :
    (front tokens).map At.value =
      (tokens.takeWhile fun token => token.kind ≠ .endOfInput).map Token.kind := by
  have same := List.takeWhile_map (f := At.value) (p := (· ≠ .endOfInput)) (l := Lexeme.number 0 tokens)
  rw [Lexeme.map_value_number, List.takeWhile_map] at same
  exact same.symm

theorem front_spelled {tokens : List Token} (ends : Ends tokens) :
    (tokens.take (front tokens).length).map Token.kind = (front tokens).map At.value ∧
      tokens[(front tokens).length]?.map Token.kind = some .endOfInput := by
  obtain ⟨before, final, behind, rfl, isEnd, others⟩ := exists_end ends
  rw [front_eq isEnd others, Lexeme.length_number, Lexeme.map_value_number]
  simp [isEnd]

theorem number_take_front {tokens : List Token} (ends : Ends tokens) :
    Lexeme.number 0 (tokens.take (front tokens).length) = front tokens := by
  obtain ⟨before, final, behind, rfl, isEnd, others⟩ := exists_end ends
  rw [front_eq isEnd others, Lexeme.length_number, List.take_left]

/-- Tokens that do not end with the end of input are refused. -/
theorem ends_of_accepted {tokens : List Token} {program : Program}
    (accepted : (ofTokens tokens).result = .ok program) : Ends tokens := by
  rw [ends_iff]
  cases found : (Lexeme.number 0 tokens).getLast? with
  | none =>
    simp only [ofTokens, found] at accepted
    cases accepted
  | some final =>
    by_cases isEnd : final.value = .endOfInput
    · exact ⟨final, rfl, isEnd⟩
    · simp only [ofTokens, found, ne_eq, isEnd, not_false_eq_true, if_true] at accepted
      cases accepted

/-- Only the front is read; the end of input behind it stands for all that follows. -/
theorem ofTokens_result_append (isEnd : final.kind = .endOfInput)
    (others : ∀ token ∈ before, token.kind ≠ .endOfInput)
    (ends : Ends (before ++ final :: behind)) :
    (ofTokens (before ++ final :: behind)).result =
      (tableOfDecls (Decl.parseAll ⟨final.kind, ⟨before.length, final.span, final.line⟩⟩
        (Lexeme.number 0 before)).1).result.map fun table => ⟨table, before.length⟩ := by
  obtain ⟨last, found, lastEnds⟩ := ends_iff.mp ends
  have here : (Lexeme.number 0 (before ++ final :: behind))[before.length]? =
      some ⟨final.kind, ⟨before.length, final.span, final.line⟩⟩ := by
    simp [Lexeme.getElem?_number]
  have unfolded : ofTokens (before ++ final :: behind) =
      (tableOfDecls (Decl.parseAll ((Lexeme.number 0 (before ++ final :: behind))[
          (front (before ++ final :: behind)).length]?.getD last)
        (front (before ++ final :: behind))).1 >>= fun table => do
          Logged.write (.finished (front (before ++ final :: behind)).length
            (before ++ final :: behind).length)
          return ⟨table, (front (before ++ final :: behind)).length⟩) := by
    simp only [ofTokens, found, lastEnds, ne_eq, not_true_eq_false, if_false]
    rfl
  rw [unfolded, front_eq isEnd others, Lexeme.length_number, here, Option.getD_some,
    Logged.result_bind]
  cases (tableOfDecls _).result <;> rfl

/-- What stands behind the first end of input makes no difference. -/
theorem ofTokens_take {tokens : List Token} (ends : Ends tokens) :
    Ends (tokens.take ((front tokens).length + 1)) ∧
      (ofTokens (tokens.take ((front tokens).length + 1))).result = (ofTokens tokens).result := by
  obtain ⟨before, final, behind, rfl, isEnd, others⟩ := exists_end ends
  have cut : (before ++ final :: behind).take (before.length + 1) = before ++ [final] := by
    rw [List.take_length_add_append]
    rfl
  have ends' : Ends (before ++ [final]) := by simp [Ends, isEnd]
  rw [front_eq isEnd others, Lexeme.length_number, cut]
  exact ⟨ends', (ofTokens_result_append isEnd others ends').trans
    (ofTokens_result_append isEnd others ends).symm⟩

theorem ofTokens_result_mem {tokens : List Token} (ends : Ends tokens) :
    ∃ last ∈ Lexeme.number 0 tokens, last.value = .endOfInput ∧
      (ofTokens tokens).result =
        (tableOfDecls (Decl.parseAll last (front tokens)).1).result.map
          fun table => ⟨table, (front tokens).length⟩ := by
  obtain ⟨before, final, behind, rfl, isEnd, others⟩ := exists_end ends
  refine ⟨⟨final.kind, ⟨before.length, final.span, final.line⟩⟩, ?_, isEnd, ?_⟩
  · rw [Lexeme.number_append, Nat.zero_add]
    exact List.mem_append_right _ List.mem_cons_self
  · rw [ofTokens_result_append isEnd others ends, front_eq isEnd others, Lexeme.length_number]

theorem ofTokens_result {tokens : List Token} (ends : Ends tokens) :
    ∃ last : Lexeme, last.value = .endOfInput ∧
      (ofTokens tokens).result =
        (tableOfDecls (Decl.parseAll last (front tokens)).1).result.map
          fun table => ⟨table, (front tokens).length⟩ := by
  obtain ⟨last, -, isEnd, h⟩ := ofTokens_result_mem ends
  exact ⟨last, isEnd, h⟩

theorem position_of_accepted {tokens : List Token} {program : Program}
    (accepted : (ofTokens tokens).result = .ok program) :
    program.position = (front tokens).length := by
  obtain ⟨last, -, h⟩ := ofTokens_result (ends_of_accepted accepted)
  rw [h] at accepted
  obtain ⟨table, -, rfl⟩ := Checked.result_map_eq_ok.mp accepted
  rfl

end

end Program

/-! ### Declarations that tokens are written from -/

open Checked

namespace Program

/-- The tokens in front of the end of input are those of well-formed declarations, one after the
other. -/
structure Written (tokens : List Token) (decls : List Decl) : Prop where
  formed : ∀ decl ∈ decls, decl.Formed
  gapless : Gapless (decls.flatMap Decl.parts)
  lexemes : lexemesOf (decls.flatMap Decl.parts) = front tokens

variable {tokens : List Token} {decls : List Decl} {program : Program}

theorem Written.parseAll (written : Written tokens decls) (last : Lexeme) :
    (Decl.parseAll last (front tokens)).1 = decls := by
  rw [← written.lexemes, Decl.parseAll_lexemes last decls written.formed written.gapless]

theorem Written.unique {other : List Decl} (written : Written tokens decls)
    (written' : Written tokens other) : other = decls := by
  let last : Lexeme := ⟨.endOfInput, ⟨0, ⟨0, 0⟩, 0⟩⟩
  rw [← written.parseAll last, ← written'.parseAll last]

/-- The analysis of tokens that are written from declarations is the check of these. -/
theorem Written.accepted_iff (written : Written tokens decls) (ends : Ends tokens) :
    (ofTokens tokens).result = .ok program ↔
      (tableOfDecls decls).Gives program.table ∧ program.position = (front tokens).length := by
  obtain ⟨last, -, h⟩ := ofTokens_result ends
  obtain ⟨table, position⟩ := program
  rw [h, written.parseAll, Gives]
  cases (tableOfDecls decls).result <;> simp [Except.map, eq_comm]

/-- What is accepted is written from declarations. -/
theorem exists_written (accepted : (ofTokens tokens).result = .ok program) :
    ∃ decls, Written tokens decls := by
  obtain ⟨last, -, h⟩ := ofTokens_result (ends_of_accepted accepted)
  obtain ⟨decls, rest, read, spans, formed, complete⟩ := Decl.parseAll_reads last (front tokens)
  rw [h, read] at accepted
  obtain ⟨table, checked, -⟩ := result_map_eq_ok.mp accepted
  have gapless := (reports_tableOfDecls decls).gapless checked
  obtain rfl := complete gapless
  exact ⟨decls, formed, gapless, by rw [spans.eq_append, List.append_nil]⟩

end Program

end PlainC
