import PlainC.Proofs.Declaring.Names
import PlainC.Proofs.Program.Front
import PlainC.Proofs.Regrouping.Exchanges
import PlainC.Proofs.Relabeling.Reading.Decl

set_option autoImplicit false

/-!
A program is accepted just as well, and declares the same symbols, when variables that share a
declaration get declarations of their own, or the other way round.
-/

namespace PlainC

open Checked

/-! ### Tokens for lexemes -/

/-- The token is of the kind of a lexeme, and on the same line. -/
def Token.StandsFor (token : Token) (lexeme : Lexeme) : Prop :=
  token.kind = lexeme.value ∧ token.line = lexeme.place.line

theorem Lexeme.standsFor_number (index : Nat) (tokens : List Token) :
    List.Forall₂ Token.StandsFor tokens (number index tokens) := by
  induction tokens generalizing index with
  | nil => exact .nil
  | cons token tokens ih => exact .cons ⟨rfl, rfl⟩ (ih (index + 1))

theorem Token.noEnd_iff {tokens : List Token} {lexemes : List Lexeme}
    (standFor : List.Forall₂ StandsFor tokens lexemes) :
    (∀ token ∈ tokens, token.kind ≠ .endOfInput) ↔
      ∀ lexeme ∈ lexemes, lexeme.value ≠ .endOfInput := by
  induction standFor with
  | nil => simp
  | cons head _ ih => rw [List.forall_mem_cons, List.forall_mem_cons, head.1, ih]

/-- The place of the lexeme that has an index among some lexemes, if it is on the same line. -/
def Place.onto (lexemes : List Lexeme) (place : Place) : Place :=
  match lexemes[place.index]? with
  | some lexeme => if lexeme.place.line = place.line then lexeme.place else place
  | none => place

theorem Place.line_onto (lexemes : List Lexeme) (place : Place) :
    place.line = (place.onto lexemes).line := by
  unfold onto
  split
  · split
    · exact Eq.symm ‹_›
    · rfl
  · rfl

/-- Tokens at the places of the lexemes that they stand for. -/
def Relabeling.onto (lexemes : List Lexeme) : Relabeling :=
  ofPlaces (Place.onto lexemes) (Place.line_onto lexemes)

theorem Lexeme.map_relabel_onto {tokens : List Token} {lexemes : List Lexeme}
    (standFor : List.Forall₂ Token.StandsFor tokens lexemes) :
    (number 0 tokens).map (relabel (.onto lexemes)) = lexemes := by
  apply List.ext_getElem?
  intro i
  rw [List.getElem?_map, getElem?_number]
  rcases rel_cases (rel_getElem? standFor i) with ⟨none, none'⟩ | ⟨token, lexeme, found, found', same⟩
  · rw [none, none']
    rfl
  · obtain ⟨value, place⟩ := lexeme
    obtain ⟨kind, line⟩ := same
    simp only at kind line
    rw [found, found', Option.map_some, Option.map_some, kind, line]
    cases value <;> simp [relabel, Relabeling.onto, Relabeling.ofPlaces, Relabeling.onLines,
      Place.onto, found', Kind.relabel]

/-- The tokens at one point can be exchanged for others where the parts there are. -/
theorem Lexeme.exists_split {front here behind : Parts} {tokens : List Token}
    (lexemes : lexemesOf (front ++ (here ++ behind)) = number 0 tokens) :
    ∃ first middle last, tokens = first ++ (middle ++ last) ∧
      number 0 first = lexemesOf front ∧ number first.length middle = lexemesOf here ∧
      ∀ here' middle', List.Forall₂ Token.StandsFor middle' (lexemesOf here') →
        List.Forall₂ Token.StandsFor (first ++ (middle' ++ last))
          (lexemesOf (front ++ (here' ++ behind))) := by
  rw [lexemesOf_append, lexemesOf_append] at lexemes
  obtain ⟨first, _, rfl, isFirst, split⟩ := exists_of_number_eq_append lexemes.symm
  obtain ⟨middle, last, rfl, isMiddle, isLast⟩ := exists_of_number_eq_append split
  rw [Nat.zero_add] at isMiddle
  refine ⟨first, middle, last, rfl, isFirst, isMiddle, fun here' middle' standFor => ?_⟩
  rw [lexemesOf_append, lexemesOf_append, ← isFirst, ← isLast]
  exact List.rel_append (standsFor_number _ _) (List.rel_append standFor (standsFor_number _ _))

/-- Where the parts at one point are exchanged, so are the tokens that stand there. -/
theorem Exchanged.exists_split {here here' whole whole' : Parts} {tokens : List Token}
    (h : Exchanged here here' whole whole') (lexemes : lexemesOf whole = Lexeme.number 0 tokens) :
    ∃ first middle last, tokens = first ++ (middle ++ last) ∧
      Lexeme.number first.length middle = lexemesOf here ∧
      ∀ middle', List.Forall₂ Token.StandsFor middle' (lexemesOf here') →
        List.Forall₂ Token.StandsFor (first ++ (middle' ++ last)) (lexemesOf whole') := by
  obtain ⟨front, behind, rfl, rfl⟩ := h
  obtain ⟨first, middle, last, same, -, isMiddle, exchange⟩ := Lexeme.exists_split lexemes
  exact ⟨first, middle, last, same, isMiddle, exchange here'⟩

namespace Program

/-- Tokens that stand for the lexemes of declarations turn out as these declarations do, wherever the
lexemes come from. -/
theorem turns_of_standFor (refused : Option (Cause → Prop)) {tokens behind : List Token}
    {final : Token} {decls : List Decl} {table : SymbolTable} (isEnd : final.kind = .endOfInput)
    (others : ∀ token ∈ tokens, token.kind ≠ .endOfInput)
    (ends : Ends (tokens ++ final :: behind)) (formed : ∀ decl ∈ decls, decl.Formed)
    (gapless : Gapless (decls.flatMap Decl.parts))
    (standFor : List.Forall₂ Token.StandsFor tokens (lexemesOf (decls.flatMap Decl.parts)))
    (turns : (tableOfDecls decls).Turns refused table) :
    Turns refused (ofTokens (tokens ++ final :: behind)) ⟨table, tokens.length⟩ := by
  -- what is read off the tokens are the declarations at other places
  let last : Lexeme := ⟨final.kind, ⟨tokens.length, final.span, final.line⟩⟩
  let r : Relabeling := .onto (lexemesOf (decls.flatMap Decl.parts))
  have keeps : r.KeepsNames := fun _ => rfl
  have follows := Decl.follows_parseAll (r := r) last (Lexeme.number 0 tokens)
  rw [Lexeme.map_relabel_onto standFor, Decl.parseAll_lexemes _ decls formed gapless] at follows
  have read := (Prod.mk.inj follows).1
  have alike := alike_tableOfDecls (r := r) (Decl.parseAll last (Lexeme.number 0 tokens)).1
  rw [← read] at alike
  have made := ofTokens_result_append isEnd others ends
  cases refused with
  | none =>
    obtain ⟨⟨names', symbols'⟩, given', tables⟩ := Related.gives' alike turns
    obtain ⟨names, symbols⟩ := table
    obtain rfl : symbols = symbols' := tables.symbols_eq keeps Eq.symm
    obtain rfl : names = names' := names_eq_of_relabel keeps given' (read ▸ turns)
    exact made.trans (result_map_eq_ok.mpr ⟨_, given', rfl⟩)
  | some causes =>
    obtain ⟨fault, failed, among⟩ := turns
    rcases alike with ⟨_, _, -, given, -⟩ | ⟨fault', other, failed', failed'', together⟩
    · cases failed.symm.trans given
    · obtain rfl := Except.error.inj (failed.symm.trans failed'')
      refine ⟨fault', made.trans (result_map_eq_error.mpr failed'), ?_⟩
      rwa [← together.cause.eq keeps Eq.symm]

theorem ofTokens_of_standFor {tokens behind : List Token} {final : Token} {decls : List Decl}
    {table : SymbolTable} (isEnd : final.kind = .endOfInput)
    (others : ∀ token ∈ tokens, token.kind ≠ .endOfInput)
    (ends : Ends (tokens ++ final :: behind)) (formed : ∀ decl ∈ decls, decl.Formed)
    (gapless : Gapless (decls.flatMap Decl.parts))
    (standFor : List.Forall₂ Token.StandsFor tokens (lexemesOf (decls.flatMap Decl.parts)))
    (given : (tableOfDecls decls).Gives table) :
    (ofTokens (tokens ++ final :: behind)).result = .ok ⟨table, tokens.length⟩ :=
  turns_of_standFor none isEnd others ends formed gapless standFor given

/-- Splitting and joining: where declarations of variables stand in an accepted program, at the top
level, in a struct, or in a block of a function, the same declarators can stand in other groups, with
the base type in front of each group. The tokens are accepted then, with an equal table. -/
theorem ofTokens_regroup (tokens : List Token) (program : Program)
    (accepted : (ofTokens tokens).result = .ok program) :
    (∃ decls, Written tokens decls) ∧
    ∀ decls, Written tokens decls → ∀ group group' decls', Exchanges group group' decls decls' →
      VarDecl.Regrouped group group' →
      ∃ first middle last, tokens = first ++ (middle ++ last) ∧
        Lexeme.number first.length middle = lexemesOf (group.flatMap VarDecl.parts) ∧
        ∀ middle', List.Forall₂ Token.StandsFor middle' (lexemesOf (group'.flatMap VarDecl.parts)) →
          ∃ program', (ofTokens (first ++ (middle' ++ last))).result = .ok program' ∧
            program'.table = program.table ∧
            program'.position + middle.length = program.position + middle'.length := by
  refine ⟨exists_written accepted, ?_⟩
  intro decls written group group' decls' exchanges regrouped
  have ends := ends_of_accepted accepted
  obtain ⟨given, position⟩ := (written.accepted_iff ends).mp accepted
  obtain ⟨before, final, behind, rfl, isEnd, others⟩ := exists_end ends
  obtain ⟨first, middle, last, rfl, isMiddle, exchanged⟩ :=
    exchanges.parts.exists_split (written.lexemes.trans (front_eq isEnd others))
  refine ⟨first, middle, last ++ final :: behind, by simp, isMiddle, fun middle' standFor => ?_⟩
  have formed := exchanges.formed regrouped written.formed
  have gapless := exchanges.parts.gapless written.gapless regrouped.complete
  have others' : ∀ token ∈ first ++ (middle' ++ last), token.kind ≠ .endOfInput := by
    rw [List.forall_mem_append, List.forall_mem_append] at others ⊢
    have noEnd := (Token.noEnd_iff (Lexeme.standsFor_number first.length middle)).mp others.2.1
    rw [isMiddle] at noEnd
    exact ⟨others.1, (Token.noEnd_iff standFor).mpr (regrouped.noEnd noEnd), others.2.2⟩
  have ends' : Ends (first ++ (middle' ++ last) ++ final :: behind) :=
    (ends_append_cons _ _ _).mpr ((ends_append_cons _ _ _).mp ends)
  have accepted' := ofTokens_of_standFor isEnd others' ends' formed gapless (exchanged _ standFor)
    (exchanges.gives regrouped given)
  rw [List.append_assoc, List.append_assoc] at accepted'
  refine ⟨_, accepted', rfl, ?_⟩
  rw [position, front_eq isEnd others, Lexeme.length_number]
  simp only [List.length_append]
  omega

/-- `int x[] = {1}; int y;` is joined to `int x[] = {1}, y;`, where only the first array gets its size
from the initializer. -/
theorem ofTokens_regroup_join :
    let tokens : List Token := List.map (fun kind => ⟨kind, ⟨0, 0⟩, 1⟩)
      [.keyword .intKw, .identifier "x", .delimiter .leftBracket, .delimiter .rightBracket,
        .operator .assign, .delimiter .leftBrace, .literal .integer "1", .delimiter .rightBrace,
        .delimiter .semicolon, .keyword .intKw, .identifier "y", .delimiter .semicolon, .endOfInput]
    let tokens' : List Token := List.map (fun kind => ⟨kind, ⟨0, 0⟩, 1⟩)
      [.keyword .intKw, .identifier "x", .delimiter .leftBracket, .delimiter .rightBracket,
        .operator .assign, .delimiter .leftBrace, .literal .integer "1", .delimiter .rightBrace,
        .delimiter .comma, .identifier "y", .delimiter .semicolon, .endOfInput]
    ∃ program program', (ofTokens tokens).result = .ok program ∧
      (ofTokens tokens').result = .ok program' ∧
      program'.table = program.table ∧
      program'.position + 1 = program.position := by
  intro tokens tokens'
  obtain ⟨program, accepted⟩ : ∃ program, (ofTokens tokens).result = .ok program := ⟨_, rfl⟩
  obtain ⟨⟨decls, written⟩, regroup⟩ := ofTokens_regroup tokens program accepted
  let place (index : Nat) : Place := ⟨index, ⟨0, 0⟩, 1⟩
  let x : Declarator := ⟨.found ⟨"x", place 1⟩, .unsized (place 2) (place 3),
    some (place 4, .elements (place 5) (.last (.literal .integer ⟨"1", place 6⟩))
      (.found (place 7)))⟩
  let y : Declarator := ⟨.found ⟨"y", place 10⟩, .absent, none⟩
  let first : VarDecl := ⟨.int (place 0), ⟨x, []⟩, .found (place 8)⟩
  let second : VarDecl := ⟨.int (place 9), ⟨y, []⟩, .found (place 11)⟩
  let both : VarDecl := ⟨.int (place 0), ⟨x, [(place 8, y)]⟩, .found (place 11)⟩
  obtain rfl : decls = [first.topLevel, second.topLevel] :=
    (written.parseAll ⟨.endOfInput, place 12⟩).symm
  have exchanges : Exchanges [first, second] [both]
      ([] ++ ([first.topLevel, second.topLevel] ++ [])) ([] ++ ([both.topLevel] ++ [])) := .topLevel
  have regrouped : VarDecl.Regrouped [first, second] [both] :=
    .join (by simp [both, first, second, BaseName.SameAs, BaseName.parts]) rfl rfl rfl
  obtain ⟨front, middle, rest, same, here, regroup⟩ := regroup _ written _ _ _ exchanges regrouped
  have length : middle.length = 12 := by
    rw [← Lexeme.length_number front.length middle, here]
    rfl
  obtain rfl : front = [] := by
    cases middle with
    | nil => cases length
    | cons token middle =>
      have index : front.length = 0 :=
        congrArg (fun lexeme => lexeme.place.index) (List.cons.inj here).1
      exact List.eq_nil_of_length_eq_zero index
  obtain ⟨rfl, rfl⟩ := List.append_inj
    (show tokens.take 12 ++ tokens.drop 12 = middle ++ rest from same) length.symm
  have standFor (lexemes : List Lexeme) : List.Forall₂ Token.StandsFor
      (lexemes.map fun lexeme => ⟨lexeme.value, lexeme.place.span, lexeme.place.line⟩) lexemes :=
    List.forall₂_map_left_iff.mpr (List.forall₂_same.mpr fun _ _ => ⟨rfl, rfl⟩)
  obtain ⟨program', accepted', table, position⟩ := regroup _ (standFor _)
  have position : program'.position + 1 + 11 = program.position + 11 := position
  exact ⟨program, program', accepted, accepted', table, Nat.add_right_cancel position⟩

end Program

end PlainC
