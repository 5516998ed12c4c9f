import PlainC.Proofs.Reading.Expr.Lexemes
import PlainC.VarDecl.Parse

set_option autoImplicit false

/-!
Reading declarations of variables, and reading them back.
-/

namespace PlainC

namespace Initializer

theorem parse_reads : Parse.Reads Initializer.parse parts Formed := by
  intro last ts
  rcases Parse.token?_cases (.delimiter .leftBrace) last ts with
      ⟨opening, behind, rfl, hopening⟩ | ⟨-, hopening⟩
  · rcases Parse.token?_cases (.delimiter .rightBrace) last behind with
        ⟨closing, rest, rfl, hclosing⟩ | ⟨-, hclosing⟩
    · exact ⟨.noElements opening closing, rest,
        by simp [Initializer.parse, Parse.mark?, hopening, hclosing], by simp [parts], trivial⟩
    · obtain ⟨args, middle, hargs, spans, formed⟩ := Expr.parseArgs_reads last behind
      obtain ⟨closing, rest, hmark, spans', -⟩ := Parse.mark_reads .rightBrace last middle
      refine ⟨.elements opening args closing, rest,
        by simp [Initializer.parse, Parse.mark?, hopening, hclosing, hargs, hmark], ?_, formed⟩
      simp only [parts, spans_append, Delimiter.part, Kind.part, spans_found, spans_nil]
      exact ⟨middle, ⟨_, ⟨_, rfl, rfl⟩, spans⟩, spans'⟩
  · obtain ⟨expr, rest, h, spans, formed⟩ := Expr.parse_reads last ts
    exact ⟨.value expr, rest, by simp [Initializer.parse, Parse.mark?, hopening, h], spans, formed⟩

theorem parse_lexemes (last : Lexeme) (init : Initializer) (rest : List Lexeme)
    (formed : init.Formed) (gapless : Gapless init.parts) (closed : Closed rest) :
    Initializer.parse last (lexemesOf init.parts ++ rest) = (init, rest) := by
  match init with
  | .value expr =>
    obtain ⟨t, behind, h, begins⟩ := expr.exists_head formed gapless rest
    have notBrace := Parse.token?_of_ne (.delimiter .leftBrace) last (lexemesOf expr.parts ++ rest)
      (by
        rw [h]
        intro u same value
        obtain rfl : t = u := by simpa using same
        simp [value, Expr.canBegin] at begins)
    have hexpr := Expr.parse_lexemes last expr rest formed gapless
      (Expr.stops_of_closed closed 0 expr)
    simp only [parts]
    simp [Initializer.parse, Parse.mark?, notBrace, hexpr]
  | .elements opening args (.found closing) =>
    simp only [parts, Delimiter.part, Kind.part, Slot.parts, gapless_append, gapless_found,
      gapless_nil, and_true, true_and] at gapless
    obtain ⟨t, behind, h, begins⟩ := args.exists_head formed gapless
      (⟨.delimiter .rightBrace, closing⟩ :: rest)
    have notEmpty := Parse.token?_of_ne (.delimiter .rightBrace) last
      (lexemesOf args.parts ++ ⟨.delimiter .rightBrace, closing⟩ :: rest)
      (by
        rw [h]
        intro u same value
        obtain rfl : t = u := by simpa using same
        simp [value, Expr.canBegin] at begins)
    have hargs := Expr.parse_args_lexemes last args (⟨.delimiter .rightBrace, closing⟩ :: rest)
      formed gapless (by simp) (by simp)
    simp [parts, Initializer.parse, Parse.mark?, Parse.mark, Parse.token?_of_head,
      Parse.token_of_head, notEmpty, hargs]
  | .elements _ _ (.missing _) => simp [parts] at gapless
  | .noElements opening closing =>
    simp [parts, Initializer.parse, Parse.mark?, Parse.token?_of_head]

end Initializer

namespace Declarator

theorem parse_reads : Parse.Reads Declarator.parse parts Formed := by
  intro last ts
  obtain ⟨name, ts₁, hname, spans₁, -⟩ := Parse.name_reads last ts
  obtain ⟨array, ts₂, harray, spans₂, formed₂⟩ := ArrayPart.parse_reads last ts₁
  rcases Parse.token?_cases (.operator .assign) last ts₂ with ⟨op, behind, rfl, hop⟩ | ⟨-, hop⟩
  · obtain ⟨init, rest, hinit, spans₃, formed₃⟩ := Initializer.parse_reads last behind
    refine ⟨⟨name, array, some (op, init)⟩, rest,
      by simp [Declarator.parse, hname, harray, hop, hinit], ?_, formed₂, by simpa using formed₃⟩
    simp only [parts, optionalParts, Option.map_some, Option.getD_some, spans_append, Kind.part,
      spans_found, spans_nil]
    exact ⟨_, ⟨_, spans₁, spans₂⟩, behind, ⟨_, rfl, rfl⟩, spans₃⟩
  · refine ⟨⟨name, array, none⟩, ts₂, by simp [Declarator.parse, hname, harray, hop], ?_, formed₂,
      by simp⟩
    simp only [parts, optionalParts, Option.map_none, Option.getD_none, spans_append, spans_nil]
    exact ⟨_, ⟨_, spans₁, spans₂⟩, rfl⟩

theorem parse_lexemes (last : Lexeme) (declarator : Declarator) (rest : List Lexeme)
    (formed : declarator.Formed) (gapless : Gapless declarator.parts) (closed : Closed rest) :
    Declarator.parse last (lexemesOf declarator.parts ++ rest) = (declarator, rest) := by
  match declarator with
  | ⟨.missing _, _, _⟩ => simp [parts] at gapless
  | ⟨.found name, array, some (op, init)⟩ =>
    simp only [parts, namePart, Kind.part, Slot.parts, optionalParts, Option.map_some,
      Option.getD_some, gapless_append, gapless_found, gapless_nil, true_and] at gapless
    have harray := ArrayPart.parse_lexemes last array
      (⟨.operator .assign, op⟩ :: (lexemesOf init.parts ++ rest)) formed.1 gapless.1 (by simp)
    have hinit := Initializer.parse_lexemes last init rest (formed.2 _ rfl) gapless.2 closed
    simp [parts, optionalParts, Declarator.parse, Parse.name_of_head, harray, Parse.token?_of_head,
      hinit]
  | ⟨.found name, array, none⟩ =>
    simp only [parts, namePart, Kind.part, Slot.parts, optionalParts, Option.map_none,
      Option.getD_none, gapless_append, gapless_found, gapless_nil, true_and, and_true] at gapless
    have harray := ArrayPart.parse_lexemes last array rest formed.1 gapless
      (by
        intro t ht value
        obtain ⟨mark, other, same⟩ := closed t ht
        simp_all)
    have hop := Parse.token?_of_ne (.operator .assign) last rest
      (by
        intro t ht value
        obtain ⟨mark, -, same⟩ := closed t ht
        simp_all)
    simp [parts, optionalParts, Declarator.parse, Parse.name_of_head, harray, hop]

end Declarator

namespace VarDecl

theorem parseBehind_reads (base : BaseName) (last : Lexeme) (ts : List Lexeme) :
    ∃ (decl : VarDecl) (rest : _), parseBehind base last ts = (decl, rest) ∧ decl.base = base ∧
      Spans last (decl.declarators.parts Declarator.parts ++
        decl.semicolon.parts Delimiter.semicolon.part) ts rest ∧ decl.Formed := by
  obtain ⟨declarators, middle, hdeclarators, spans, formed⟩ :=
    Separated.parse_reads Declarator.parse_reads last ts
  obtain ⟨semicolon, rest, hsemicolon, spans', -⟩ := Parse.mark_reads .semicolon last middle
  refine ⟨⟨base, declarators, semicolon⟩, rest,
    by simp [parseBehind, hdeclarators, hsemicolon], rfl, ?_, formed⟩
  rw [spans_append]
  exact ⟨middle, spans, spans'⟩

theorem parse?_cases (last : Lexeme) (ts : List Lexeme) :
    (∃ decl rest, parse? last ts = (some decl, rest) ∧ Spans last decl.parts ts rest ∧
      decl.Formed ∧ rest.length < ts.length) ∨
    ((∀ t ∈ ts.head?, t.value.beginsType = false) ∧ parse? last ts = (none, ts)) := by
  rcases BaseName.parse?_cases last ts with
      ⟨base, middle, hbase, spans, t, behind, rfl, -, shorter⟩ | ⟨other, hbase⟩
  · obtain ⟨decl, rest, hdecl, rfl, spans', formed⟩ := parseBehind_reads base last middle
    have shorter' := spans'.length_le
    refine .inl ⟨decl, rest, by simp [parse?, hbase, hdecl], ?_, formed,
      by simp only [List.length_cons]; omega⟩
    rw [spans_append] at spans'
    obtain ⟨between, spans₁, spans₂⟩ := spans'
    simp only [parts, spans_append]
    exact ⟨between, ⟨middle, spans, spans₁⟩, spans₂⟩
  · exact .inr ⟨other, by simp [parse?, hbase]⟩

theorem parse?_of_not_begins {last : Lexeme} {ts : List Lexeme}
    (other : ∀ t ∈ ts.head?, t.value.beginsType = false) : parse? last ts = (none, ts) := by
  simp [parse?, BaseName.parse?_of_not_begins other]

theorem parseBehind_lexemes (last : Lexeme) (decl : VarDecl) (rest : List Lexeme)
    (formed : decl.Formed) (gapless : Gapless decl.parts) :
    parseBehind decl.base last (lexemesOf (decl.declarators.parts Declarator.parts) ++
      (lexemesOf (decl.semicolon.parts Delimiter.semicolon.part) ++ rest)) = (decl, rest) := by
  obtain ⟨base, declarators, semicolon⟩ := decl
  simp only [parts, gapless_append] at gapless
  cases semicolon with
  | missing => simp at gapless
  | found semicolon =>
    have hdeclarators := Separated.parse_lexemes Declarator.parse_lexemes last declarators
      (⟨.delimiter .semicolon, semicolon⟩ :: rest) formed gapless.1.2 (by simp) (by simp)
    simp [parseBehind, hdeclarators, Parse.mark, Parse.token_of_head]

theorem parse?_lexemes (last : Lexeme) (decl : VarDecl) (rest : List Lexeme)
    (formed : decl.Formed) (gapless : Gapless decl.parts) :
    parse? last (lexemesOf decl.parts ++ rest) = (some decl, rest) := by
  have hdecl := parseBehind_lexemes last decl rest formed gapless
  simp only [parts, gapless_append] at gapless
  have hbase := BaseName.parse?_lexemes last decl.base
    (lexemesOf (decl.declarators.parts Declarator.parts) ++
      (lexemesOf (decl.semicolon.parts Delimiter.semicolon.part) ++ rest)) gapless.1.1
  simp only [parts, lexemesOf_append, List.append_assoc]
  simp only [parse?, Parse.bind_apply, hbase, hdecl, Parse.pure_apply]

theorem exists_head (decl : VarDecl) (rest : List Lexeme) :
    ∃ t behind, lexemesOf decl.parts ++ rest = t :: behind ∧ t.value.beginsType = true := by
  obtain ⟨t, behind, h, begins⟩ := decl.base.exists_head (lexemesOf
    (decl.declarators.parts Declarator.parts ++ decl.semicolon.parts Delimiter.semicolon.part) ++ rest)
  exact ⟨t, behind, by simpa [parts] using h, begins⟩

theorem parseAllWithin_reads (fuel : Nat) :
    Parse.Reads (parseAllWithin fuel) (List.flatMap parts) fun decls => ∀ decl ∈ decls, decl.Formed := by
  induction fuel with
  | zero => exact fun last ts => ⟨[], ts, rfl, by simp⟩
  | succ fuel ih =>
    intro last ts
    rcases parse?_cases last ts with ⟨decl, middle, hdecl, spans, formed, -⟩ | ⟨-, hdecl⟩
    · obtain ⟨decls, rest, hdecls, spans', formed'⟩ := ih last middle
      exact ⟨decl :: decls, rest, by simp [parseAllWithin, hdecl, hdecls],
        by simpa using ⟨middle, spans, spans'⟩, by simpa using ⟨formed, formed'⟩⟩
    · exact ⟨[], ts, by simp [parseAllWithin, hdecl], by simp⟩

theorem parseAll_reads :
    Parse.Reads parseAll (List.flatMap parts) fun decls => ∀ decl ∈ decls, decl.Formed :=
  fun last ts => parseAllWithin_reads (ts.length + 1) last ts

theorem parseAllWithin_lexemes {last : Lexeme} {rest : List Lexeme}
    (other : ∀ t ∈ rest.head?, t.value.beginsType = false) :
    ∀ (decls : List VarDecl) (fuel : Nat), decls.length < fuel → (∀ decl ∈ decls, decl.Formed) →
      Gapless (decls.flatMap parts) →
      parseAllWithin fuel last (lexemesOf (decls.flatMap parts) ++ rest) = (decls, rest) := by
  intro decls
  induction decls with
  | nil =>
    intro fuel enough _ _
    have hdecl : parse? last rest = (none, rest) := parse?_of_not_begins other
    cases fuel with
    | zero => simp at enough
    | succ fuel => simp [parseAllWithin, hdecl]
  | cons decl decls ih =>
    intro fuel enough formed gapless
    simp only [List.flatMap_cons, gapless_append] at gapless
    simp only [List.mem_cons, forall_eq_or_imp] at formed
    cases fuel with
    | zero => simp at enough
    | succ fuel =>
      have hdecl := parse?_lexemes last decl (lexemesOf (decls.flatMap parts) ++ rest) formed.1
        gapless.1
      have hdecls := ih fuel (by simpa using enough) formed.2 gapless.2
      simp [parseAllWithin, hdecl, hdecls]

theorem parseAll_lexemes (last : Lexeme) (decls : List VarDecl) (rest : List Lexeme)
    (formed : ∀ decl ∈ decls, decl.Formed) (gapless : Gapless (decls.flatMap parts))
    (other : ∀ t ∈ rest.head?, t.value.beginsType = false) :
    parseAll last (lexemesOf (decls.flatMap parts) ++ rest) = (decls, rest) := by
  have count : decls.length ≤ (lexemesOf (decls.flatMap parts)).length := by
    clear formed gapless
    induction decls with
    | nil => simp
    | cons decl decls ih =>
      obtain ⟨t, behind, h, -⟩ := decl.exists_head []
      simp only [List.append_nil] at h
      simp only [List.flatMap_cons, lexemesOf_append, List.length_append, List.length_cons, h]
      omega
  rw [parseAll, Parse.bounded]
  exact parseAllWithin_lexemes other decls _ (by simp only [List.length_append]; omega) formed gapless

end VarDecl

end PlainC
