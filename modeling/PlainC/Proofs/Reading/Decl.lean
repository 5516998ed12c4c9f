import PlainC.Decl.Parse
import PlainC.Proofs.Reading.Stmt.Lexemes

set_option autoImplicit false

/-!
Reading top-level declarations, and reading them back. The lexeme behind the first name tells a
function from variables, so what was read as the beginning of a function is read again.
-/

namespace PlainC

/-! ### Parameters and results -/

namespace Param

theorem parse_reads :
    Parse.Reads Param.parse (Slot.parts parts) fun slot => ∀ param, slot = .found param → param.Formed := by
  intro last ts
  rcases BaseName.parse?_cases last ts with ⟨base, ts₁, hbase, spans₁, -⟩ | ⟨-, hbase⟩
  · obtain ⟨name, ts₂, hname, spans₂, -⟩ := Parse.name_reads last ts₁
    obtain ⟨array, rest, harray, spans₃, formed⟩ := ArrayPart.parse_reads last ts₂
    refine ⟨.found ⟨base, name, array⟩, rest, by simp [Param.parse, hbase, hname, harray], ?_, ?_⟩
    · simp only [Slot.parts, parts, spans_append]
      exact ⟨ts₂, ⟨ts₁, spans₁, spans₂⟩, spans₃⟩
    · rintro param ⟨⟩
      exact formed
  · exact ⟨.missing (ts.headD last), ts, by simp [Param.parse, hbase], by simp, by simp⟩

theorem parse_lexemes (last : Lexeme) (slot : Slot Param) (rest : List Lexeme)
    (formed : ∀ param, slot = .found param → param.Formed) (gapless : Gapless (slot.parts parts))
    (closed : Closed rest) :
    Param.parse last (lexemesOf (slot.parts parts) ++ rest) = (slot, rest) := by
  match slot with
  | .missing _ => simp at gapless
  | .found ⟨_, .missing _, _⟩ => simp [parts] at gapless
  | .found ⟨base, .found name, array⟩ =>
    simp only [Slot.parts, parts, namePart, Kind.part, gapless_append, gapless_found, gapless_nil,
      and_true] at gapless
    have hbase := BaseName.parse?_lexemes last base
      (⟨.identifier name.value, name.place⟩ :: (lexemesOf array.parts ++ rest)) gapless.1
    have harray := ArrayPart.parse_lexemes last array rest (formed _ rfl) gapless.2
      (by
        intro t ht value
        obtain ⟨mark, other, same⟩ := closed t ht
        simp_all)
    simp [parts, Param.parse, hbase, Parse.name_of_head, harray]

end Param

namespace ResultType

theorem parse?_cases (last : Lexeme) (ts : List Lexeme) :
    (∃ result rest, parse? last ts = (some result, rest) ∧ Spans last result.parts ts rest ∧
      rest.length < ts.length) ∨
    parse? last ts = (none, ts) := by
  rcases Parse.token?_cases (.keyword .voidKw) last ts with ⟨word, behind, rfl, hvoid⟩ | ⟨-, hvoid⟩
  · exact .inl ⟨.void word, behind, by simp [parse?, Parse.keyword?, hvoid], by simp [parts], by simp⟩
  rcases BaseName.parse?_cases last ts with
      ⟨base, middle, hbase, spans, t, ts', rfl, -, shorter⟩ | ⟨-, hbase⟩
  · rcases Parse.token?_cases (.operator .star) last middle with
        ⟨star, behind, rfl, hstar⟩ | ⟨-, hstar⟩
    · refine .inl ⟨.array base star, behind,
        by simp [parse?, Parse.keyword?, hvoid, hbase, hstar], ?_, ?_⟩
      · simp only [parts, spans_append]
        exact ⟨_, spans, by simp⟩
      · simp only [List.length_cons] at shorter ⊢
        omega
    · exact .inl ⟨.value base, middle, by simp [parse?, Parse.keyword?, hvoid, hbase, hstar],
        spans, Nat.lt_succ_of_le shorter⟩
  · exact .inr (by simp [parse?, Parse.keyword?, hvoid, hbase])

theorem void_of_base (base : BaseName) (last : Lexeme) (rest : List Lexeme) :
    Parse.keyword? .voidKw last (lexemesOf base.parts ++ rest) =
      (none, lexemesOf base.parts ++ rest) := by
  obtain ⟨t, behind, h, begins⟩ := base.exists_head rest
  refine Parse.token?_of_ne _ _ _ ?_
  rw [h]
  intro u same value
  obtain rfl : t = u := by simpa using same
  simp [value, Kind.beginsType] at begins

theorem parse?_lexemes (last : Lexeme) (result : ResultType) (name : Name) (rest : List Lexeme)
    (gapless : Gapless result.parts) :
    parse? last (lexemesOf result.parts ++ ⟨.identifier name.value, name.place⟩ :: rest) =
      (some result, ⟨.identifier name.value, name.place⟩ :: rest) := by
  cases result with
  | void word => simp [parts, parse?, Parse.keyword?_of_head]
  | value base =>
    have hvoid := void_of_base base last (⟨.identifier name.value, name.place⟩ :: rest)
    have hbase := BaseName.parse?_lexemes last base (⟨.identifier name.value, name.place⟩ :: rest)
      gapless
    have hstar := Parse.token?_of_ne (.operator .star) last
      (⟨.identifier name.value, name.place⟩ :: rest) (by simp)
    simp [parts, parse?, hvoid, hbase, hstar]
  | array base star =>
    simp only [parts, gapless_append] at gapless
    have hvoid := void_of_base base last
      (⟨.operator .star, star⟩ :: ⟨.identifier name.value, name.place⟩ :: rest)
    have hbase := BaseName.parse?_lexemes last base
      (⟨.operator .star, star⟩ :: ⟨.identifier name.value, name.place⟩ :: rest) gapless.1
    simp [parts, parse?, hvoid, hbase, Parse.token?_of_head]

end ResultType

namespace Decl

/-! ### Beginnings -/

theorem structHead?_cases (last : Lexeme) (ts : List Lexeme) :
    (∃ (word : Place) (name : Name) (opening : Place) (rest : List Lexeme),
      ts = ⟨.keyword .structKw, word⟩ :: ⟨.identifier name.value, name.place⟩ ::
        ⟨.delimiter .leftBrace, opening⟩ :: rest ∧
      structHead? last ts = (some (word, name, opening), rest)) ∨
    structHead? last ts = (none, ts) := by
  unfold structHead?
  split
  · exact .inl ⟨_, ⟨_, _⟩, _, _, rfl, rfl⟩
  · exact .inr rfl

/-- The beginning of a struct, token by token. -/
theorem structHead?_eq (last : Lexeme) (ts : List Lexeme) :
    structHead? last ts =
      match Parse.keyword? .structKw last ts with
      | (none, _) => (none, ts)
      | (some word, behind) =>
        match Parse.name? last behind with
        | (none, _) => (none, ts)
        | (some name, behind) =>
          match Parse.mark? .leftBrace last behind with
          | (none, _) => (none, ts)
          | (some opening, rest) => (some (word, name, opening), rest) := by
  rcases Parse.token?_cases (.keyword .structKw) last ts with ⟨word, behind, rfl, isWord⟩ | ⟨other, isWord⟩
  · rcases Parse.name?_cases last behind with ⟨name, behind, rfl, isName⟩ | ⟨other, isName⟩
    · rcases Parse.token?_cases (.delimiter .leftBrace) last behind with
          ⟨opening, rest, rfl, isMark⟩ | ⟨other, isMark⟩
      · simp only [Parse.keyword?, Parse.mark?, isWord, isName, isMark]
        rfl
      · simp only [Parse.keyword?, Parse.mark?, isWord, isName, isMark]
        unfold structHead?
        split
        · simp_all
        · rfl
    · simp only [Parse.keyword?, isWord, isName]
      unfold structHead?
      split
      · simp_all
      · rfl
  · simp only [Parse.keyword?, isWord]
    unfold structHead?
    split
    · simp_all
    · rfl

theorem structHead?_of_base {base : BaseName} (gapless : Gapless base.parts) (last : Lexeme)
    (rest : List Lexeme) (other : ∀ t ∈ rest.head?, t.value ≠ .delimiter .leftBrace) :
    structHead? last (lexemesOf base.parts ++ rest) = (none, lexemesOf base.parts ++ rest) := by
  rcases structHead?_cases last (lexemesOf base.parts ++ rest) with
      ⟨word, name, opening, behind, same, -⟩ | none
  · cases base with
    | struct word' slot =>
      cases slot with
      | missing => simp [BaseName.parts] at gapless
      | found name' =>
        simp only [BaseName.parts, Keyword.part, Slot.parts, namePart, Kind.part, List.cons_append,
          List.nil_append, lexemesOf_found, lexemesOf_nil, List.cons.injEq] at same
        obtain ⟨-, -, rfl⟩ := same
        simp at other
    | _ => simp [BaseName.parts] at same
  · exact none

/-- The beginning of a function, or nothing; what is taken then counts. -/
def functionStart? : Parse (Option (ResultType × Name × Place)) := do
  match ← ResultType.parse? with
  | none => return none
  | some result =>
    match ← Parse.name? with
    | none => return none
    | some name =>
      match ← Parse.mark? .leftParen with
      | none => return none
      | some opening => return some (result, name, opening)

theorem functionHead_apply (last : Lexeme) (ts : List Lexeme) :
    functionHead last ts =
      match functionStart? last ts with
      | (some head, rest) => (.ok head, rest)
      | (none, rest) => (.error (ts.length - rest.length), ts) := rfl

theorem functionHead_cases (last : Lexeme) (ts : List Lexeme) :
    (∃ result name opening rest, functionHead last ts = (.ok (result, name, opening), rest) ∧
      Spans last (result.parts ++ namePart name ++ Delimiter.leftParen.part opening) ts rest ∧
      rest.length < ts.length) ∨
    ∃ tried, functionHead last ts = (.error tried, ts) := by
  rcases ResultType.parse?_cases last ts with ⟨result, ts₁, hresult, spans₁, shorter⟩ | hresult
  · rcases Parse.name?_cases last ts₁ with ⟨name, ts₂, rfl, hname⟩ | ⟨-, hname⟩
    · rcases Parse.token?_cases (.delimiter .leftParen) last ts₂ with
          ⟨opening, rest, rfl, hopening⟩ | ⟨-, hopening⟩
      · refine .inl ⟨result, name, opening, rest,
          by simp [functionHead, Parse.mark?, hresult, hname, hopening], ?_, ?_⟩
        · simp only [spans_append]
          exact ⟨⟨.delimiter .leftParen, opening⟩ :: rest, ⟨_, spans₁, by simp⟩, by simp⟩
        · simp only [List.length_cons] at shorter
          omega
      · exact .inr ⟨_, by simp [functionHead, Parse.mark?, hresult, hname, hopening]; rfl⟩
    · exact .inr ⟨_, by simp [functionHead, hresult, hname]; rfl⟩
  · exact .inr ⟨_, by simp [functionHead, hresult]; rfl⟩

/-- Where variables are declared, the beginning of a function is tried up to the lexeme behind the
first name. -/
theorem functionHead_of_vars {base : BaseName} (gapless : Gapless base.parts) (name : Name)
    (last : Lexeme) {rest : List Lexeme}
    (other : ∀ t ∈ rest.head?, t.value ≠ .delimiter .leftParen) :
    functionHead last (lexemesOf base.parts ++ ⟨.identifier name.value, name.place⟩ :: rest) =
      (.error ((lexemesOf base.parts).length + 1),
        lexemesOf base.parts ++ ⟨.identifier name.value, name.place⟩ :: rest) := by
  have hresult := ResultType.parse?_lexemes last (.value base) name rest gapless
  simp only [ResultType.parts] at hresult
  have hparen := Parse.token?_of_ne (.delimiter .leftParen) last rest other
  simp [functionHead, hresult, Parse.name?_of_head, Parse.mark?, hparen]
  omega

theorem functionHead_lexemes {result : ResultType} (gapless : Gapless result.parts) (name : Name)
    (opening : Place) (last : Lexeme) (rest : List Lexeme) :
    functionHead last (lexemesOf result.parts ++ ⟨.identifier name.value, name.place⟩ ::
        ⟨.delimiter .leftParen, opening⟩ :: rest) =
      (.ok (result, name, opening), rest) := by
  have hresult := ResultType.parse?_lexemes last result name
    (⟨.delimiter .leftParen, opening⟩ :: rest) gapless
  simp [functionHead, hresult, Parse.name?_of_head, Parse.mark?, Parse.token?_of_head]

end Decl

/-- A declaration of variables goes on with no parenthesis behind its first name. -/
theorem VarDecl.exists_name {decl : VarDecl} (gapless : Gapless decl.parts) (rest : List Lexeme) :
    ∃ (name : Name) (behind : List Lexeme),
      lexemesOf decl.parts ++ rest =
        lexemesOf decl.base.parts ++ ⟨.identifier name.value, name.place⟩ :: behind ∧
      ∀ t ∈ behind.head?, t.value ≠ .delimiter .leftParen := by
  obtain ⟨base, ⟨⟨slot, array, initializer⟩, items⟩, closed⟩ := decl
  cases slot with
  | missing => simp [parts, Separated.parts, Declarator.parts] at gapless
  | found name =>
    cases closed with
    | missing => simp [parts] at gapless
    | found semicolon =>
      refine ⟨name, lexemesOf (array.parts ++ optionalParts (fun item =>
        (Kind.operator .assign).part item.1 ++ item.2.parts) initializer ++
        Separated.restParts Declarator.parts items) ++ ⟨.delimiter .semicolon, semicolon⟩ :: rest,
        ?_, ?_⟩
      · simp [parts, Separated.parts, Declarator.parts]
      · cases array with
        | unsized | sized => simp [ArrayPart.parts]
        | absent =>
          cases initializer with
          | some => simp [ArrayPart.parts, optionalParts]
          | none => cases items <;> simp [ArrayPart.parts, optionalParts, Separated.restParts]

namespace Decl

/-! ### Whole declarations -/

theorem parseStruct_reads (word : Place) (name : Name) (opening : Place) (last : Lexeme)
    (ts : List Lexeme) :
    ∃ (members : List VarDecl) (closing semicolon : Slot Place) (rest : List Lexeme),
      parseStruct word name opening last ts =
        (.struct word name opening members closing semicolon, rest) ∧
      Spans last (members.flatMap VarDecl.parts ++ closing.parts Delimiter.rightBrace.part ++
        semicolon.parts Delimiter.semicolon.part) ts rest ∧
      ∀ decl ∈ members, decl.Formed := by
  obtain ⟨members, ts₁, hmembers, spans₁, formed⟩ := VarDecl.parseAll_reads last ts
  obtain ⟨closing, ts₂, hclosing, spans₂, -⟩ := Parse.mark_reads .rightBrace last ts₁
  obtain ⟨semicolon, rest, hsemicolon, spans₃, -⟩ := Parse.mark_reads .semicolon last ts₂
  refine ⟨members, closing, semicolon, rest,
    by simp [parseStruct, hmembers, hclosing, hsemicolon], ?_, formed⟩
  simp only [spans_append]
  exact ⟨ts₂, ⟨ts₁, spans₁, spans₂⟩, spans₃⟩

/-- What follows the parameters of a function. -/
def parseBehindParams (result : ResultType) (name : Name) (opening : Place)
    (params : Option (Separated (Slot Param))) : Parse Decl := do
  let closing ← Parse.mark .rightParen
  match ← Block.parse with
  | some block => return .function result name opening params closing (.found block)
  | none => return .function result name opening params closing (← Parse.missing)

section

variable (result : ResultType) (name : Name) (opening : Place) {last : Lexeme} {ts : List Lexeme}

theorem parseFunction_of_seen (seen : (ts.headD last).value = .delimiter .rightParen) :
    parseFunction result name opening last ts =
      parseBehindParams result name opening none last ts := by
  rw [parseFunction, Parse.bind_apply, Parse.sees_apply, decide_eq_true seen]
  rfl

theorem parseFunction_of_not_seen (other : (ts.headD last).value ≠ .delimiter .rightParen) :
    parseFunction result name opening last ts =
      parseBehindParams result name opening (some (Separated.parse Param.parse last ts).1) last
        (Separated.parse Param.parse last ts).2 := by
  rw [parseFunction, Parse.bind_apply, Parse.sees_apply, decide_eq_false other]
  simp only [Bool.false_eq_true, if_false]
  rw [Parse.bind_apply, Parse.map_apply]
  rfl

end

theorem parseBehindParams_reads (result : ResultType) (name : Name) (opening : Place)
    (params : Option (Separated (Slot Param))) (last : Lexeme) (ts : List Lexeme) :
    ∃ (closing : Slot Place) (body : Slot Block) (rest : List Lexeme),
      parseBehindParams result name opening params last ts =
        (.function result name opening params closing body, rest) ∧
      Spans last (closing.parts Delimiter.rightParen.part ++ body.parts Block.parts) ts rest ∧
      ∀ block, body = .found block → block.items.Formed := by
  obtain ⟨closing, ts₁, hclosing, spans₁, -⟩ := Parse.mark_reads .rightParen last ts
  rcases Block.parse?_cases Stmt.parse_reader last ts₁ with
      ⟨block, rest, hblock, spans₂, formed⟩ | ⟨-, hblock⟩
  · refine ⟨closing, .found block, rest,
      by simp [parseBehindParams, Block.parse, hclosing, hblock], ?_, by rintro _ ⟨⟩; exact formed⟩
    simp only [spans_append]
    exact ⟨ts₁, spans₁, spans₂⟩
  · refine ⟨closing, .missing (ts₁.headD last), ts₁,
      by simp [parseBehindParams, Block.parse, hclosing, hblock], ?_, by simp⟩
    simp only [spans_append]
    exact ⟨ts₁, spans₁, by simp⟩

theorem parseFunction_reads (result : ResultType) (name : Name) (opening : Place) (last : Lexeme)
    (ts : List Lexeme) :
    ∃ params closing body rest,
      parseFunction result name opening last ts =
        (.function result name opening params closing body, rest) ∧
      Spans last (optionalParts (Separated.parts (Slot.parts Param.parts)) params ++
        (closing.parts Delimiter.rightParen.part ++ body.parts Block.parts)) ts rest ∧
      (Decl.function result name opening params closing body).Formed := by
  by_cases seen : (ts.headD last).value = .delimiter .rightParen
  · obtain ⟨closing, body, rest, h, spans, formed⟩ :=
      parseBehindParams_reads result name opening none last ts
    refine ⟨none, closing, body, rest, by rw [parseFunction_of_seen _ _ _ seen, h], spans, ?_, formed⟩
    simp
  · obtain ⟨params, ts₁, hparams, spans₁, formed₁⟩ := Separated.parse_reads Param.parse_reads last ts
    obtain ⟨closing, body, rest, h, spans₂, formed₂⟩ :=
      parseBehindParams_reads result name opening (some params) last ts₁
    refine ⟨some params, closing, body, rest,
      by rw [parseFunction_of_not_seen _ _ _ seen, hparams, h], ?_, ?_, formed₂⟩
    · rw [spans_append]
      exact ⟨ts₁, spans₁, spans₂⟩
    · rintro items ⟨⟩ param among
      exact formed₁ _ among param rfl

/-- A declaration takes lexemes, or is missing and takes none. -/
theorem parse_cases (last : Lexeme) (ts : List Lexeme) :
    ∃ decl rest, parse last ts = (decl, rest) ∧ Spans last decl.parts ts rest ∧ decl.Formed ∧
      (rest.length < ts.length ∨ ∃ tried instead, decl = .missing tried instead) := by
  rcases structHead?_cases last ts with ⟨word, name, opening, behind, rfl, hstruct⟩ | hstruct
  · obtain ⟨members, closing, semicolon, rest, h, spans, formed⟩ :=
      parseStruct_reads word name opening last behind
    have shorter := spans.length_le
    refine ⟨.struct word name opening members closing semicolon, rest,
      by simp [parse, hstruct, h], ?_, formed, .inl ?_⟩
    · simp only [spans_append] at spans
      obtain ⟨ts₂, ⟨ts₁, spans₁, spans₂⟩, spans₃⟩ := spans
      simp only [parts, spans_append]
      exact ⟨ts₂, ⟨ts₁, ⟨behind, by simp, spans₁⟩, spans₂⟩, spans₃⟩
    · simp only [List.length_cons]
      omega
  obtain ⟨result, name, opening, behind, hfunction, spans, shorter⟩ | ⟨tried, hfunction⟩ :=
    functionHead_cases last ts
  · obtain ⟨params, closing, body, rest, h, spans', formed⟩ :=
      parseFunction_reads result name opening last behind
    have shorter' := spans'.length_le
    refine ⟨.function result name opening params closing body, rest,
      by simp [parse, hstruct, hfunction, h], ?_, formed, .inl (by omega)⟩
    have whole := spans_append.mpr ⟨behind, spans, spans'⟩
    simpa only [parts, List.append_assoc] using whole
  rcases VarDecl.parse?_cases last ts with ⟨decl, rest, hdecl, spans, formed, shorter⟩ | ⟨-, hdecl⟩
  · refine ⟨.vars tried decl, rest, by simp [parse, hstruct, hfunction, hdecl], spans,
      ⟨formed, ?_⟩, .inl shorter⟩
    intro gapless
    obtain ⟨name, behind, same, other⟩ := VarDecl.exists_name gapless rest
    rw [spans.eq_append, same] at hfunction
    simp only [VarDecl.parts, gapless_append] at gapless
    rw [functionHead_of_vars gapless.1.1 name last other] at hfunction
    simp only [Prod.mk.injEq, Except.error.injEq, and_true] at hfunction
    exact hfunction.symm
  · exact ⟨.missing tried (ts.headD last), ts,
      by simp [parse, hstruct, hfunction, hdecl], by simp [parts], trivial, .inr ⟨_, _, rfl⟩⟩

/-- With enough fuel, declarations are read up to where one is missing. -/
theorem parseAllWithin_reads :
    ∀ (fuel : Nat) (last : Lexeme) (ts : List Lexeme), ts.length < fuel →
      ∃ (decls : List Decl) (rest : List Lexeme), parseAllWithin fuel last ts = (decls, rest) ∧
        Spans last (decls.flatMap parts) ts rest ∧ (∀ decl ∈ decls, decl.Formed) ∧
        (Gapless (decls.flatMap parts) → rest = []) := by
  intro fuel
  induction fuel with
  | zero => exact fun _ _ enough => absurd enough (Nat.not_lt_zero _)
  | succ fuel ih =>
    intro last ts enough
    by_cases ended : ts = []
    · subst ended
      exact ⟨[], [], by simp [parseAllWithin, Parse.atEnd_apply], by simp⟩
    have hend : Parse.atEnd last ts = (false, ts) := by simp [Parse.atEnd_apply, ended]
    obtain ⟨decl, middle, hdecl, spans, formed, progress⟩ := parse_cases last ts
    by_cases isThere : ∀ tried instead, decl ≠ .missing tried instead
    · have shorter : middle.length < ts.length := by
        rcases progress with shorter | ⟨tried, instead, rfl⟩
        · exact shorter
        · exact absurd rfl (isThere tried instead)
      obtain ⟨decls, rest, hdecls, spans', formed', complete⟩ := ih last middle (by omega)
      refine ⟨decl :: decls, rest, ?_, ?_, ?_, ?_⟩
      · cases decl with
        | missing tried instead => exact absurd rfl (isThere tried instead)
        | _ => simp [parseAllWithin, hend, hdecl, hdecls]
      · simp only [List.flatMap_cons, spans_append]
        exact ⟨middle, spans, spans'⟩
      · simpa using ⟨formed, formed'⟩
      · simp only [List.flatMap_cons, gapless_append]
        exact fun gapless => complete gapless.2
    · obtain ⟨tried, instead, rfl⟩ : ∃ tried instead, decl = .missing tried instead := by
        cases decl <;> simp at isThere
        exact ⟨_, _, rfl⟩
      exact ⟨[.missing tried instead], middle, by simp [parseAllWithin, hend, hdecl],
        by simpa using spans, by simpa using formed, by simp [parts]⟩

/-- What is read is well formed, and it is everything if no gap is in it. -/
theorem parseAll_reads (last : Lexeme) (ts : List Lexeme) :
    ∃ (decls : List Decl) (rest : List Lexeme), parseAll last ts = (decls, rest) ∧
      Spans last (decls.flatMap parts) ts rest ∧ (∀ decl ∈ decls, decl.Formed) ∧
      (Gapless (decls.flatMap parts) → rest = []) :=
  parseAllWithin_reads (ts.length + 1) last ts (Nat.lt_succ_self _)

/-! ### Reading back -/

theorem parseStruct_lexemes (word : Place) (name : Name) (opening : Place) (members : List VarDecl)
    (closing semicolon : Place) (last : Lexeme) (rest : List Lexeme)
    (formed : ∀ decl ∈ members, decl.Formed) (gapless : Gapless (members.flatMap VarDecl.parts)) :
    parseStruct word name opening last (lexemesOf (members.flatMap VarDecl.parts) ++
        ⟨.delimiter .rightBrace, closing⟩ :: ⟨.delimiter .semicolon, semicolon⟩ :: rest) =
      (.struct word name opening members (.found closing) (.found semicolon), rest) := by
  have hmembers := VarDecl.parseAll_lexemes last members (⟨.delimiter .rightBrace, closing⟩ ::
    ⟨.delimiter .semicolon, semicolon⟩ :: rest) formed gapless (by simp [Kind.beginsType])
  simp [parseStruct, hmembers, Parse.mark_of_head]

theorem parseBehindParams_lexemes (result : ResultType) (name : Name) (opening : Place)
    (params : Option (Separated (Slot Param))) (closing : Place) (block : Block) (last : Lexeme)
    (rest : List Lexeme) (formed : block.items.Formed) (gapless : Gapless block.parts) :
    parseBehindParams result name opening params last
        (⟨.delimiter .rightParen, closing⟩ :: (lexemesOf block.parts ++ rest)) =
      (.function result name opening params (.found closing) (.found block), rest) := by
  have hblock := Block.parse_lexemes last block rest formed gapless
  simp [parseBehindParams, Parse.mark_of_head, hblock]

/-- The first of some parameters begins with a base type. -/
theorem params_head_ne {items : Separated (Slot Param)}
    (gapless : Gapless (items.parts (Slot.parts Param.parts))) (last : Lexeme)
    (rest : List Lexeme) :
    ((lexemesOf (items.parts (Slot.parts Param.parts)) ++ rest).headD last).value ≠
      .delimiter .rightParen := by
  match items with
  | ⟨.missing _, _⟩ => simp [Separated.parts] at gapless
  | ⟨.found param, items⟩ =>
    obtain ⟨t, behind, h, begins⟩ := param.base.exists_head (lexemesOf (param.name.parts namePart ++
      param.array.parts ++ Separated.restParts (Slot.parts Param.parts) items) ++ rest)
    have front : lexemesOf (Separated.parts (Slot.parts Param.parts) ⟨.found param, items⟩) ++ rest =
        t :: behind := by
      simpa [Separated.parts, Param.parts] using h
    rw [front]
    intro same
    simp only [List.headD_cons] at same
    simp [same, Kind.beginsType] at begins

theorem parseFunction_lexemes (result : ResultType) (name : Name) (opening : Place)
    (params : Option (Separated (Slot Param))) (closing : Place) (block : Block) (last : Lexeme)
    (rest : List Lexeme)
    (formed : (Decl.function result name opening params (.found closing) (.found block)).Formed)
    (gapless : Gapless (optionalParts (Separated.parts (Slot.parts Param.parts)) params))
    (gapless' : Gapless block.parts) :
    parseFunction result name opening last
        (lexemesOf (optionalParts (Separated.parts (Slot.parts Param.parts)) params) ++
          ⟨.delimiter .rightParen, closing⟩ :: (lexemesOf block.parts ++ rest)) =
      (.function result name opening params (.found closing) (.found block), rest) := by
  have hbehind := fun params => parseBehindParams_lexemes result name opening params closing block last
    rest (formed.2 block rfl) gapless'
  cases params with
  | none => rw [parseFunction_of_seen _ _ _ (by simp [optionalParts]), ← hbehind]; rfl
  | some items =>
    have hparams := Separated.parse_lexemes Param.parse_lexemes last items
      (⟨.delimiter .rightParen, closing⟩ :: (lexemesOf block.parts ++ rest))
      (by rintro slot among param rfl; exact formed.1 items rfl param among) gapless (by simp) (by simp)
    simp only [optionalParts, Option.map_some, Option.getD_some] at gapless ⊢
    rw [parseFunction_of_not_seen _ _ _ (params_head_ne gapless last _), hparams, hbehind]

theorem structHead?_of_result {result : ResultType} (gapless : Gapless result.parts) (name : Name)
    (last : Lexeme) (rest : List Lexeme) :
    structHead? last (lexemesOf result.parts ++ ⟨.identifier name.value, name.place⟩ :: rest) =
      (none, lexemesOf result.parts ++ ⟨.identifier name.value, name.place⟩ :: rest) := by
  cases result with
  | void word => simp [ResultType.parts, structHead?]
  | value base => exact structHead?_of_base gapless last _ (by simp)
  | array base star =>
    simp only [ResultType.parts, gapless_append] at gapless
    simpa [ResultType.parts] using structHead?_of_base gapless.1 last
      (⟨.operator .star, star⟩ :: ⟨.identifier name.value, name.place⟩ :: rest) (by simp)

theorem parse_lexemes (last : Lexeme) (decl : Decl) (rest : List Lexeme) (formed : decl.Formed)
    (gapless : Gapless decl.parts) :
    parse last (lexemesOf decl.parts ++ rest) = (decl, rest) := by
  match decl with
  | .struct word name opening members (.found closing) (.found semicolon) =>
    simp only [parts, Slot.parts, Delimiter.part, Keyword.part, namePart, Kind.part, gapless_append,
      gapless_found, gapless_nil, true_and, and_true] at gapless
    have h := parseStruct_lexemes word name opening members closing semicolon last rest formed gapless
    simp [parts, parse, structHead?, h]
  | .struct _ _ _ _ (.missing _) _ | .struct _ _ _ _ (.found _) (.missing _) => simp [parts] at gapless
  | .function result name opening params (.found closing) (.found block) =>
    simp only [parts, Slot.parts, Delimiter.part, namePart, Kind.part, gapless_append, gapless_found,
      gapless_nil, and_true] at gapless
    have hstruct := structHead?_of_result gapless.1.1 name last (⟨.delimiter .leftParen, opening⟩ ::
      (lexemesOf (optionalParts (Separated.parts (Slot.parts Param.parts)) params) ++
        ⟨.delimiter .rightParen, closing⟩ :: (lexemesOf block.parts ++ rest)))
    have hfunction := functionHead_lexemes gapless.1.1 name opening last
      (lexemesOf (optionalParts (Separated.parts (Slot.parts Param.parts)) params) ++
        ⟨.delimiter .rightParen, closing⟩ :: (lexemesOf block.parts ++ rest))
    have h := parseFunction_lexemes result name opening params closing block last rest formed
      gapless.1.2 gapless.2
    simp [parts, parse, hstruct, hfunction, h]
  | .function _ _ _ _ (.missing _) _ | .function _ _ _ _ (.found _) (.missing _) =>
    simp [parts] at gapless
  | .vars tried decl =>
    obtain ⟨name, behind, same, other⟩ := VarDecl.exists_name gapless rest
    have hdecl := VarDecl.parse?_lexemes last decl rest formed.1 gapless
    have htried := formed.2 gapless
    simp only [parts] at gapless ⊢
    rw [same] at hdecl ⊢
    simp only [VarDecl.parts, gapless_append] at gapless
    have hstruct := structHead?_of_base gapless.1.1 last
      (⟨.identifier name.value, name.place⟩ :: behind) (by simp)
    have hfunction := functionHead_of_vars gapless.1.1 name last other
    simp [parse, hstruct, hfunction, hdecl, htried]
  | .missing _ _ => simp [parts] at gapless

theorem exists_head {decl : Decl} (gapless : Gapless decl.parts) :
    ∃ t behind, lexemesOf decl.parts = t :: behind := by
  cases decl with
  | struct => exact ⟨_, _, rfl⟩
  | function result =>
    cases result with
    | void => exact ⟨_, _, rfl⟩
    | value base | array base =>
      obtain ⟨t, behind, h, -⟩ := base.exists_head []
      rw [List.append_nil] at h
      simp [parts, ResultType.parts, h]
  | vars _ decl =>
    obtain ⟨t, behind, h, -⟩ := decl.exists_head []
    exact ⟨t, behind, by simpa [parts] using h⟩
  | missing => simp [parts] at gapless

theorem parseAllWithin_succ (fuel : Nat) (last : Lexeme) (ts : List Lexeme) :
    parseAllWithin (fuel + 1) last ts =
      if ts.isEmpty then ([], ts)
      else match parse last ts with
        | (.missing tried instead, rest) => ([.missing tried instead], rest)
        | (decl, rest) =>
          (decl :: (parseAllWithin fuel last rest).1, (parseAllWithin fuel last rest).2) := by
  rw [parseAllWithin, Parse.bind_apply, Parse.atEnd_apply]
  split
  · rfl
  · rw [Parse.bind_apply]
    obtain ⟨decl, rest⟩ := parse last ts
    cases decl <;> rfl

/-- With fuel for each lexeme, more of it makes no difference. -/
theorem parseAllWithin_of_enough (last : Lexeme) {fuel fuel' : Nat} {ts : List Lexeme}
    (enough : ts.length < fuel) (enough' : ts.length < fuel') :
    parseAllWithin fuel last ts = parseAllWithin fuel' last ts := by
  induction fuel generalizing fuel' ts with
  | zero => exact absurd enough (Nat.not_lt_zero _)
  | succ fuel ih =>
    obtain _ | fuel' := fuel'
    · exact absurd enough' (Nat.not_lt_zero _)
    rw [parseAllWithin_succ, parseAllWithin_succ]
    obtain ⟨decl, rest, read, -, -, shorter | ⟨tried, instead, rfl⟩⟩ := parse_cases last ts
    · have others : parseAllWithin fuel last rest = parseAllWithin fuel' last rest :=
        ih (by omega) (by omega)
      rw [read]
      cases decl <;> simp only [others]
    · rw [read]

theorem parseAll_of_read {last : Lexeme} {ts rest : List Lexeme} {decl : Decl}
    (read : parse last ts = (decl, rest)) (gapless : Gapless decl.parts)
    (shorter : rest.length < ts.length) :
    parseAll last ts = (decl :: (parseAll last rest).1, (parseAll last rest).2) := by
  have nonempty : ts.isEmpty = false := by
    cases ts with
    | nil => exact absurd shorter (Nat.not_lt_zero _)
    | cons => rfl
  have others : parseAllWithin ts.length last rest = parseAll last rest :=
    parseAllWithin_of_enough last shorter (Nat.lt_succ_self _)
  rw [← others, parseAll, Parse.bounded, parseAllWithin_succ, nonempty, read]
  cases decl with
  | missing => simp [parts] at gapless
  | struct | function | vars => rfl

/-- Behind well-formed declarations, reading goes on as if nothing stood in front. -/
theorem parseAll_append (last : Lexeme) {decls : List Decl} (formed : ∀ decl ∈ decls, decl.Formed)
    (gapless : Gapless (decls.flatMap parts)) (rest : List Lexeme) :
    parseAll last (lexemesOf (decls.flatMap parts) ++ rest) =
      (decls ++ (parseAll last rest).1, (parseAll last rest).2) := by
  induction decls with
  | nil => rfl
  | cons decl decls ih =>
    simp only [List.flatMap_cons, gapless_append] at gapless
    simp only [List.mem_cons, forall_eq_or_imp] at formed
    obtain ⟨t, own, head⟩ := exists_head gapless.1
    have read := parse_lexemes last decl (lexemesOf (decls.flatMap parts) ++ rest) formed.1 gapless.1
    have shorter : (lexemesOf (decls.flatMap parts) ++ rest).length <
        (lexemesOf decl.parts ++ (lexemesOf (decls.flatMap parts) ++ rest)).length := by
      simp only [head, List.cons_append, List.length_cons, List.length_append]
      omega
    rw [List.flatMap_cons, lexemesOf_append, List.append_assoc,
      parseAll_of_read read gapless.1 shorter, ih formed.2 gapless.2]
    rfl

/-- Well-formed declarations are read back. -/
theorem parseAll_lexemes (last : Lexeme) (decls : List Decl) (formed : ∀ decl ∈ decls, decl.Formed)
    (gapless : Gapless (decls.flatMap parts)) :
    parseAll last (lexemesOf (decls.flatMap parts)) = (decls, []) := by
  simpa [parseAll, Parse.bounded, parseAllWithin_succ] using parseAll_append last formed gapless []

end Decl

end PlainC
