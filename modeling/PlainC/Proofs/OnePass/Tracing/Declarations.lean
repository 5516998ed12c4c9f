import PlainC.Proofs.OnePass.Tracing.Statements
import PlainC.Proofs.Reading.Decl

set_option autoImplicit false

/-!
Top-level declarations in one pass, up to the whole of a program: the three ways in which a
declaration is tried come to the one tree that is read.
-/

namespace PlainC

theorem BaseName.start_of_parse? {base : BaseName} {last t : Lexeme} {ts rest : List Lexeme}
    (h : BaseName.parse? last ts = (some base, rest)) (first : ts.head? = some t) :
    base.start = t.place := by
  obtain ⟨base', rest', h', spans, u, behind, rfl, -⟩ | ⟨-, h'⟩ := BaseName.parse?_cases last ts
  · obtain ⟨rfl, rfl⟩ : base' = base ∧ rest' = rest := by simpa [h'] using h
    obtain rfl : u = t := by simpa using first
    cases base' <;> simp only [BaseName.parts, Keyword.part, Kind.part, List.cons_append,
      spans_found, List.cons.injEq] at spans <;> obtain ⟨_, ⟨rfl, -⟩, -⟩ := spans <;> rfl
  · simp [h'] at h

theorem VarDecl.parse?_some_of_base {base : BaseName} {last : Lexeme} {ts rest : List Lexeme}
    (h : BaseName.parse? last ts = (some base, rest)) :
    VarDecl.parse? last ts =
      (some (parseBehind base last rest).1, (parseBehind base last rest).2) ∧
    (parseBehind base last rest).1.base = base := by
  simp [VarDecl.parse?, h, parseBehind]

theorem ResultType.parse?_some_cases {last : Lexeme} {ts rest : List Lexeme} {result : ResultType}
    (h : ResultType.parse? last ts = (some result, rest)) :
    (∃ word, result = .void word ∧ BaseName.parse? last ts = (none, ts)) ∨
    ∃ base rest', BaseName.parse? last ts = (some base, rest') ∧
      (result = .value base ∨ ∃ star, result = .array base star) := by
  rcases Parse.token?_cases (.keyword .voidKw) last ts with ⟨word, behind, rfl, hvoid⟩ | ⟨-, hvoid⟩
  · obtain ⟨rfl, -⟩ : .void word = result ∧ behind = rest := by
      simpa [ResultType.parse?, Parse.keyword?, hvoid] using h
    exact .inl ⟨word, rfl, BaseName.parse?_of_not_begins (by simp [Kind.beginsType])⟩
  · rcases hbase : BaseName.parse? last ts with ⟨_ | base, middle⟩
    · simp [ResultType.parse?, Parse.keyword?, hvoid, hbase] at h
    · refine .inr ⟨base, middle, rfl, ?_⟩
      rcases hstar : Parse.token? (.operator .star) last middle with ⟨_ | star, inside⟩
      · obtain ⟨rfl, -⟩ : .value base = result ∧ inside = rest := by
          simpa [ResultType.parse?, Parse.keyword?, hvoid, hbase, hstar] using h
        exact .inl rfl
      · obtain ⟨rfl, -⟩ : .array base star = result ∧ inside = rest := by
          simpa [ResultType.parse?, Parse.keyword?, hvoid, hbase, hstar] using h
        exact .inr ⟨star, rfl⟩

theorem ResultType.parse?_none {last : Lexeme} {ts rest : List Lexeme}
    (h : ResultType.parse? last ts = (none, rest)) : BaseName.parse? last ts = (none, ts) := by
  obtain ⟨base, rest', hbase, -⟩ | ⟨-, hbase⟩ := BaseName.parse?_cases last ts
  · rcases Parse.token?_cases (.keyword .voidKw) last ts with ⟨word, behind, -, hvoid⟩ | ⟨-, hvoid⟩
    · simp [ResultType.parse?, Parse.keyword?, hvoid] at h
    · rcases hstar : Parse.token? (.operator .star) last rest' with ⟨_ | star, inside⟩ <;>
        simp [ResultType.parse?, Parse.keyword?, hvoid, hbase, hstar] at h
  · exact hbase

namespace Decl

/-- What is noted because a base type is that of a struct. -/
def noteStruct : Decl → Checked Unit
  | function result _ _ _ _ _ => result.noteStruct
  | vars _ decl => decl.base.noteStruct
  | struct .. | missing .. => pure ()

/-- The note that lexemes call for which begin no struct. -/
def noteAt (last : Lexeme) (ts : List Lexeme) : Checked Unit :=
  match (BaseName.parse? last ts).1 with
  | some base => base.noteStruct
  | none => pure ()

theorem noteAt_of_ne {last : Lexeme} {ts : List Lexeme}
    (other : ∀ t ∈ ts.head?, t.value ≠ .keyword .structKw) : noteAt last ts = pure () := by
  obtain ⟨base, rest, hbase, spans, t, behind, rfl, -⟩ | ⟨-, hbase⟩ := BaseName.parse?_cases last ts
  · cases base with
    | struct word name =>
      simp only [BaseName.parts, Keyword.part, Kind.part, List.cons_append, spans_found,
        List.cons.injEq] at spans
      obtain ⟨_, ⟨rfl, -⟩, -⟩ := spans
      simp at other
    | _ => simp [noteAt, hbase, BaseName.noteStruct]
  · simp [noteAt, hbase]

/-- What follows the note of a struct in the check of a declaration. -/
def checkBehindNote (declared : Declared) : Decl → Checked Declared
  | function result name _ params closing body =>
    declared.declareFunction result name ((params.map Separated.toList).getD []) closing body
  | vars tried decl => do
    let _ ← decl.base.resolve declared.table
    noteFunction tried decl.base.start
    let table ← decl.declare .topLevel declared.table
    return { declared with table }
  | decl => decl.check declared

theorem check_eq (declared : Declared) (decl : Decl) :
    decl.check declared = decl.noteStruct >>= fun _ => decl.checkBehindNote declared := by
  cases decl <;> simp [check, noteStruct, checkBehindNote]

end Decl

namespace OnePass

open Analysis

/-! ### Structs -/

theorem trace_member?_some {last : Lexeme} {s : State} {decl : VarDecl} {rest : List Lexeme}
    (hdecl : VarDecl.parse? last s.ahead = (some decl, rest)) :
    (member? last s).trace =
      decl.declare s.region s.table >>= fun table =>
        pure (some (), { s with ahead := rest, table }) := by
  simp [member?, trace_varDeclaration, hdecl]

theorem trace_member?_none {last : Lexeme} {s : State}
    (hdecl : VarDecl.parse? last s.ahead = (none, s.ahead)) :
    (member? last s).trace = pure (none, s) := by
  simp [member?, trace_varDeclaration, hdecl]

theorem trace_membersWithin : ∀ fuel count,
    Declares (fun region table members => members.foldlM (VarDecl.declare region) table)
      (repeating .members member? (fun _ _ => pure ()) fuel count ())
      (VarDecl.parseAllWithin fuel) := by
  intro fuel
  induction fuel with
  | zero => intro count last s; simp [repeating, VarDecl.parseAllWithin]
  | succ fuel ih =>
    intro count last s
    rcases VarDecl.parse?_cases last s.ahead with ⟨decl, rest, hdecl, -⟩ | ⟨-, hdecl⟩
    · have behind := fun table => ih (count + 1) last { s with ahead := rest, table }
      simp [repeating, trace_member?_some hdecl, VarDecl.parseAllWithin, hdecl, behind]
    · rw [trace_repeating_of_none (trace_member?_none hdecl)]
      simp [VarDecl.parseAllWithin, hdecl]

theorem trace_members :
    Declares (fun region table members => members.foldlM (VarDecl.declare region) table) members
      VarDecl.parseAll :=
  fun last s => trace_membersWithin (s.ahead.length + 1) 0 last s

theorem trace_structBody (name : Name) (last : Lexeme) (s : State) :
    (structBody name last s).trace =
      (let members := VarDecl.parseAll last s.ahead
       let closing := Parse.mark .rightBrace last members.2
       let semicolon := Parse.mark .semicolon last closing.2
       (Declared.declareStruct ⟨s.table, s.functions⟩ name members.1 closing.1 semicolon.1)
        >>= fun declared => pure ((), { s with ahead := semicolon.2, table := declared.table,
                                               functions := declared.depth })) := by
  have body := fun table =>
    trace_members last { s with region := .members s.table.size name.value, table }
  cases found : s.table.find? name.value <;>
    simp [structBody, Declared.declareStruct, found, body, Checked.redefined]

/-! ### Functions -/

theorem trace_param (index depth : Nat) :
    Declares (fun _ table slot => Param.declare index depth table slot) (param index depth)
      Param.parse := by
  intro last s
  rcases hbase : BaseName.parse? last s.ahead with ⟨_ | base, behind⟩
  · simp [param, typeBase, Param.parse, hbase, Param.declare, Checked.require]
  · simp [param, typeBase, Param.parse, hbase, Param.declare, Checked.require]

theorem trace_behindParams (outer : State) {result : ResultType} {name : Name} {opening : Place}
    {params : Option (Separated (Slot Param))} {closing : Slot Place} {body : Slot Block}
    {last : Lexeme} {s : State} {rest : List Lexeme}
    (hparse : Decl.parseBehindParams result name opening params last s.ahead =
      (.function result name opening params closing body, rest))
    (ty : Ty) (region : s.region = .body (outer.functions + 1)) (loops : s.loops = 0) :
    (behindParams outer ty name last s).trace =
      (do
        Checked.requireMark .rightParen closing
        let block ← Checked.require (.mark .leftBrace) body
        let table ← block.check ⟨name.value, ty, outer.functions + 1⟩ s.table
        Logged.write (.declaredFunction name.value (outer.functions + 1)
          (table.size - (outer.table.size + 1)))
        return table.truncate (outer.table.size + 1)) >>= fun table =>
      pure ((), { s with ahead := rest, region := outer.region, table }) := by
  rcases hclosing : Parse.mark .rightParen last s.ahead with ⟨closing', inside⟩
  rcases hblock : Block.parse? Stmt.parse last inside with ⟨_ | block, rest'⟩
  · obtain ⟨⟨rfl, rfl⟩, rfl⟩ : (closing' = closing ∧ .missing (rest'.headD last) = body) ∧
        rest' = rest := by
      simpa [Decl.parseBehindParams, Block.parse, hclosing, hblock] using hparse
    have block := trace_compound_none (statement ⟨name.value, ty, outer.functions + 1⟩)
      (s := { s with ahead := inside }) hblock
    simp [behindParams, compoundStatement, hclosing, block, Checked.require]
  · obtain ⟨⟨rfl, rfl⟩, rfl⟩ : (closing' = closing ∧ .found block = body) ∧ rest' = rest := by
      simpa [Decl.parseBehindParams, Block.parse, hclosing, hblock] using hparse
    have block := trace_compound_some (trace_statement ⟨name.value, ty, outer.functions + 1⟩)
      (s := { s with ahead := inside }) region hblock
    simp only [loops] at block
    simp [behindParams, compoundStatement, hclosing, block, Checked.require, Block.check, loops]

theorem trace_functionBody (result : ResultType) (name : Name) (opening : Place) (last : Lexeme)
    (s : State) (loops : s.loops = 0) :
    ∃ params closing body rest,
      Decl.parseFunction result name opening last s.ahead =
        (.function result name opening params closing body, rest) ∧
      (result.resolve s.table >>= fun ty => (functionBody ty name last s).trace) =
        Declared.declareFunction ⟨s.table, s.functions⟩ result name
          ((params.map Separated.toList).getD []) closing body >>= fun declared =>
        pure ((), { s with ahead := rest, table := declared.table, functions := declared.depth }) := by
  by_cases seen : (s.ahead.headD last).value = .delimiter .rightParen
  · obtain ⟨closing, body, rest, hbehind, -⟩ :=
      Decl.parseBehindParams_reads result name opening none last s.ahead
    refine ⟨none, closing, body, rest, by rw [Decl.parseFunction_of_seen _ _ _ seen, hbehind], ?_⟩
    have behind := fun ty table => trace_behindParams s
      (s := { s with region := .body (s.functions + 1), functions := s.functions + 1, table })
      hbehind ty rfl loops
    simp [functionBody, unlessSeen, Parse.sees_apply, seen, behind, Declared.declareFunction,
      -List.headD_eq_head?_getD]
  · rcases hparams : Separated.parse Param.parse last s.ahead with ⟨params, inside⟩
    obtain ⟨closing, body, rest, hbehind, -⟩ :=
      Decl.parseBehindParams_reads result name opening (some params) last inside
    refine ⟨some params, closing, body, rest,
      by rw [Decl.parseFunction_of_not_seen _ _ _ seen, hparams, hbehind], ?_⟩
    have declared := fun table => trace_commas (trace_param s.table.size (s.functions + 1)) last
      { s with region := .body (s.functions + 1), functions := s.functions + 1, table }
    have behind := fun ty table => trace_behindParams s
      (s := { s with ahead := inside, region := .body (s.functions + 1),
                     functions := s.functions + 1, table })
      hbehind ty rfl loops
    simp [functionBody, unlessSeen, Parse.sees_apply, seen, declared, hparams, behind,
      Declared.declareFunction, -List.headD_eq_head?_getD]

theorem trace_resultType_some {last : Lexeme} {s : State} {result : ResultType} {rest : List Lexeme}
    (h : ResultType.parse? last s.ahead = (some result, rest)) :
    (resultType last s).trace =
      result.resolve s.table >>= fun ty => pure (some ty, { s with ahead := rest }) := by
  rcases hvoid : Parse.keyword? .voidKw last s.ahead with ⟨_ | word, behind⟩
  · rcases hbase : BaseName.parse? last behind with ⟨_ | base, middle⟩
    · simp [ResultType.parse?, hvoid, hbase] at h
    · rcases hstar : Parse.token? (.operator .star) last middle with ⟨_ | star, inside⟩
      · obtain ⟨rfl, rfl⟩ : .value base = result ∧ inside = rest := by
          simpa [ResultType.parse?, hvoid, hbase, hstar] using h
        simp [resultType, typeBase, hvoid, hbase, hstar, ResultType.resolve]
      · obtain ⟨rfl, rfl⟩ : .array base star = result ∧ inside = rest := by
          simpa [ResultType.parse?, hvoid, hbase, hstar] using h
        simp [resultType, typeBase, hvoid, hbase, hstar, ResultType.resolve]
  · obtain ⟨rfl, rfl⟩ : .void word = result ∧ behind = rest := by
      simpa [ResultType.parse?, hvoid] using h
    simp [resultType, hvoid, ResultType.resolve]

theorem trace_resultType_none {last : Lexeme} {s : State} {rest : List Lexeme}
    (h : ResultType.parse? last s.ahead = (none, rest)) :
    (resultType last s).trace = pure (none, { s with ahead := rest }) := by
  rcases hvoid : Parse.keyword? .voidKw last s.ahead with ⟨_ | word, behind⟩
  · rcases hbase : BaseName.parse? last behind with ⟨_ | base, middle⟩
    · obtain rfl : middle = rest := by simpa [ResultType.parse?, hvoid, hbase] using h
      simp [resultType, typeBase, hvoid, hbase]
    · rcases hstar : Parse.token? (.operator .star) last middle with ⟨_ | star, inside⟩ <;>
        simp [ResultType.parse?, hvoid, hbase, hstar] at h
  · simp [ResultType.parse?, hvoid] at h

/-- The beginning of a function is there, or some of it was tried and gone back over, or nothing of it
is there. -/
theorem trace_functionDeclaration (last : Lexeme) (s : State) :
    (∃ result middle name opening rest,
      ResultType.parse? last s.ahead = (some result, middle) ∧
      Decl.functionHead last s.ahead = (.ok (result, name, opening), rest) ∧
      (functionDeclaration last s).trace =
        result.resolve s.table >>= fun ty =>
          (functionBody ty name last { s with ahead := rest }).trace >>= fun found =>
            pure (true, found.2)) ∨
    (∃ result middle tried t, ResultType.parse? last s.ahead = (some result, middle) ∧
      Decl.functionHead last s.ahead = (.error tried, s.ahead) ∧ s.ahead.head? = some t ∧ tried ≠ 0 ∧
      (functionDeclaration last s).trace =
        result.resolve s.table >>= fun _ => Checked.backtracked tried t.place >>= fun _ =>
          pure (false, s)) ∨
    (ResultType.parse? last s.ahead = (none, s.ahead) ∧
      Decl.functionHead last s.ahead = (.error 0, s.ahead) ∧
      (functionDeclaration last s).trace = pure (false, s)) := by
  rcases ResultType.parse?_cases last s.ahead with ⟨result, middle, hresult, -, shorter⟩ | hresult
  case inr =>
    refine .inr (.inr ⟨hresult, ?_, ?_⟩)
    · simp [Decl.functionHead, hresult]
    · simp [functionDeclaration, trace_resultType_none hresult]
  obtain ⟨t, ts, first⟩ : ∃ t ts, s.ahead = t :: ts := by
    cases h : s.ahead with
    | nil => simp [h] at shorter
    | cons t ts => exact ⟨t, ts, rfl⟩
  -- of the lexemes that were taken all are given back
  have back := fun (reached : List Lexeme) (le : reached.length ≤ s.ahead.length) =>
    trace_restore last { s with ahead := reached } (s.ahead.length - reached.length) first
      (by simp only; omega)
  rcases Parse.name?_cases last middle with ⟨name, behind, rfl, hname⟩ | ⟨-, hname⟩
  · rcases Parse.token?_cases (.delimiter .leftParen) last behind with
        ⟨opening, rest, rfl, hopen⟩ | ⟨-, hopen⟩
    · refine .inl ⟨result, _, name, opening, rest, hresult, ?_, ?_⟩
      · simp [Decl.functionHead, hresult, hname, Parse.mark?, hopen]
      · simp [functionDeclaration, trace_resultType_some hresult, hname, Parse.mark?, hopen]
    · simp only [List.length_cons] at shorter
      refine .inr (.inl ⟨result, _, s.ahead.length - behind.length, t, hresult, ?_, by simp [first],
        by omega, ?_⟩)
      · simp [Decl.functionHead, hresult, hname, Parse.mark?, hopen]
      · simp [functionDeclaration, trace_resultType_some hresult, hname, Parse.mark?, hopen,
          back behind (by omega)]
  · refine .inr (.inl ⟨result, _, s.ahead.length - middle.length, t, hresult, ?_, by simp [first],
      by omega, ?_⟩)
    · simp [Decl.functionHead, hresult, hname]
    · simp [functionDeclaration, trace_resultType_some hresult, hname, back middle (by omega)]

theorem trace_functionOrVariables (last : Lexeme) (s : State) (region : s.region = .topLevel)
    (loops : s.loops = 0) (noStruct : Decl.structHead? last s.ahead = (none, s.ahead)) :
    (Decl.parse last s.ahead).1.noteStruct = Decl.noteAt last s.ahead ∧
    (functionOrVariables last s).trace =
      (Decl.parse last s.ahead).1.checkBehindNote ⟨s.table, s.functions⟩ >>= fun declared =>
        pure ((), { s with ahead := (Decl.parse last s.ahead).2, table := declared.table,
                           functions := declared.depth }) := by
  obtain ⟨result, middle, name, opening, rest, hresult, hhead, traced⟩ |
    ⟨result, middle, tried, t, hresult, hhead, first, some, traced⟩ | ⟨hresult, hhead, traced⟩ :=
    trace_functionDeclaration last s
  · obtain ⟨params, closing, block, behind, hfunction, body⟩ :=
      trace_functionBody result name opening last { s with ahead := rest } loops
    have hparse : Decl.parse last s.ahead =
        (.function result name opening params closing block, behind) := by
      simp [Decl.parse, noStruct, hhead, hfunction]
    rw [hparse]
    constructor
    · obtain ⟨word, rfl, hbase⟩ | ⟨base, rest', hbase, rfl | ⟨star, rfl⟩⟩ :=
        ResultType.parse?_some_cases hresult <;>
        simp [Decl.noteStruct, Decl.noteAt, hbase, ResultType.noteStruct]
    · have finished := congrArg (· >>= fun found => pure ((), found.2)) body
      simpa [functionOrVariables, traced, Decl.checkBehindNote] using finished
  · obtain ⟨word, rfl, hbase⟩ | ⟨base, rest', hbase, given⟩ := ResultType.parse?_some_cases hresult
    · have hdecl : VarDecl.parse? last s.ahead = (none, s.ahead) := by simp [VarDecl.parse?, hbase]
      have hparse : Decl.parse last s.ahead = (.missing tried t, s.ahead) := by
        simp [Decl.parse, noStruct, hhead, hdecl, first]
      rw [hparse]
      simp [Decl.noteStruct, Decl.noteAt, hbase, functionOrVariables, traced, trace_varDeclaration,
        hdecl, Decl.checkBehindNote, Decl.check, noteFunction, some, first, ResultType.resolve]
    · obtain ⟨hdecl, same⟩ := VarDecl.parse?_some_of_base hbase
      rcases hvars : VarDecl.parseBehind base last rest' with ⟨decl, rest⟩
      rw [hvars] at hdecl same
      simp only at hdecl same
      subst same
      have hparse : Decl.parse last s.ahead = (.vars tried decl, rest) := by
        simp [Decl.parse, noStruct, hhead, hdecl]
      have start := BaseName.start_of_parse? hbase first
      rw [hparse]
      obtain rfl | ⟨star, rfl⟩ := given <;>
        simp [Decl.noteStruct, Decl.noteAt, hbase, functionOrVariables, traced, trace_varDeclaration,
          hdecl, Decl.checkBehindNote, noteFunction, some, start, region, ResultType.resolve]
  · have hbase := ResultType.parse?_none hresult
    have hdecl : VarDecl.parse? last s.ahead = (none, s.ahead) := by simp [VarDecl.parse?, hbase]
    have hparse : Decl.parse last s.ahead = (.missing 0 (s.ahead.headD last), s.ahead) := by
      simp [Decl.parse, noStruct, hhead, hdecl]
    rw [hparse]
    simp [Decl.noteStruct, Decl.noteAt, hbase, functionOrVariables, traced, trace_varDeclaration,
      hdecl, Decl.checkBehindNote, Decl.check, noteFunction]

theorem trace_functionOrVariables_of_unnamed {last : Lexeme} {s : State} {word : Place}
    {instead : Lexeme} {rest : List Lexeme}
    (hbase : BaseName.parse? last s.ahead = (some (.struct word (.missing instead)), rest)) :
    (functionOrVariables last s).trace = Checked.unexpected .structName instead := by
  rcases Parse.token?_cases (.keyword .voidKw) last s.ahead with ⟨word, behind, first, -⟩ | ⟨-, hvoid⟩
  · simp [first, BaseName.parse?, Parse.keyword?, Parse.token?, Parse.accept?] at hbase
  · simp [functionOrVariables, functionDeclaration, resultType, typeBase, Parse.keyword?, hvoid,
      hbase, BaseName.resolve, Checked.require]

/-- A struct is declared; or what begins like one is noted, if it has a name; or it has none. -/
theorem trace_structDeclaration (last : Lexeme) (s : State) :
    (∃ word name opening rest, Decl.structHead? last s.ahead = (some (word, name, opening), rest) ∧
      (structDeclaration last s).trace =
        (structBody name last { s with ahead := rest }).trace >>= fun found =>
          pure (true, found.2)) ∨
    (Decl.structHead? last s.ahead = (none, s.ahead) ∧
      (structDeclaration last s).trace =
        Decl.noteAt last s.ahead >>= fun _ => pure (false, s)) ∨
    ∃ word instead rest,
      Decl.structHead? last s.ahead = (none, s.ahead) ∧
      BaseName.parse? last s.ahead = (some (.struct word (.missing instead)), rest) ∧
      (structDeclaration last s).trace = Checked.unexpected .structName instead := by
  have heads := Decl.structHead?_eq last s.ahead
  rcases Parse.token?_cases (.keyword .structKw) last s.ahead with
      ⟨word, behind, first, hword⟩ | ⟨other, hword⟩
  · have hbase : BaseName.parse? last s.ahead =
        (some (.struct word (Parse.name last behind).1), (Parse.name last behind).2) := by
      simp [first, BaseName.parse?, Parse.keyword?, Parse.token?, Parse.accept?]
    rcases Parse.name?_cases last behind with ⟨name, inside, rfl, hname⟩ | ⟨-, hname⟩
    · rcases Parse.token?_cases (.delimiter .leftBrace) last inside with
          ⟨opening, rest, rfl, hopen⟩ | ⟨-, hopen⟩
      · refine .inl ⟨word, name, opening, rest, ?_, ?_⟩
        · simp [heads, Parse.keyword?, hword, hname, Parse.mark?, hopen]
        · simp [structDeclaration, Parse.keyword?, hword, Parse.name, hname, Checked.require,
            Parse.mark?, hopen]
      · have back := trace_restore last { s with ahead := inside } 2 first
          (by simp [first])
        refine .inr (.inl ⟨?_, ?_⟩)
        · simp [heads, Parse.keyword?, hword, hname, Parse.mark?, hopen]
        · simp [structDeclaration, Parse.keyword?, hword, Parse.name, hname, Checked.require,
            Parse.mark?, hopen, back, Decl.noteAt, hbase, BaseName.noteStruct]
    · refine .inr (.inr ⟨word, behind.headD last, behind, ?_, ?_, ?_⟩)
      · simp [heads, Parse.keyword?, hword, hname]
      · simp [hbase, Parse.name, hname]
      · simp [structDeclaration, Parse.keyword?, hword, Parse.name, hname, Checked.require]
  · refine .inr (.inl ⟨by simp [heads, Parse.keyword?, hword], ?_⟩)
    simp [structDeclaration, Parse.keyword?, hword, Decl.noteAt_of_ne other]

theorem trace_declaration (last : Lexeme) (s : State) (region : s.region = .topLevel)
    (loops : s.loops = 0) :
    (declaration last s).trace =
      (Decl.parse last s.ahead).1.check ⟨s.table, s.functions⟩ >>= fun declared =>
        pure ((), { s with ahead := (Decl.parse last s.ahead).2, table := declared.table,
                           functions := declared.depth }) := by
  obtain ⟨word, name, opening, rest, head, traced⟩ | ⟨noStruct, traced⟩ |
    ⟨word, instead, rest, noStruct, hbase, traced⟩ := trace_structDeclaration last s
  · have body := trace_structBody name last { s with ahead := rest }
    simp [declaration, traced, Decl.parse, head, Decl.parseStruct, body, Decl.check]
  · obtain ⟨noted, behind⟩ := trace_functionOrVariables last s region loops noStruct
    rw [Decl.check_eq, noted]
    simp [declaration, traced, behind]
  · -- the name is missing for a function too
    obtain ⟨noted, behind⟩ := trace_functionOrVariables last s region loops noStruct
    have refused := trace_functionOrVariables_of_unnamed hbase
    rw [Decl.check_eq, noted, bind_assoc, ← behind, refused]
    simp [declaration, traced, Decl.noteAt, hbase, BaseName.noteStruct]

/-! ### Whole programs -/

theorem trace_declarationsWithin :
    ∀ fuel count last s, s.region = .topLevel → s.loops = 0 →
      (repeating .declarations (unlessEnded Parse.atEnd) (fun _ _ => declaration) fuel count () last
          s).trace =
        (Decl.parseAllWithin fuel last s.ahead).1.foldlM Decl.check ⟨s.table, s.functions⟩
          >>= fun declared =>
        pure ((), { s with ahead := (Decl.parseAllWithin fuel last s.ahead).2,
                           table := declared.table, functions := declared.depth }) := by
  intro fuel
  induction fuel with
  | zero => intro count last s _ _; simp [repeating, Decl.parseAllWithin]
  | succ fuel ih =>
    intro count last s region loops
    rw [Decl.parseAllWithin_succ]
    by_cases atEnd : s.ahead.isEmpty
    · have ended : (unlessEnded Parse.atEnd last s).trace = pure (none, s) := by
        simp [Parse.atEnd_apply, atEnd]
      rw [trace_repeating_of_none ended, if_pos atEnd]
      simp
    · have begun : (unlessEnded Parse.atEnd last s).trace = pure (some (), s) := by
        simp [Parse.atEnd_apply, atEnd]
      rw [trace_repeating_of_some begun, if_neg atEnd, trace_declaration last s region loops]
      rcases hdecl : Decl.parse last s.ahead with ⟨decl, rest⟩
      have behind := fun (declared : Declared) => ih (count + 1) last
        { s with ahead := rest, table := declared.table, functions := declared.depth } region loops
      cases decl with
      | missing => simp [Decl.check]
      | _ => simp [behind]

theorem trace_declarations (last : Lexeme) (s : State) (region : s.region = .topLevel)
    (loops : s.loops = 0) :
    (declarations last s).trace =
      (Decl.parseAll last s.ahead).1.foldlM Decl.check ⟨s.table, s.functions⟩ >>= fun declared =>
        pure ((), { s with ahead := (Decl.parseAll last s.ahead).2, table := declared.table,
                           functions := declared.depth }) :=
  trace_declarationsWithin (s.ahead.length + 1) 0 last s region loops

end OnePass

end PlainC
