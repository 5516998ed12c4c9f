import PlainC.Proofs.Reading.VarDecl
import PlainC.Stmt.Parse

set_option autoImplicit false

/-!
What is read as a statement is well formed. An `else` is always taken by the nearest `if`, so no
statement that is still open stands in front of one.
-/

namespace PlainC

theorem Condition.parse_reads :
    Parse.Reads Condition.parse parts fun condition => condition.expr.Formed := by
  intro last ts
  obtain ⟨opening, ts₁, hopening, spans₁, -⟩ := Parse.mark_reads .leftParen last ts
  obtain ⟨expr, ts₂, hexpr, spans₂, formed⟩ := Expr.parse_reads last ts₁
  obtain ⟨closing, rest, hclosing, spans₃, -⟩ := Parse.mark_reads .rightParen last ts₂
  refine ⟨⟨opening, expr, closing⟩, rest, ?_, ?_, formed⟩
  · rw [Condition.parse, Parse.bind_apply, hopening, Parse.bind_apply, hexpr, Parse.bind_apply,
      hclosing, Parse.pure_apply]
  simp only [parts, spans_append]
  exact ⟨ts₂, ⟨ts₁, spans₁, spans₂⟩, spans₃⟩

theorem Expr.parseUnless_of_seen {mark : Delimiter} {last : Lexeme} {ts : List Lexeme}
    (seen : (ts.headD last).value = .delimiter mark) : parseUnless mark last ts = (none, ts) := by
  rw [parseUnless, Parse.bind_apply, Parse.sees_apply, decide_eq_true seen]
  simp only [if_true, Parse.pure_apply]

theorem Expr.parseUnless_of_not_seen {mark : Delimiter} {last : Lexeme} {ts : List Lexeme}
    (other : (ts.headD last).value ≠ .delimiter mark) :
    parseUnless mark last ts = (some (Expr.parse last ts).1, (Expr.parse last ts).2) := by
  rw [parseUnless, Parse.bind_apply, Parse.sees_apply, decide_eq_false other]
  simp only [Bool.false_eq_true, if_false]
  rw [Parse.bind_apply, Parse.pure_apply]

theorem Expr.parseUnless_reads (mark : Delimiter) :
    Parse.Reads (parseUnless mark) (optionalParts parts) fun value => ∀ expr ∈ value, expr.Formed := by
  intro last ts
  by_cases seen : (ts.headD last).value = .delimiter mark
  · exact ⟨none, ts, parseUnless_of_seen seen, by simp [optionalParts], by simp⟩
  · obtain ⟨expr, rest, h, spans, formed⟩ := Expr.parse_reads last ts
    exact ⟨some expr, rest, by rw [parseUnless_of_not_seen seen, h],
      by simpa [optionalParts] using spans, by simpa using formed⟩

theorem ForHeader.parse_reads : Parse.Reads ForHeader.parse parts Formed := by
  intro last ts
  obtain ⟨opening, ts₁, hopening, spans₁, -⟩ := Parse.mark_reads .leftParen last ts
  obtain ⟨first, ts₂, hfirst, spans₂, formed₂⟩ := Expr.parseUnless_reads .semicolon last ts₁
  obtain ⟨semicolon, ts₃, hsemicolon, spans₃, -⟩ := Parse.mark_reads .semicolon last ts₂
  obtain ⟨condition, ts₄, hcondition, spans₄, formed₄⟩ := Expr.parseUnless_reads .semicolon last ts₃
  obtain ⟨semicolon', ts₅, hsemicolon', spans₅, -⟩ := Parse.mark_reads .semicolon last ts₄
  obtain ⟨step, ts₆, hstep, spans₆, formed₆⟩ := Expr.parseUnless_reads .rightParen last ts₅
  obtain ⟨closing, rest, hclosing, spans₇, -⟩ := Parse.mark_reads .rightParen last ts₆
  refine ⟨⟨opening, first, semicolon, condition, semicolon', step, closing⟩, rest,
    by simp [ForHeader.parse, hopening, hfirst, hsemicolon, hcondition, hsemicolon', hstep, hclosing],
    ?_, formed₂, formed₄, formed₆⟩
  simp only [parts, spans_append]
  exact ⟨ts₆, ⟨ts₅, ⟨ts₄, ⟨ts₃, ⟨ts₂, ⟨ts₁, spans₁, spans₂⟩, spans₃⟩, spans₄⟩, spans₅⟩, spans₆⟩, spans₇⟩

/-- An `else` in front of the lexemes does not belong to the statement behind which they stand. -/
def Stmt.Stops (stmt : Stmt) (rest : List Lexeme) : Prop :=
  stmt.endsOpen = true → ∀ t ∈ rest.head?, t.value ≠ .keyword .elseKw

/-- Reads lexemes as statements up to where no `else` belongs to them. -/
def Stmt.Reader (parser : Parse Stmt) : Prop :=
  ∀ last ts, ∃ stmt rest, parser last ts = (stmt, rest) ∧ Spans last stmt.parts ts rest ∧
    stmt.Formed ∧ stmt.Stops rest

variable {nested : Parse Stmt}

namespace Items

/-- The lexemes go on with an item of a block. -/
def GoesOn (last : Lexeme) (ts : List Lexeme) : Prop :=
  (ts.headD last).value ≠ .delimiter .rightBrace ∧ ts ≠ []

theorem parseWithin_of_decl {last : Lexeme} {ts middle rest : List Lexeme} {varDecl : VarDecl}
    {items : Items} {fuel : Nat} (goesOn : GoesOn last ts)
    (hdecl : VarDecl.parse? last ts = (some varDecl, middle))
    (hitems : parseWithin nested fuel last middle = (items, rest)) :
    parseWithin nested (fuel + 1) last ts = (.decl varDecl items, rest) := by
  rw [parseWithin, Parse.bind_apply, Parse.sees_apply, decide_eq_false goesOn.1]
  simp [Parse.atEnd_apply, goesOn.2, hdecl, hitems]

theorem parseWithin_of_stmt {last : Lexeme} {ts middle rest : List Lexeme} {statement : Stmt}
    {items : Items} {fuel : Nat} (goesOn : GoesOn last ts)
    (hdecl : VarDecl.parse? last ts = (none, ts)) (hstmt : nested last ts = (statement, middle))
    (isThere : ∀ instead, statement ≠ .missing instead)
    (hitems : parseWithin nested fuel last middle = (items, rest)) :
    parseWithin nested (fuel + 1) last ts = (.stmt statement items, rest) := by
  rw [parseWithin, Parse.bind_apply, Parse.sees_apply, decide_eq_false goesOn.1]
  cases statement with
  | missing instead => exact absurd rfl (isThere instead)
  | _ => simp [Parse.atEnd_apply, goesOn.2, hdecl, hstmt, hitems]

theorem parseWithin_of_missing {last : Lexeme} {ts middle : List Lexeme} {instead : Lexeme}
    {fuel : Nat} (goesOn : GoesOn last ts) (hdecl : VarDecl.parse? last ts = (none, ts))
    (hstmt : nested last ts = (.missing instead, middle)) :
    parseWithin nested (fuel + 1) last ts = (.stmt (.missing instead) .nil, middle) := by
  rw [parseWithin, Parse.bind_apply, Parse.sees_apply, decide_eq_false goesOn.1]
  simp [Parse.atEnd_apply, goesOn.2, hdecl, hstmt]

theorem parseWithin_of_end {last : Lexeme} {ts : List Lexeme} (ended : ¬GoesOn last ts) (fuel : Nat) :
    parseWithin nested fuel last ts = (.nil, ts) := by
  cases fuel with
  | zero => rfl
  | succ fuel =>
    rw [parseWithin, Parse.bind_apply, Parse.sees_apply]
    by_cases brace : (ts.headD last).value = .delimiter .rightBrace
    · rw [decide_eq_true brace]
      simp
    · obtain rfl : ts = [] := Classical.byContradiction fun some => ended ⟨brace, some⟩
      rw [decide_eq_false brace]
      simp [Parse.atEnd_apply]

theorem parseWithin_reads (reads : Stmt.Reader nested) (fuel : Nat) :
    Parse.Reads (parseWithin nested fuel) parts Formed := by
  induction fuel with
  | zero => exact fun last ts => ⟨.nil, ts, rfl, rfl, trivial⟩
  | succ fuel ih =>
    intro last ts
    by_cases goesOn : GoesOn last ts
    · rcases VarDecl.parse?_cases last ts with
          ⟨varDecl, middle, hdecl, spans, formed, -⟩ | ⟨-, hdecl⟩
      · obtain ⟨items, rest, hitems, spans', formed'⟩ := ih last middle
        refine ⟨.decl varDecl items, rest, parseWithin_of_decl goesOn hdecl hitems, ?_, formed, formed'⟩
        simp only [parts, spans_append]
        exact ⟨middle, spans, spans'⟩
      · obtain ⟨statement, middle, hstmt, spans, formed, -⟩ := reads last ts
        by_cases isThere : ∀ instead, statement ≠ .missing instead
        · obtain ⟨items, rest, hitems, spans', formed'⟩ := ih last middle
          refine ⟨.stmt statement items, rest,
            parseWithin_of_stmt goesOn hdecl hstmt isThere hitems, ?_, formed, formed'⟩
          simp only [parts, spans_append]
          exact ⟨middle, spans, spans'⟩
        · obtain ⟨instead, rfl⟩ : ∃ instead, statement = .missing instead := by
            cases statement <;> simp at isThere
            exact ⟨_, rfl⟩
          exact ⟨.stmt (.missing instead) .nil, middle, parseWithin_of_missing goesOn hdecl hstmt,
            by simpa [parts] using spans, formed, trivial⟩
    · exact ⟨.nil, ts, parseWithin_of_end goesOn _, rfl, trivial⟩

end Items

theorem Block.parse?_cases (reads : Stmt.Reader nested) (last : Lexeme) (ts : List Lexeme) :
    (∃ block rest, parse? nested last ts = (some block, rest) ∧ Spans last block.parts ts rest ∧
      block.items.Formed) ∨
    ((∀ t ∈ ts.head?, t.value ≠ .delimiter .leftBrace) ∧ parse? nested last ts = (none, ts)) := by
  rcases Parse.token?_cases (.delimiter .leftBrace) last ts with
      ⟨opening, behind, rfl, hopening⟩ | ⟨other, hopening⟩
  · obtain ⟨items, middle, hitems, spans, formed⟩ :=
      Items.parseWithin_reads reads (behind.length + 1) last behind
    obtain ⟨closing, rest, hclosing, spans', -⟩ := Parse.mark_reads .rightBrace last middle
    refine .inl ⟨⟨opening, items, closing⟩, rest,
      by simp [parse?, Parse.mark?, Parse.bounded, hopening, hitems, hclosing], ?_, formed⟩
    simp only [parts, spans_append, Delimiter.part, Kind.part, spans_found, spans_nil]
    exact ⟨middle, ⟨_, ⟨_, rfl, rfl⟩, spans⟩, spans'⟩
  · exact .inr ⟨other, by simp [parse?, Parse.mark?, hopening]⟩

namespace Stmt

theorem parseIf_reader (reads : Reader nested) (word : Place) (last : Lexeme) (ts : List Lexeme) :
    ∃ stmt rest, parseIf nested word last ts = (stmt, rest) ∧
      Spans last stmt.parts (⟨.keyword .ifKw, word⟩ :: ts) rest ∧ stmt.Formed ∧ stmt.Stops rest := by
  obtain ⟨condition, ts₁, hcondition, spans₁, formed₁⟩ := Condition.parse_reads last ts
  obtain ⟨body, ts₂, hbody, spans₂, formed₂, stops₂⟩ := reads last ts₁
  rcases Parse.token?_cases (.keyword .elseKw) last ts₂ with
      ⟨elseWord, behind, rfl, helse⟩ | ⟨other, helse⟩
  · obtain ⟨otherwise, rest, hotherwise, spans₃, formed₃, stops₃⟩ := reads last behind
    refine ⟨.ifElse word condition body elseWord otherwise, rest,
      by simp [parseIf, hcondition, hbody, Parse.keyword?, helse, hotherwise], ?_,
      ⟨formed₁, formed₂, ?_, formed₃⟩, stops₃⟩
    · simp only [parts, spans_append, Keyword.part, Kind.part, spans_found, spans_nil]
      exact ⟨behind, ⟨_, ⟨ts₁, ⟨ts, ⟨ts, rfl, rfl⟩, spans₁⟩, spans₂⟩, behind, rfl, rfl⟩, spans₃⟩
    · -- an open body would have taken the `else`
      cases isOpen : body.endsOpen with
      | false => rfl
      | true => exact absurd rfl (stops₂ isOpen _ rfl)
  · refine ⟨.ifThen word condition body, ts₂,
      by simp [parseIf, hcondition, hbody, Parse.keyword?, helse], ?_, ⟨formed₁, formed₂⟩,
      fun _ => other⟩
    simp only [parts, spans_append, Keyword.part, Kind.part, spans_found, spans_nil]
    exact ⟨ts₁, ⟨ts, ⟨ts, rfl, rfl⟩, spans₁⟩, spans₂⟩

theorem parseWhile_reader (reads : Reader nested) (word : Place) (last : Lexeme)
    (ts : List Lexeme) :
    ∃ stmt rest, parseWhile nested word last ts = (stmt, rest) ∧
      Spans last stmt.parts (⟨.keyword .whileKw, word⟩ :: ts) rest ∧ stmt.Formed ∧
      stmt.Stops rest := by
  obtain ⟨condition, ts₁, hcondition, spans₁, formed₁⟩ := Condition.parse_reads last ts
  obtain ⟨body, rest, hbody, spans₂, formed₂, stops⟩ := reads last ts₁
  refine ⟨.whileLoop word condition body, rest, by simp [parseWhile, hcondition, hbody], ?_,
    ⟨formed₁, formed₂⟩, stops⟩
  simp only [parts, spans_append, Keyword.part, Kind.part, spans_found, spans_nil]
  exact ⟨ts₁, ⟨ts, ⟨ts, rfl, rfl⟩, spans₁⟩, spans₂⟩

theorem parseFor_reader (reads : Reader nested) (word : Place) (last : Lexeme) (ts : List Lexeme) :
    ∃ stmt rest, parseFor nested word last ts = (stmt, rest) ∧
      Spans last stmt.parts (⟨.keyword .forKw, word⟩ :: ts) rest ∧ stmt.Formed ∧ stmt.Stops rest := by
  obtain ⟨header, ts₁, hheader, spans₁, formed₁⟩ := ForHeader.parse_reads last ts
  obtain ⟨body, rest, hbody, spans₂, formed₂, stops⟩ := reads last ts₁
  refine ⟨.forLoop word header body, rest, by simp [parseFor, hheader, hbody], ?_,
    ⟨formed₁, formed₂⟩, stops⟩
  simp only [parts, spans_append, Keyword.part, Kind.part, spans_found, spans_nil]
  exact ⟨ts₁, ⟨ts, ⟨ts, rfl, rfl⟩, spans₁⟩, spans₂⟩

theorem parseReturn_reader (word : Place) (last : Lexeme) (ts : List Lexeme) :
    ∃ stmt rest, parseReturn word last ts = (stmt, rest) ∧
      Spans last stmt.parts (⟨.keyword .returnKw, word⟩ :: ts) rest ∧ stmt.Formed ∧
      stmt.Stops rest := by
  obtain ⟨value, ts₁, hvalue, spans₁, formed⟩ := Expr.parseUnless_reads .semicolon last ts
  obtain ⟨semicolon, rest, hsemicolon, spans₂, -⟩ := Parse.mark_reads .semicolon last ts₁
  refine ⟨.returnValue word value semicolon, rest, by simp [parseReturn, hvalue, hsemicolon], ?_,
    formed, by simp [Stops, endsOpen]⟩
  simp only [parts, spans_append, Keyword.part, Kind.part, spans_found, spans_nil]
  exact ⟨ts₁, ⟨ts, ⟨ts, rfl, rfl⟩, spans₁⟩, spans₂⟩

theorem parseExpr_of_begins {last : Lexeme} {ts : List Lexeme}
    (begins : Expr.canBegin (ts.headD last).value = true) :
    parseExpr last ts =
      (.expr (Expr.parse last ts).1 (Parse.mark .semicolon last (Expr.parse last ts).2).1,
        (Parse.mark .semicolon last (Expr.parse last ts).2).2) := by
  rw [parseExpr, Parse.bind_apply, Parse.peek_apply]
  simp only [begins, if_true]
  rw [Parse.bind_apply, Parse.bind_apply, Parse.pure_apply]

theorem parseExpr_reader : Reader parseExpr := by
  intro last ts
  by_cases begins : Expr.canBegin (ts.headD last).value
  · obtain ⟨expr, middle, hexpr, spans, formed⟩ := Expr.parse_reads last ts
    obtain ⟨semicolon, rest, hsemicolon, spans', -⟩ := Parse.mark_reads .semicolon last middle
    refine ⟨.expr expr semicolon, rest, by rw [parseExpr_of_begins begins, hexpr, hsemicolon], ?_,
      formed, by simp [Stops, endsOpen]⟩
    simp only [parts, spans_append]
    exact ⟨middle, spans, spans'⟩
  · refine ⟨.missing (ts.headD last), ts, ?_, by simp [parts], trivial, by simp [Stops, endsOpen]⟩
    simp [parseExpr, begins, -List.headD_eq_head?_getD]

theorem parseWithin_reader (fuel : Nat) : Reader (parseWithin fuel) := by
  induction fuel with
  | zero =>
    exact fun last ts => ⟨.missing (ts.headD last), ts, rfl, by simp [parts], trivial,
      by simp [Stops, endsOpen]⟩
  | succ fuel ih =>
    intro last ts
    rcases Block.parse?_cases ih last ts with ⟨block, rest, hblock, spans, formed⟩ | ⟨-, hblock⟩
    · exact ⟨.block block.opening block.items block.closing, rest, by simp [parseWithin, hblock],
        spans, formed, by simp [Stops, endsOpen]⟩
    rcases Parse.token?_cases (.keyword .ifKw) last ts with ⟨word, behind, rfl, hif⟩ | ⟨-, hif⟩
    · obtain ⟨stmt, rest, h, reading⟩ := parseIf_reader ih word last behind
      exact ⟨stmt, rest, by simp [parseWithin, hblock, Parse.keyword?, hif, h], reading⟩
    rcases Parse.token?_cases (.keyword .whileKw) last ts with
        ⟨word, behind, rfl, hwhile⟩ | ⟨-, hwhile⟩
    · obtain ⟨stmt, rest, h, reading⟩ := parseWhile_reader ih word last behind
      exact ⟨stmt, rest, by simp [parseWithin, hblock, Parse.keyword?, hif, hwhile, h], reading⟩
    rcases Parse.token?_cases (.keyword .forKw) last ts with ⟨word, behind, rfl, hfor⟩ | ⟨-, hfor⟩
    · obtain ⟨stmt, rest, h, reading⟩ := parseFor_reader ih word last behind
      exact ⟨stmt, rest, by simp [parseWithin, hblock, Parse.keyword?, hif, hwhile, hfor, h],
        reading⟩
    rcases Parse.token?_cases (.keyword .breakKw) last ts with
        ⟨word, behind, rfl, hbreak⟩ | ⟨-, hbreak⟩
    · obtain ⟨semicolon, rest, h, spans, -⟩ := Parse.mark_reads .semicolon last behind
      exact ⟨.breakLoop word semicolon, rest,
        by simp [parseWithin, hblock, Parse.keyword?, hif, hwhile, hfor, hbreak, h],
        by simpa [parts] using spans, trivial, by simp [Stops, endsOpen]⟩
    rcases Parse.token?_cases (.keyword .returnKw) last ts with
        ⟨word, behind, rfl, hreturn⟩ | ⟨-, hreturn⟩
    · obtain ⟨stmt, rest, h, reading⟩ := parseReturn_reader word last behind
      exact ⟨stmt, rest,
        by simp [parseWithin, hblock, Parse.keyword?, hif, hwhile, hfor, hbreak, hreturn, h], reading⟩
    rcases Parse.token?_cases (.delimiter .semicolon) last ts with
        ⟨semicolon, behind, rfl, hempty⟩ | ⟨-, hempty⟩
    · exact ⟨.empty semicolon, behind,
        by simp [parseWithin, hblock, Parse.keyword?, Parse.mark?, hif, hwhile, hfor, hbreak, hreturn,
          hempty],
        by simp [parts], trivial, by simp [Stops, endsOpen]⟩
    · obtain ⟨stmt, rest, h, reading⟩ := parseExpr_reader last ts
      exact ⟨stmt, rest,
        by simp [parseWithin, hblock, Parse.keyword?, Parse.mark?, hif, hwhile, hfor, hbreak, hreturn,
          hempty, h], reading⟩

theorem parse_reader : Reader Stmt.parse :=
  fun last ts => parseWithin_reader (ts.length + 1) last ts

end Stmt

end PlainC
