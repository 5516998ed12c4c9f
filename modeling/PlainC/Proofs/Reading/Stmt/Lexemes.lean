import PlainC.Proofs.Reading.Stmt.Formed

set_option autoImplicit false

/-!
A well-formed statement is read back. The first word tells statements apart, and only an expression
or a declaration has none.
-/

namespace PlainC

variable {nested : Parse Stmt}

theorem Condition.parse_lexemes (last : Lexeme) (condition : Condition) (rest : List Lexeme)
    (formed : condition.expr.Formed) (gapless : Gapless condition.parts) :
    Condition.parse last (lexemesOf condition.parts ++ rest) = (condition, rest) := by
  match condition with
  | ⟨.found opening, expr, .found closing⟩ =>
    simp only [parts, Slot.parts, Delimiter.part, Kind.part, gapless_append, gapless_found,
      gapless_nil, true_and, and_true] at gapless
    have hexpr := Expr.parse_lexemes last expr (⟨.delimiter .rightParen, closing⟩ :: rest) formed
      gapless (Expr.stops_of_closed (by simp) 0 expr)
    simp only [parts, Slot.parts, Delimiter.part, Kind.part, lexemesOf_append, lexemesOf_found,
      lexemesOf_nil, List.append_assoc, List.cons_append, List.nil_append]
    rw [Condition.parse, Parse.bind_apply, Parse.mark_of_head, Parse.bind_apply, hexpr,
      Parse.bind_apply, Parse.mark_of_head, Parse.pure_apply]
  | ⟨.missing _, _, _⟩ => simp [parts] at gapless
  | ⟨.found _, _, .missing _⟩ => simp [parts] at gapless

theorem Expr.parseUnless_lexemes (mark : Delimiter) (place : Place)
    (ends : Closed [⟨.delimiter mark, place⟩]) (last : Lexeme) (value : Option Expr)
    (rest : List Lexeme) (formed : ∀ expr ∈ value, expr.Formed)
    (gapless : Gapless (optionalParts parts value)) :
    parseUnless mark last (lexemesOf (optionalParts parts value) ++ ⟨.delimiter mark, place⟩ :: rest) =
      (value, ⟨.delimiter mark, place⟩ :: rest) := by
  cases value with
  | none => exact parseUnless_of_seen rfl
  | some expr =>
    have ends' : Closed (⟨.delimiter mark, place⟩ :: rest) := by simpa using ends
    have hexpr := Expr.parse_lexemes last expr (⟨.delimiter mark, place⟩ :: rest) (formed expr rfl)
      gapless (Expr.stops_of_closed ends' 0 expr)
    obtain ⟨t, behind, h, begins⟩ := expr.exists_head (formed expr rfl) gapless
      (⟨.delimiter mark, place⟩ :: rest)
    simp only [optionalParts, Option.map_some, Option.getD_some]
    rw [parseUnless_of_not_seen, hexpr]
    rw [h]
    intro same
    simp only [List.headD_cons] at same
    cases mark <;> simp [same, canBegin] at begins ends

theorem ForHeader.parse_lexemes (last : Lexeme) (header : ForHeader) (rest : List Lexeme)
    (formed : header.Formed) (gapless : Gapless header.parts) :
    ForHeader.parse last (lexemesOf header.parts ++ rest) = (header, rest) := by
  obtain ⟨opening, first, semicolon, condition, semicolon', step, closing, rfl, gapless₁, gapless₂,
    gapless₃⟩ := ForHeader.exists_of_gapless gapless
  obtain ⟨formed₁, formed₂, formed₃⟩ := formed
  have hfirst := Expr.parseUnless_lexemes .semicolon semicolon (by simp) last first
    (lexemesOf (optionalParts Expr.parts condition) ++ ⟨.delimiter .semicolon, semicolon'⟩ ::
      (lexemesOf (optionalParts Expr.parts step) ++ ⟨.delimiter .rightParen, closing⟩ :: rest))
    formed₁ gapless₁
  have hcondition := Expr.parseUnless_lexemes .semicolon semicolon' (by simp) last condition
    (lexemesOf (optionalParts Expr.parts step) ++ ⟨.delimiter .rightParen, closing⟩ :: rest)
    formed₂ gapless₂
  have hstep := Expr.parseUnless_lexemes .rightParen closing (by simp) last step rest
    formed₃ gapless₃
  simp only [parts, Slot.parts, Delimiter.part, Kind.part, lexemesOf_append, lexemesOf_found,
    lexemesOf_nil, List.append_assoc, List.cons_append, List.nil_append]
  rw [ForHeader.parse, Parse.bind_apply, Parse.mark_of_head, Parse.bind_apply, hfirst,
    Parse.bind_apply, Parse.mark_of_head, Parse.bind_apply, hcondition, Parse.bind_apply,
    Parse.mark_of_head, Parse.bind_apply, hstep, Parse.bind_apply, Parse.mark_of_head,
    Parse.pure_apply]

/-- A kind of lexeme that begins a statement, and neither a declaration nor the rest of anything. -/
def Kind.beginsStatement (kind : Kind) : Prop :=
  kind ≠ .keyword .elseKw ∧ kind ≠ .delimiter .rightBrace ∧ kind.beginsType = false

namespace Stmt

theorem beginsStatement_of_canBegin {kind : Kind} (begins : Expr.canBegin kind = true) :
    kind.beginsStatement :=
  ⟨by rintro rfl; simp [Expr.canBegin] at begins, by rintro rfl; simp [Expr.canBegin] at begins,
    Expr.not_beginsType_of_canBegin begins⟩

theorem exists_head (stmt : Stmt) (formed : stmt.Formed) (gapless : Gapless stmt.parts)
    (rest : List Lexeme) :
    ∃ t behind, lexemesOf stmt.parts ++ rest = t :: behind ∧ t.value.beginsStatement := by
  cases stmt with
  | expr expr semicolon =>
    simp only [parts, gapless_append] at gapless
    obtain ⟨t, behind, h, begins⟩ := expr.exists_head formed gapless.1
      (lexemesOf (semicolon.parts Delimiter.semicolon.part) ++ rest)
    exact ⟨t, behind, by simpa [parts] using h, beginsStatement_of_canBegin begins⟩
  | missing instead => simp [parts] at gapless
  | _ => exact ⟨_, _, rfl, by simp [Kind.beginsStatement, Kind.beginsType]⟩

end Stmt

namespace Items

theorem exists_head {items : Items} (closing : Place) (rest : List Lexeme)
    (formed : items.Formed) (gapless : Gapless items.parts) :
    ∃ t behind, lexemesOf items.parts ++ ⟨.delimiter .rightBrace, closing⟩ :: rest = t :: behind ∧
      t.value ≠ .keyword .elseKw := by
  cases items with
  | nil => exact ⟨_, _, rfl, by simp⟩
  | decl varDecl items =>
    obtain ⟨t, behind, h, begins⟩ := varDecl.exists_head
      (lexemesOf items.parts ++ ⟨.delimiter .rightBrace, closing⟩ :: rest)
    refine ⟨t, behind, by simpa [parts] using h, ?_⟩
    intro same
    simp [same, Kind.beginsType] at begins
  | stmt statement items =>
    simp only [parts, gapless_append] at gapless
    obtain ⟨t, behind, h, begins⟩ := statement.exists_head formed.1 gapless.1
      (lexemesOf items.parts ++ ⟨.delimiter .rightBrace, closing⟩ :: rest)
    exact ⟨t, behind, by simpa [parts] using h, begins.1⟩

end Items

/-- Reads back every well-formed statement with less than `n` lexemes from its beginning on. -/
def Stmt.ReadsBack (n : Nat) (parser : Parse Stmt) : Prop :=
  ∀ last (stmt : Stmt) rest, stmt.Formed → Gapless stmt.parts → stmt.Stops rest →
    (lexemesOf stmt.parts ++ rest).length < n →
    parser last (lexemesOf stmt.parts ++ rest) = (stmt, rest)

variable {n : Nat}

/-- The items of a block in front of its end are read back. -/
theorem Items.parseWithin_lexemes (reads : Stmt.ReadsBack n nested) (last : Lexeme) (closing : Place)
    (rest : List Lexeme) (items : Items) (fuel : Nat) (formed : items.Formed)
    (gapless : Gapless items.parts)
    (small : (lexemesOf items.parts ++ ⟨.delimiter .rightBrace, closing⟩ :: rest).length < n)
    (enough : (lexemesOf items.parts).length < fuel) :
    parseWithin nested fuel last (lexemesOf items.parts ++ ⟨.delimiter .rightBrace, closing⟩ :: rest) =
      (items, ⟨.delimiter .rightBrace, closing⟩ :: rest) := by
  match items with
  | .nil => exact parseWithin_of_end (by simp [GoesOn, parts]) fuel
  | .decl varDecl items =>
    simp only [parts, gapless_append] at gapless
    obtain ⟨t, behind, h, begins⟩ := varDecl.exists_head []
    rw [List.append_nil] at h
    rcases fuel with _ | fuel
    · omega
    have hdecl := VarDecl.parse?_lexemes last varDecl
      (lexemesOf items.parts ++ ⟨.delimiter .rightBrace, closing⟩ :: rest) formed.1 gapless.1
    simp only [parts, lexemesOf_append, List.length_append, h, List.length_cons] at small enough
    have hitems := parseWithin_lexemes reads last closing rest items fuel formed.2 gapless.2
      (by simp only [List.length_append, List.length_cons]; omega) (by omega)
    simp only [parts, lexemesOf_append, List.append_assoc]
    refine parseWithin_of_decl ⟨?_, by simp [h]⟩ hdecl hitems
    intro same
    simp only [h, List.cons_append, List.headD_cons] at same
    simp [same, Kind.beginsType] at begins
  | .stmt statement items =>
    simp only [parts, gapless_append] at gapless
    obtain ⟨t, behind, h, -, notBrace, begins⟩ := statement.exists_head formed.1 gapless.1 []
    rw [List.append_nil] at h
    rcases fuel with _ | fuel
    · omega
    obtain ⟨u, _, next, notElse⟩ := items.exists_head closing rest formed.2 gapless.2
    have hstmt := reads last statement
      (lexemesOf items.parts ++ ⟨.delimiter .rightBrace, closing⟩ :: rest) formed.1 gapless.1
      (fun _ => by simpa [next] using notElse) (by simpa [parts] using small)
    have hdecl : VarDecl.parse? last (lexemesOf statement.parts ++
        (lexemesOf items.parts ++ ⟨.delimiter .rightBrace, closing⟩ :: rest)) = (none, _) :=
      VarDecl.parse?_of_not_begins (by simpa [h] using begins)
    simp only [parts, lexemesOf_append, List.length_append, h, List.length_cons] at small enough
    have hitems := parseWithin_lexemes reads last closing rest items fuel formed.2 gapless.2
      (by simp only [List.length_append, List.length_cons]; omega) (by omega)
    simp only [parts, lexemesOf_append, List.append_assoc]
    refine parseWithin_of_stmt ⟨by simpa [h] using notBrace, by simp [h]⟩ hdecl hstmt ?_ hitems
    rintro instead rfl
    simp [Stmt.parts] at gapless

/-- A block is read back; its items are followed by its end. -/
theorem Block.parse?_lexemes (reads : Stmt.ReadsBack n nested) (last : Lexeme) (block : Block)
    (rest : List Lexeme) (formed : block.items.Formed) (gapless : Gapless block.parts)
    (small : (lexemesOf block.parts ++ rest).length ≤ n) :
    parse? nested last (lexemesOf block.parts ++ rest) = (some block, rest) := by
  match block with
  | ⟨_, _, .missing _⟩ => simp [parts] at gapless
  | ⟨opening, items, .found closing⟩ =>
    simp only [parts, Slot.parts, Delimiter.part, Kind.part, gapless_append, gapless_found,
      gapless_nil, true_and, and_true] at gapless
    simp only [parts, Slot.parts, Delimiter.part, Kind.part, lexemesOf_append, lexemesOf_found,
      lexemesOf_nil, List.append_assoc, List.cons_append, List.nil_append, List.length_append,
      List.length_cons] at small ⊢
    have hitems := Items.parseWithin_lexemes reads last closing rest items
      ((lexemesOf items.parts ++ ⟨.delimiter .rightBrace, closing⟩ :: rest).length + 1) formed gapless
      (by simp only [List.length_append, List.length_cons]; omega)
      (by simp only [List.length_append]; omega)
    simp only [parse?, Parse.mark?, Parse.bind_apply, Parse.token?_of_head, Parse.bounded, hitems,
      Parse.mark_of_head, Parse.pure_apply]

namespace Stmt

/-- A statement that begins with a lexeme of the kind is no block. -/
theorem block_of_ne {last : Lexeme} {t : Lexeme} {ts : List Lexeme}
    (other : t.value ≠ .delimiter .leftBrace) :
    Block.parse? nested last (t :: ts) = (none, t :: ts) := by
  simp [Block.parse?, Parse.mark?, Parse.token?_of_ne _ last (t :: ts) (by simpa using other)]

theorem keyword_of_ne {word : Keyword} {last : Lexeme} {t : Lexeme} {ts : List Lexeme}
    (other : t.value ≠ .keyword word) :
    Parse.keyword? word last (t :: ts) = (none, t :: ts) :=
  Parse.token?_of_ne _ last (t :: ts) (by simpa using other)

section

variable {fuel : Nat} {last : Lexeme} {ts rest : List Lexeme} {word : Place}

/-! The first word of a statement decides what is read. -/

theorem parseWithin_if :
    parseWithin (fuel + 1) last (⟨.keyword .ifKw, word⟩ :: ts) =
      parseIf (parseWithin fuel) word last ts := by
  simp [parseWithin, block_of_ne, Parse.keyword?, Parse.token?_of_head]

theorem parseWithin_while :
    parseWithin (fuel + 1) last (⟨.keyword .whileKw, word⟩ :: ts) =
      parseWhile (parseWithin fuel) word last ts := by
  simp [parseWithin, block_of_ne, keyword_of_ne, Parse.keyword?_of_head]

theorem parseWithin_for :
    parseWithin (fuel + 1) last (⟨.keyword .forKw, word⟩ :: ts) =
      parseFor (parseWithin fuel) word last ts := by
  simp [parseWithin, block_of_ne, keyword_of_ne, Parse.keyword?_of_head]

theorem parseWithin_return :
    parseWithin (fuel + 1) last (⟨.keyword .returnKw, word⟩ :: ts) = parseReturn word last ts := by
  simp [parseWithin, block_of_ne, keyword_of_ne, Parse.keyword?_of_head]

theorem parseWithin_expr {t : Lexeme} (begins : Expr.canBegin t.value = true) :
    parseWithin (fuel + 1) last (t :: ts) = parseExpr last (t :: ts) := by
  have other : ∀ kind, Expr.canBegin kind = false → ∀ u ∈ (t :: ts).head?, u.value ≠ kind := by
    rintro kind none u same rfl
    obtain rfl : t = u := by simpa using same
    simp [begins] at none
  have hkeyword (word : Keyword) := Parse.token?_of_ne (.keyword word) last (t :: ts) (other _ rfl)
  have hbrace := Parse.token?_of_ne (.delimiter .leftBrace) last (t :: ts) (other _ rfl)
  have hsemicolon := Parse.token?_of_ne (.delimiter .semicolon) last (t :: ts) (other _ rfl)
  simp [parseWithin, Block.parse?, Parse.mark?, Parse.keyword?, hbrace, hkeyword, hsemicolon]

end

/-! What stands behind the first word of a statement is read back. -/

section

variable (reads : ReadsBack n nested) (last : Lexeme) (word : Place)

include reads

theorem parseIf_lexemes_ifThen (condition : Condition) (body : Stmt) (rest : List Lexeme)
    (formed : condition.expr.Formed) (gapless : Gapless condition.parts)
    (formedBody : body.Formed) (gaplessBody : Gapless body.parts)
    (noElse : ∀ t ∈ rest.head?, t.value ≠ .keyword .elseKw)
    (small : (lexemesOf body.parts ++ rest).length < n) :
    parseIf nested word last (lexemesOf condition.parts ++ (lexemesOf body.parts ++ rest)) =
      (.ifThen word condition body, rest) := by
  have hcondition := Condition.parse_lexemes last condition (lexemesOf body.parts ++ rest)
    formed gapless
  have hbody := reads last body rest formedBody gaplessBody (fun _ => noElse) small
  have helse := Parse.token?_of_ne (.keyword .elseKw) last rest noElse
  simp [parseIf, hcondition, hbody, Parse.keyword?, helse]

/-- The `else` is the one of this `if`, as the body has no open `if` at its end. -/
theorem parseIf_lexemes_ifElse (condition : Condition) (body otherwise : Stmt) (elseWord : Place)
    (rest : List Lexeme) (formed : condition.expr.Formed) (gapless : Gapless condition.parts)
    (formedBody : body.Formed) (gaplessBody : Gapless body.parts) (ended : body.endsOpen = false)
    (formedElse : otherwise.Formed) (gaplessElse : Gapless otherwise.parts)
    (stops : otherwise.Stops rest)
    (small : (lexemesOf body.parts ++
      ⟨.keyword .elseKw, elseWord⟩ :: (lexemesOf otherwise.parts ++ rest)).length < n) :
    parseIf nested word last (lexemesOf condition.parts ++ (lexemesOf body.parts ++
      ⟨.keyword .elseKw, elseWord⟩ :: (lexemesOf otherwise.parts ++ rest))) =
      (.ifElse word condition body elseWord otherwise, rest) := by
  have hcondition := Condition.parse_lexemes last condition (lexemesOf body.parts ++
    ⟨.keyword .elseKw, elseWord⟩ :: (lexemesOf otherwise.parts ++ rest)) formed gapless
  have hbody := reads last body
    (⟨.keyword .elseKw, elseWord⟩ :: (lexemesOf otherwise.parts ++ rest)) formedBody gaplessBody
    (fun isOpen => by simp [ended] at isOpen) small
  have hotherwise := reads last otherwise rest formedElse gaplessElse stops (by
    simp only [List.length_append, List.length_cons] at small ⊢
    omega)
  simp [parseIf, hcondition, hbody, Parse.keyword?_of_head, hotherwise]

theorem parseWhile_lexemes (condition : Condition) (body : Stmt) (rest : List Lexeme)
    (formed : condition.expr.Formed) (gapless : Gapless condition.parts)
    (formedBody : body.Formed) (gaplessBody : Gapless body.parts) (stops : body.Stops rest)
    (small : (lexemesOf body.parts ++ rest).length < n) :
    parseWhile nested word last (lexemesOf condition.parts ++ (lexemesOf body.parts ++ rest)) =
      (.whileLoop word condition body, rest) := by
  have hcondition := Condition.parse_lexemes last condition (lexemesOf body.parts ++ rest)
    formed gapless
  have hbody := reads last body rest formedBody gaplessBody stops small
  simp [parseWhile, hcondition, hbody]

theorem parseFor_lexemes (header : ForHeader) (body : Stmt) (rest : List Lexeme)
    (formed : header.Formed) (gapless : Gapless header.parts)
    (formedBody : body.Formed) (gaplessBody : Gapless body.parts) (stops : body.Stops rest)
    (small : (lexemesOf body.parts ++ rest).length < n) :
    parseFor nested word last (lexemesOf header.parts ++ (lexemesOf body.parts ++ rest)) =
      (.forLoop word header body, rest) := by
  have hheader := ForHeader.parse_lexemes last header (lexemesOf body.parts ++ rest)
    formed gapless
  have hbody := reads last body rest formedBody gaplessBody stops small
  simp [parseFor, hheader, hbody]

omit reads in
theorem parseReturn_lexemes (value : Option Expr) (semicolon : Place) (rest : List Lexeme)
    (formed : ∀ expr ∈ value, expr.Formed)
    (gapless : Gapless (optionalParts Expr.parts value)) :
    parseReturn word last (lexemesOf (optionalParts Expr.parts value) ++
      ⟨.delimiter .semicolon, semicolon⟩ :: rest) =
      (.returnValue word value (.found semicolon), rest) := by
  have hvalue := Expr.parseUnless_lexemes .semicolon semicolon (by simp) last value rest formed
    gapless
  simp [parseReturn, hvalue, Parse.mark_of_head]

end

theorem parseWithin_lexemes_expr {fuel : Nat} (last : Lexeme) (expr : Expr) (semicolon : Place)
    (rest : List Lexeme) (formed : expr.Formed) (gapless : Gapless expr.parts) :
    parseWithin (fuel + 1) last
      (lexemesOf expr.parts ++ ⟨.delimiter .semicolon, semicolon⟩ :: rest) =
      (.expr expr (.found semicolon), rest) := by
  obtain ⟨t, behind, h, begins⟩ := expr.exists_head formed gapless
    (⟨.delimiter .semicolon, semicolon⟩ :: rest)
  have hexpr := Expr.parse_lexemes last expr (⟨.delimiter .semicolon, semicolon⟩ :: rest) formed
    gapless (Expr.stops_of_closed (by simp) 0 expr)
  rw [h] at hexpr ⊢
  rw [parseWithin_expr begins, parseExpr_of_begins (by exact begins), hexpr, Parse.mark_of_head]

theorem parseWithin_readsBack (fuel : Nat) : ReadsBack fuel (parseWithin fuel) := by
  induction fuel with
  | zero => exact fun _ _ _ _ _ _ small => absurd small (Nat.not_lt_zero _)
  | succ fuel ih =>
    intro last stmt rest formed gapless stops small
    cases stmt with
    | block opening items closing =>
      have hblock := Block.parse?_lexemes ih last ⟨opening, items, closing⟩ rest formed gapless
        (Nat.le_of_lt_succ small)
      simp only [Block.parts] at hblock
      rw [parts, parseWithin, Parse.bind_apply, hblock]
      rfl
    | ifThen word condition body =>
      simp only [parts, Keyword.part, Kind.part, gapless_append, gapless_found, gapless_nil,
        true_and] at gapless
      simp only [parts, Keyword.part, Kind.part, lexemesOf_append, lexemesOf_found,
        List.append_assoc, List.cons_append, List.nil_append, List.length_cons] at small ⊢
      rw [List.length_append] at small
      rw [parseWithin_if]
      exact parseIf_lexemes_ifThen ih last word condition body rest formed.1 gapless.1 formed.2
        gapless.2 (stops rfl) (by omega)
    | ifElse word condition body elseWord otherwise =>
      simp only [parts, Keyword.part, Kind.part, gapless_append, gapless_found, gapless_nil,
        true_and, and_true] at gapless
      simp only [parts, Keyword.part, Kind.part, lexemesOf_append, lexemesOf_found,
        List.append_assoc, List.cons_append, List.nil_append, List.length_cons] at small ⊢
      rw [List.length_append] at small
      obtain ⟨formed₁, formed₂, ended, formed₃⟩ := formed
      rw [parseWithin_if]
      exact parseIf_lexemes_ifElse ih last word condition body otherwise elseWord rest formed₁
        gapless.1.1 formed₂ gapless.1.2 ended formed₃ gapless.2 stops (by omega)
    | whileLoop word condition body =>
      simp only [parts, Keyword.part, Kind.part, gapless_append, gapless_found, gapless_nil,
        true_and] at gapless
      simp only [parts, Keyword.part, Kind.part, lexemesOf_append, lexemesOf_found,
        List.append_assoc, List.cons_append, List.nil_append, List.length_cons] at small ⊢
      rw [List.length_append] at small
      rw [parseWithin_while]
      exact parseWhile_lexemes ih last word condition body rest formed.1 gapless.1 formed.2
        gapless.2 stops (by omega)
    | forLoop word header body =>
      simp only [parts, Keyword.part, Kind.part, gapless_append, gapless_found, gapless_nil,
        true_and] at gapless
      simp only [parts, Keyword.part, Kind.part, lexemesOf_append, lexemesOf_found,
        List.append_assoc, List.cons_append, List.nil_append, List.length_cons] at small ⊢
      rw [List.length_append] at small
      rw [parseWithin_for]
      exact parseFor_lexemes ih last word header body rest formed.1 gapless.1 formed.2 gapless.2
        stops (by omega)
    | breakLoop word semicolon =>
      cases semicolon with
      | missing => simp [parts] at gapless
      | found semicolon =>
        simp [parts, parseWithin, block_of_ne, keyword_of_ne, Parse.keyword?_of_head,
          Parse.mark_of_head]
    | returnValue word value semicolon =>
      cases semicolon with
      | missing => simp [parts] at gapless
      | found semicolon =>
        simp only [parts, Keyword.part, Delimiter.part, Slot.parts, Kind.part, gapless_append,
          gapless_found, gapless_nil, true_and, and_true] at gapless
        simp only [parts, Keyword.part, Delimiter.part, Slot.parts, Kind.part, lexemesOf_append,
          lexemesOf_found, lexemesOf_nil, List.append_assoc, List.cons_append, List.nil_append]
        rw [parseWithin_return]
        exact parseReturn_lexemes last word value semicolon rest formed gapless
    | empty semicolon =>
      simp [parts, parseWithin, block_of_ne, keyword_of_ne, Parse.mark?, Parse.token?_of_head]
    | expr expr semicolon =>
      cases semicolon with
      | missing => simp [parts] at gapless
      | found semicolon =>
        simp only [parts, Delimiter.part, Slot.parts, Kind.part, gapless_append,
          gapless_found, gapless_nil, and_true] at gapless
        simp only [parts, Delimiter.part, Slot.parts, Kind.part, lexemesOf_append,
          lexemesOf_found, lexemesOf_nil, List.append_assoc, List.cons_append, List.nil_append]
        exact parseWithin_lexemes_expr last expr semicolon rest formed gapless
    | missing instead => simp [parts] at gapless

theorem parse_lexemes (stmt : Stmt) (last : Lexeme) (rest : List Lexeme) (formed : stmt.Formed)
    (gapless : Gapless stmt.parts) (stops : stmt.Stops rest) :
    Stmt.parse last (lexemesOf stmt.parts ++ rest) = (stmt, rest) :=
  parseWithin_readsBack _ last stmt rest formed gapless stops (Nat.lt_succ_self _)

end Stmt

theorem Block.parse_lexemes (last : Lexeme) (block : Block) (rest : List Lexeme)
    (formed : block.items.Formed) (gapless : Gapless block.parts) :
    Block.parse last (lexemesOf block.parts ++ rest) = (some block, rest) := by
  apply Block.parse?_lexemes (n := (lexemesOf block.parts ++ rest).length)
  · intro last stmt rest formed gapless stops _
    exact stmt.parse_lexemes last rest formed gapless stops
  · exact formed
  · exact gapless
  · exact Nat.le_refl _

end PlainC
