import PlainC.Decl

set_option autoImplicit false

/-!
The parts of a syntax tree: its lexemes from left to right, with the gaps between them where
something required is missing. A tree without gaps is all there, and its lexemes are what was
written.
-/

namespace PlainC

/-- Lexemes, and gaps in front of the lexemes that were met instead. -/
abbrev Parts := List (Slot Lexeme)

/-- The lexemes among parts. -/
def lexemesOf : Parts → List Lexeme
  | [] => []
  | .found lexeme :: parts => lexeme :: lexemesOf parts
  | .missing _ :: parts => lexemesOf parts

/-- What was met at the first gap. -/
def firstGap? : Parts → Option Lexeme
  | [] => none
  | .found _ :: parts => firstGap? parts
  | .missing instead :: _ => some instead

def Gapless (parts : Parts) : Prop := firstGap? parts = none

/-- The parts make up the front of the lexemes `ts`, which `rest` is left of: each lexeme comes next
where it stands among the parts, and each gap tells what comes next at its place. -/
def Spans (last : Lexeme) : Parts → List Lexeme → List Lexeme → Prop
  | [], ts, rest => ts = rest
  | .found lexeme :: parts, ts, rest => ∃ behind, ts = lexeme :: behind ∧ Spans last parts behind rest
  | .missing instead :: parts, ts, rest => instead = ts.headD last ∧ Spans last parts ts rest

section

variable {last t : Lexeme} {ps qs : Parts} {ts rest : List Lexeme}

@[simp] theorem lexemesOf_nil : lexemesOf [] = [] := rfl

@[simp] theorem lexemesOf_found : lexemesOf (.found t :: ps) = t :: lexemesOf ps := rfl

@[simp] theorem lexemesOf_missing : lexemesOf (.missing t :: ps) = lexemesOf ps := rfl

@[simp] theorem lexemesOf_append : lexemesOf (ps ++ qs) = lexemesOf ps ++ lexemesOf qs := by
  induction ps with
  | nil => rfl
  | cons part ps ih => cases part <;> simp [ih]

@[simp] theorem firstGap?_nil : firstGap? [] = none := rfl

@[simp] theorem firstGap?_found : firstGap? (.found t :: ps) = firstGap? ps := rfl

@[simp] theorem firstGap?_missing : firstGap? (.missing t :: ps) = some t := rfl

@[simp] theorem firstGap?_append :
    firstGap? (ps ++ qs) = (firstGap? ps).or (firstGap? qs) := by
  induction ps with
  | nil => rfl
  | cons part ps ih => cases part <;> simp [ih]

@[simp] theorem gapless_nil : Gapless [] := rfl

@[simp] theorem gapless_found : Gapless (.found t :: ps) ↔ Gapless ps := Iff.rfl

@[simp] theorem not_gapless_missing : ¬Gapless (.missing t :: ps) := by simp [Gapless]

@[simp] theorem gapless_append : Gapless (ps ++ qs) ↔ Gapless ps ∧ Gapless qs := by
  simp [Gapless]

@[simp] theorem spans_nil : Spans last [] ts rest ↔ ts = rest := Iff.rfl

@[simp] theorem spans_found :
    Spans last (.found t :: ps) ts rest ↔ ∃ behind, ts = t :: behind ∧ Spans last ps behind rest :=
  Iff.rfl

@[simp] theorem spans_missing :
    Spans last (.missing t :: ps) ts rest ↔ t = ts.headD last ∧ Spans last ps ts rest :=
  Iff.rfl

@[simp] theorem spans_append :
    Spans last (ps ++ qs) ts rest ↔
      ∃ middle, Spans last ps ts middle ∧ Spans last qs middle rest := by
  induction ps generalizing ts with
  | nil => simp
  | cons part ps ih =>
    cases part with
    | found lexeme =>
      simp only [List.cons_append, spans_found, ih]
      constructor
      · rintro ⟨behind, rfl, middle, first, second⟩
        exact ⟨middle, ⟨behind, rfl, first⟩, second⟩
      · rintro ⟨middle, ⟨behind, rfl, first⟩, second⟩
        exact ⟨behind, rfl, middle, first, second⟩
    | missing instead => simp [ih, and_assoc]

/-- The lexemes among the parts are taken from the front. -/
theorem Spans.eq_append (h : Spans last ps ts rest) : ts = lexemesOf ps ++ rest := by
  induction ps generalizing ts with
  | nil => exact h
  | cons part ps ih =>
    cases part with
    | found lexeme =>
      obtain ⟨behind, rfl, h⟩ := h
      simp [ih h]
    | missing instead => exact ih h.2

theorem Spans.length_le (h : Spans last ps ts rest) : rest.length ≤ ts.length := by
  simp [h.eq_append]

end

/-! ### Trees -/

/-- The one part that a token of a kind is. -/
@[simp] def Kind.part (kind : Kind) (place : Place) : Parts := [.found ⟨kind, place⟩]

@[simp] def Delimiter.part (mark : Delimiter) : Place → Parts := (Kind.delimiter mark).part

@[simp] def Keyword.part (word : Keyword) : Place → Parts := (Kind.keyword word).part

@[simp] def operatorPart (op : At Operator) : Parts := (Kind.operator op.value).part op.place

@[simp] def namePart (name : Name) : Parts := (Kind.identifier name.value).part name.place

@[simp] def Slot.parts {α : Type} (view : α → Parts) : Slot α → Parts
  | .found a => view a
  | .missing instead => [.missing instead]

/-- The parts of something that may be absent. -/
def optionalParts {α : Type} (view : α → Parts) (item : Option α) : Parts :=
  (item.map view).getD []

/-- The parts of what follows the first of things with commas between them. -/
def Separated.restParts {α : Type} (view : α → Parts) : List (Place × α) → Parts
  | [] => []
  | (comma, item) :: rest => Delimiter.comma.part comma ++ view item ++ restParts view rest

def Separated.parts {α : Type} (view : α → Parts) (items : Separated α) : Parts :=
  view items.first ++ restParts view items.rest

/-- Commas are no gaps. -/
theorem Separated.firstGap?_parts {α : Type} (view : α → Parts) (items : Separated α) :
    firstGap? (items.parts view) = firstGap? (items.toList.flatMap view) := by
  obtain ⟨first, items⟩ := items
  simp only [Separated.parts, Separated.toList, List.flatMap_cons, firstGap?_append]
  congr 1
  induction items with
  | nil => rfl
  | cons pair items ih => simp [restParts, ih]

theorem gapless_of_mem {α : Type} {view : α → Parts} {items : List α} {a : α}
    (gapless : Gapless (items.flatMap view)) (among : a ∈ items) : Gapless (view a) := by
  induction items with
  | nil => simp at among
  | cons b items ih =>
    simp only [List.flatMap_cons, gapless_append] at gapless
    rcases List.mem_cons.mp among with rfl | among
    · exact gapless.1
    · exact ih gapless.2 among

theorem Separated.gapless_of_mem {α : Type} {view : α → Parts} {items : Separated α} {a : α}
    (gapless : Gapless (items.parts view)) (among : a ∈ items.toList) : Gapless (view a) := by
  refine PlainC.gapless_of_mem ?_ among
  rw [Gapless, ← firstGap?_parts]
  exact gapless

def Size.parts : Size → Parts
  | literal text => (Kind.literal .integer text.value).part text.place
  | signed sign operand => operatorPart sign ++ operand.parts
  | binary op left right => left.parts ++ operatorPart op ++ right.parts
  | paren opening inner closing =>
    Delimiter.leftParen.part opening ++ inner.parts ++ closing.parts Delimiter.rightParen.part
  | missing instead => [.missing instead]

def BaseName.parts : BaseName → Parts
  | int word => Keyword.intKw.part word
  | double word => Keyword.doubleKw.part word
  | char word => Keyword.charKw.part word
  | struct word name => Keyword.structKw.part word ++ name.parts namePart

def ArrayPart.parts : ArrayPart → Parts
  | absent => []
  | unsized opening closing =>
    Delimiter.leftBracket.part opening ++ Delimiter.rightBracket.part closing
  | sized opening size closing =>
    Delimiter.leftBracket.part opening ++ size.parts ++ closing.parts Delimiter.rightBracket.part

def TypeName.parts (name : TypeName) : Parts := name.base.parts ++ name.array.parts

mutual

def Expr.parts : Expr → Parts
  | .literal form text => (Kind.literal form text.value).part text.place
  | .reference name => namePart name
  | .call callee opening args closing =>
    namePart callee ++ Delimiter.leftParen.part opening ++ args.parts ++
      closing.parts Delimiter.rightParen.part
  | .callEmpty callee opening closing =>
    namePart callee ++ Delimiter.leftParen.part opening ++ Delimiter.rightParen.part closing
  | .paren opening inner closing =>
    Delimiter.leftParen.part opening ++ inner.parts ++ closing.parts Delimiter.rightParen.part
  | .element array opening index closing =>
    array.parts ++ Delimiter.leftBracket.part opening ++ index.parts ++
      closing.parts Delimiter.rightBracket.part
  | .member record dot name =>
    record.parts ++ (Kind.operator .dot).part dot ++ name.parts namePart
  | .unary op operand => operatorPart op ++ operand.parts
  | .cast opening target closing operand =>
    Delimiter.leftParen.part opening ++ target.parts ++ closing.parts Delimiter.rightParen.part ++
      operand.parts
  | .binary op left right => left.parts ++ operatorPart op ++ right.parts
  | .assign target op value => target.parts ++ (Kind.operator .assign).part op ++ value.parts
  | .missing instead => [.missing instead]

def Args.parts : Args → Parts
  | .last arg => arg.parts
  | .more arg comma rest => arg.parts ++ Delimiter.comma.part comma ++ rest.parts

end

def Initializer.parts : Initializer → Parts
  | value expr => expr.parts
  | elements opening args closing =>
    Delimiter.leftBrace.part opening ++ args.parts ++ closing.parts Delimiter.rightBrace.part
  | noElements opening closing =>
    Delimiter.leftBrace.part opening ++ Delimiter.rightBrace.part closing

def Declarator.parts (declarator : Declarator) : Parts :=
  declarator.name.parts namePart ++ declarator.array.parts ++
    optionalParts (fun (op, initializer) => (Kind.operator .assign).part op ++ initializer.parts)
      declarator.initializer

def VarDecl.parts (decl : VarDecl) : Parts :=
  decl.base.parts ++ decl.declarators.parts Declarator.parts ++
    decl.semicolon.parts Delimiter.semicolon.part

def Condition.parts (condition : Condition) : Parts :=
  condition.opening.parts Delimiter.leftParen.part ++ condition.expr.parts ++
    condition.closing.parts Delimiter.rightParen.part

def ForHeader.parts (header : ForHeader) : Parts :=
  header.opening.parts Delimiter.leftParen.part ++ optionalParts Expr.parts header.first ++
    header.firstSemicolon.parts Delimiter.semicolon.part ++
    optionalParts Expr.parts header.condition ++
    header.secondSemicolon.parts Delimiter.semicolon.part ++
    optionalParts Expr.parts header.step ++ header.closing.parts Delimiter.rightParen.part

/-- In a header without gaps all marks are there. -/
theorem ForHeader.exists_of_gapless {header : ForHeader} (gapless : Gapless header.parts) :
    ∃ opening first semicolon condition semicolon' step closing,
      header = ⟨.found opening, first, .found semicolon, condition, .found semicolon', step,
        .found closing⟩ ∧
      Gapless (optionalParts Expr.parts first) ∧ Gapless (optionalParts Expr.parts condition) ∧
      Gapless (optionalParts Expr.parts step) := by
  obtain ⟨opening, first, semicolon, condition, semicolon', step, closing⟩ := header
  simp only [parts, gapless_append] at gapless
  cases opening with | missing => simp at gapless | found opening => ?_
  cases semicolon with | missing => simp at gapless | found semicolon => ?_
  cases semicolon' with | missing => simp at gapless | found semicolon' => ?_
  cases closing with | missing => simp at gapless | found closing => ?_
  obtain ⟨⟨⟨⟨⟨⟨-, gapless₁⟩, -⟩, gapless₂⟩, -⟩, gapless₃⟩, -⟩ := gapless
  exact ⟨opening, first, semicolon, condition, semicolon', step, closing, rfl, gapless₁, gapless₂,
    gapless₃⟩

mutual

def Stmt.parts : Stmt → Parts
  | .block opening items closing =>
    Delimiter.leftBrace.part opening ++ items.parts ++ closing.parts Delimiter.rightBrace.part
  | .ifThen word condition body => Keyword.ifKw.part word ++ condition.parts ++ body.parts
  | .ifElse word condition body elseWord otherwise =>
    Keyword.ifKw.part word ++ condition.parts ++ body.parts ++ Keyword.elseKw.part elseWord ++
      otherwise.parts
  | .whileLoop word condition body => Keyword.whileKw.part word ++ condition.parts ++ body.parts
  | .forLoop word header body => Keyword.forKw.part word ++ header.parts ++ body.parts
  | .breakLoop word semicolon =>
    Keyword.breakKw.part word ++ semicolon.parts Delimiter.semicolon.part
  | .returnValue word value semicolon =>
    Keyword.returnKw.part word ++ optionalParts Expr.parts value ++
      semicolon.parts Delimiter.semicolon.part
  | .empty semicolon => Delimiter.semicolon.part semicolon
  | .expr expr semicolon => expr.parts ++ semicolon.parts Delimiter.semicolon.part
  | .missing instead => [.missing instead]

def Items.parts : Items → Parts
  | .nil => []
  | .decl decl rest => decl.parts ++ rest.parts
  | .stmt stmt rest => stmt.parts ++ rest.parts

end

def Block.parts (block : Block) : Parts :=
  Delimiter.leftBrace.part block.opening ++ block.items.parts ++
    block.closing.parts Delimiter.rightBrace.part

def ResultType.parts : ResultType → Parts
  | void word => Keyword.voidKw.part word
  | value base => base.parts
  | array base star => base.parts ++ (Kind.operator .star).part star

def Param.parts (param : Param) : Parts :=
  param.base.parts ++ param.name.parts namePart ++ param.array.parts

def Decl.parts : Decl → Parts
  | struct word name opening members closing semicolon =>
    Keyword.structKw.part word ++ namePart name ++ Delimiter.leftBrace.part opening ++
      members.flatMap VarDecl.parts ++ closing.parts Delimiter.rightBrace.part ++
      semicolon.parts Delimiter.semicolon.part
  | function result name opening params closing body =>
    result.parts ++ namePart name ++ Delimiter.leftParen.part opening ++
      optionalParts (Separated.parts (Slot.parts Param.parts)) params ++
      closing.parts Delimiter.rightParen.part ++
      body.parts Block.parts
  | vars _ decl => decl.parts
  | missing _ instead => [.missing instead]

end PlainC
