import PlainC.Proofs.Syntax.Formed
import PlainC.SymbolTable.Externals

set_option autoImplicit false

/-!
Relabelings: the same program with other names for what it declares, and at other places. The tree
keeps its form, and its parts are relabeled one by one.
-/

namespace PlainC

/-- A change of the names and places in a program. Different names stay different, and those of the
external functions stay the same. -/
structure Relabeling where
  name : String → String
  place : Place → Place
  /-- The lines that can stand for each other. -/
  lines : Nat → Nat → Prop
  injective : ∀ {first second}, name first = name second → first = second
  external : ∀ symbol ∈ SymbolTable.externals, name symbol.name = symbol.name
  lines_place : ∀ place', lines place'.line (place place').line
  lines_zero : lines 0 0

/-- No external function has its name changed if nothing has. -/
theorem SymbolTable.name_external_id : ∀ symbol ∈ externals, id symbol.name = symbol.name :=
  fun _ _ => rfl

/-- Other names at other places, on the same lines. -/
def Relabeling.onLines (name : String → String) (place : Place → Place)
    (injective : ∀ {first second}, name first = name second → first = second)
    (external : ∀ symbol ∈ SymbolTable.externals, name symbol.name = symbol.name)
    (sameLine : ∀ place', place'.line = (place place').line) : Relabeling where
  name
  place
  lines := Eq
  injective
  external
  lines_place := sameLine
  lines_zero := rfl

/-- The same names at other places, on the same lines. -/
def Relabeling.ofPlaces (place : Place → Place)
    (sameLine : ∀ place', place'.line = (place place').line) : Relabeling :=
  onLines id place id (fun _ _ => rfl) sameLine

/-- Only an identifier has a name of its own. -/
def Kind.relabel (r : Relabeling) : Kind → Kind
  | identifier name => identifier (r.name name)
  | kind => kind

def Lexeme.relabel (r : Relabeling) (lexeme : Lexeme) : Lexeme :=
  ⟨lexeme.value.relabel r, r.place lexeme.place⟩

/-- The name that is declared or used. -/
def Name.rename (r : Relabeling) (name : Name) : Name :=
  ⟨r.name name.value, r.place name.place⟩

/-- The same thing at another place. -/
def At.move {α : Type} (r : Relabeling) (thing : At α) : At α :=
  ⟨thing.value, r.place thing.place⟩

def Slot.relabel {α : Type} (r : Relabeling) (change : α → α) : Slot α → Slot α
  | found value => found (change value)
  | missing instead => missing (Lexeme.relabel r instead)

/-- Each part relabeled. -/
def relabelParts (r : Relabeling) (ps : Parts) : Parts :=
  ps.map (Slot.relabel r (Lexeme.relabel r))

section

variable (r : Relabeling)

/-! ### Trees -/

def Size.relabel : Size → Size
  | literal text => literal (text.move r)
  | signed sign operand => signed (sign.move r) operand.relabel
  | binary op left right => binary (op.move r) left.relabel right.relabel
  | paren opening inner closing =>
    paren (r.place opening) inner.relabel (closing.relabel r r.place)
  | missing instead => missing (Lexeme.relabel r instead)

def BaseName.relabel : BaseName → BaseName
  | int word => int (r.place word)
  | double word => double (r.place word)
  | char word => char (r.place word)
  | struct word name => struct (r.place word) (name.relabel r (Name.rename r))

def ArrayPart.relabel : ArrayPart → ArrayPart
  | absent => absent
  | unsized opening closing => unsized (r.place opening) (r.place closing)
  | sized opening size closing =>
    sized (r.place opening) (size.relabel r) (closing.relabel r r.place)

def TypeName.relabel (name : TypeName) : TypeName :=
  ⟨name.base.relabel r, name.array.relabel r⟩

mutual

def Expr.relabel : Expr → Expr
  | .literal form text => .literal form (text.move r)
  | .reference name => .reference (Name.rename r name)
  | .call callee opening args closing =>
    .call (Name.rename r callee) (r.place opening) args.relabel (closing.relabel r r.place)
  | .callEmpty callee opening closing =>
    .callEmpty (Name.rename r callee) (r.place opening) (r.place closing)
  | .paren opening inner closing =>
    .paren (r.place opening) inner.relabel (closing.relabel r r.place)
  | .element array opening index closing =>
    .element array.relabel (r.place opening) index.relabel (closing.relabel r r.place)
  | .member record dot name =>
    .member record.relabel (r.place dot) (name.relabel r (Name.rename r))
  | .unary op operand => .unary (op.move r) operand.relabel
  | .cast opening target closing operand =>
    .cast (r.place opening) (target.relabel r) (closing.relabel r r.place) operand.relabel
  | .binary op left right => .binary (op.move r) left.relabel right.relabel
  | .assign target op value => .assign target.relabel (r.place op) value.relabel
  | .missing instead => .missing (Lexeme.relabel r instead)

def Args.relabel : Args → Args
  | .last arg => .last arg.relabel
  | .more arg comma rest => .more arg.relabel (r.place comma) rest.relabel

end

def Initializer.relabel : Initializer → Initializer
  | value expr => value (expr.relabel r)
  | elements opening args closing =>
    elements (r.place opening) (args.relabel r) (closing.relabel r r.place)
  | noElements opening closing => noElements (r.place opening) (r.place closing)

def Separated.relabel {α : Type} (change : α → α) (items : Separated α) : Separated α :=
  ⟨change items.first, items.rest.map fun item => (r.place item.1, change item.2)⟩

def Declarator.relabel (declarator : Declarator) : Declarator where
  name := declarator.name.relabel r (Name.rename r)
  array := declarator.array.relabel r
  initializer := declarator.initializer.map fun item => (r.place item.1, item.2.relabel r)

def VarDecl.relabel (decl : VarDecl) : VarDecl where
  base := decl.base.relabel r
  declarators := decl.declarators.relabel r (Declarator.relabel r)
  semicolon := decl.semicolon.relabel r r.place

def Condition.relabel (condition : Condition) : Condition where
  opening := condition.opening.relabel r r.place
  expr := condition.expr.relabel r
  closing := condition.closing.relabel r r.place

def ForHeader.relabel (header : ForHeader) : ForHeader where
  opening := header.opening.relabel r r.place
  first := header.first.map (Expr.relabel r)
  firstSemicolon := header.firstSemicolon.relabel r r.place
  condition := header.condition.map (Expr.relabel r)
  secondSemicolon := header.secondSemicolon.relabel r r.place
  step := header.step.map (Expr.relabel r)
  closing := header.closing.relabel r r.place

mutual

def Stmt.relabel : Stmt → Stmt
  | .block opening items closing =>
    .block (r.place opening) items.relabel (closing.relabel r r.place)
  | .ifThen word condition body => .ifThen (r.place word) (condition.relabel r) body.relabel
  | .ifElse word condition body elseWord otherwise =>
    .ifElse (r.place word) (condition.relabel r) body.relabel (r.place elseWord) otherwise.relabel
  | .whileLoop word condition body => .whileLoop (r.place word) (condition.relabel r) body.relabel
  | .forLoop word header body => .forLoop (r.place word) (header.relabel r) body.relabel
  | .breakLoop word semicolon => .breakLoop (r.place word) (semicolon.relabel r r.place)
  | .returnValue word value semicolon =>
    .returnValue (r.place word) (value.map (Expr.relabel r)) (semicolon.relabel r r.place)
  | .empty semicolon => .empty (r.place semicolon)
  | .expr expr semicolon => .expr (expr.relabel r) (semicolon.relabel r r.place)
  | .missing instead => .missing (Lexeme.relabel r instead)

def Items.relabel : Items → Items
  | .nil => .nil
  | .decl decl rest => .decl (decl.relabel r) rest.relabel
  | .stmt stmt rest => .stmt stmt.relabel rest.relabel

end

def Block.relabel (block : Block) : Block where
  opening := r.place block.opening
  items := block.items.relabel r
  closing := block.closing.relabel r r.place

def ResultType.relabel : ResultType → ResultType
  | void word => void (r.place word)
  | value base => value (base.relabel r)
  | array base star => array (base.relabel r) (r.place star)

def Param.relabel (param : Param) : Param where
  base := param.base.relabel r
  name := param.name.relabel r (Name.rename r)
  array := param.array.relabel r

def Decl.relabel : Decl → Decl
  | struct word name opening members closing semicolon =>
    struct (r.place word) (Name.rename r name) (r.place opening) (members.map (VarDecl.relabel r))
      (closing.relabel r r.place) (semicolon.relabel r r.place)
  | function result name opening params closing body =>
    function (result.relabel r) (Name.rename r name) (r.place opening)
      (params.map (Separated.relabel r (Slot.relabel r (Param.relabel r))))
      (closing.relabel r r.place) (body.relabel r (Block.relabel r))
  | vars tried decl => vars tried (decl.relabel r)
  | missing tried instead => missing tried (Lexeme.relabel r instead)

/-! ### Parts -/

@[simp] theorem relabelParts_nil : relabelParts r [] = [] := rfl

@[simp] theorem relabelParts_found (lexeme : Lexeme) (ps : Parts) :
    relabelParts r (.found lexeme :: ps) = .found (Lexeme.relabel r lexeme) :: relabelParts r ps :=
  rfl

@[simp] theorem relabelParts_missing (lexeme : Lexeme) (ps : Parts) :
    relabelParts r (.missing lexeme :: ps) =
      .missing (Lexeme.relabel r lexeme) :: relabelParts r ps :=
  rfl

@[simp] theorem relabelParts_append (ps qs : Parts) :
    relabelParts r (ps ++ qs) = relabelParts r ps ++ relabelParts r qs :=
  List.map_append

@[simp] theorem lexemesOf_relabelParts (ps : Parts) :
    lexemesOf (relabelParts r ps) = (lexemesOf ps).map (Lexeme.relabel r) := by
  induction ps with
  | nil => rfl
  | cons part ps ih => cases part <;> simp [ih]

@[simp] theorem gapless_relabelParts (ps : Parts) : Gapless (relabelParts r ps) ↔ Gapless ps := by
  induction ps with
  | nil => rfl
  | cons part ps ih => cases part <;> simp [ih]

theorem parts_relabel_slot {α : Type} {view : α → Parts} {change : α → α} {slot : Slot α}
    (same : ∀ a, slot = .found a → view (change a) = relabelParts r (view a)) :
    (slot.relabel r change).parts view = relabelParts r (slot.parts view) := by
  cases slot with
  | found a => exact same a rfl
  | missing instead => rfl

@[simp] theorem parts_relabel_mark (mark : Delimiter) (slot : Slot Place) :
    (slot.relabel r r.place).parts mark.part = relabelParts r (slot.parts mark.part) :=
  parts_relabel_slot r fun _ _ => rfl

@[simp] theorem parts_relabel_name (slot : Slot Name) :
    (slot.relabel r (Name.rename r)).parts namePart = relabelParts r (slot.parts namePart) :=
  parts_relabel_slot r fun _ _ => rfl

@[simp] theorem parts_relabel_optional {α : Type} {view : α → Parts} {change : α → α}
    {item : Option α} (same : ∀ a, item = some a → view (change a) = relabelParts r (view a)) :
    optionalParts view (item.map change) = relabelParts r (optionalParts view item) := by
  cases item with
  | none => rfl
  | some a => exact same a rfl

theorem parts_relabel_separated {α : Type} {view : α → Parts} {change : α → α}
    {items : Separated α} (same : ∀ a ∈ items.toList, view (change a) = relabelParts r (view a)) :
    (items.relabel r change).parts view = relabelParts r (items.parts view) := by
  obtain ⟨first, rest⟩ := items
  obtain ⟨head, tail⟩ := List.forall_mem_cons.mp same
  simp only [Separated.relabel, Separated.parts, head, relabelParts_append]
  congr 1
  clear same head
  induction rest with
  | nil => rfl
  | cons item rest ih =>
    obtain ⟨here, behind⟩ := List.forall_mem_cons.mp tail
    simp only [List.map_cons, Separated.restParts, relabelParts_append]
    rw [here, ih behind]
    rfl

theorem parts_relabel_flatMap {α : Type} {view : α → Parts} {change : α → α} {items : List α}
    (same : ∀ a ∈ items, view (change a) = relabelParts r (view a)) :
    (items.map change).flatMap view = relabelParts r (items.flatMap view) := by
  induction items with
  | nil => rfl
  | cons a items ih =>
    obtain ⟨head, tail⟩ := List.forall_mem_cons.mp same
    simp only [List.map_cons, List.flatMap_cons, relabelParts_append, head, ih tail]

@[simp] theorem Size.parts_relabel (size : Size) :
    (size.relabel r).parts = relabelParts r size.parts := by
  induction size with
  | literal => rfl
  | missing => rfl
  | signed sign operand ih =>
    simp only [relabel, parts, ih, relabelParts_append]
    rfl
  | binary op left right ihLeft ihRight =>
    simp only [relabel, parts, ihLeft, ihRight, relabelParts_append]
    rfl
  | paren opening inner closing ih =>
    simp only [relabel, parts, ih, parts_relabel_mark, relabelParts_append]
    rfl

@[simp] theorem BaseName.parts_relabel (base : BaseName) :
    (base.relabel r).parts = relabelParts r base.parts := by
  cases base with
  | int | double | char => rfl
  | struct word name =>
    simp only [relabel, parts, parts_relabel_name, relabelParts_append]
    rfl

@[simp] theorem ArrayPart.parts_relabel (array : ArrayPart) :
    (array.relabel r).parts = relabelParts r array.parts := by
  cases array with
  | absent | unsized => rfl
  | sized opening size closing =>
    simp only [relabel, parts, Size.parts_relabel, parts_relabel_mark, relabelParts_append]
    rfl

@[simp] theorem TypeName.parts_relabel (name : TypeName) :
    (name.relabel r).parts = relabelParts r name.parts := by
  simp only [relabel, parts, BaseName.parts_relabel, ArrayPart.parts_relabel, relabelParts_append]

mutual

@[simp] theorem Expr.parts_relabel : ∀ expr : Expr,
    (expr.relabel r).parts = relabelParts r expr.parts
  | .literal _ _ | .reference _ | .callEmpty _ _ _ | .missing _ => rfl
  | .call _ _ args _ => by
    simp only [Expr.relabel, Expr.parts, Args.parts_relabel args, parts_relabel_mark,
      relabelParts_append]
    rfl
  | .paren _ inner _ => by
    simp only [Expr.relabel, Expr.parts, Expr.parts_relabel inner, parts_relabel_mark,
      relabelParts_append]
    rfl
  | .element array _ index _ => by
    simp only [Expr.relabel, Expr.parts, Expr.parts_relabel array, Expr.parts_relabel index,
      parts_relabel_mark, relabelParts_append]
    rfl
  | .member record _ _ => by
    simp only [Expr.relabel, Expr.parts, Expr.parts_relabel record, parts_relabel_name,
      relabelParts_append]
    rfl
  | .unary _ operand => by
    simp only [Expr.relabel, Expr.parts, Expr.parts_relabel operand, relabelParts_append]
    rfl
  | .cast _ _ _ operand => by
    simp only [Expr.relabel, Expr.parts, Expr.parts_relabel operand, TypeName.parts_relabel,
      parts_relabel_mark, relabelParts_append]
    rfl
  | .binary _ left right => by
    simp only [Expr.relabel, Expr.parts, Expr.parts_relabel left, Expr.parts_relabel right,
      relabelParts_append]
    rfl
  | .assign target _ value => by
    simp only [Expr.relabel, Expr.parts, Expr.parts_relabel target, Expr.parts_relabel value,
      relabelParts_append]
    rfl

@[simp] theorem Args.parts_relabel : ∀ args : Args,
    (args.relabel r).parts = relabelParts r args.parts
  | .last arg => by
    simp only [Args.relabel, Args.parts, Expr.parts_relabel arg]
  | .more arg _ rest => by
    simp only [Args.relabel, Args.parts, Expr.parts_relabel arg, Args.parts_relabel rest,
      relabelParts_append]
    rfl

end

@[simp] theorem Initializer.parts_relabel (init : Initializer) :
    (init.relabel r).parts = relabelParts r init.parts := by
  cases init with
  | value expr => exact expr.parts_relabel r
  | elements opening args closing =>
    simp only [relabel, parts, Args.parts_relabel, parts_relabel_mark, relabelParts_append]
    rfl
  | noElements => rfl

@[simp] theorem Declarator.parts_relabel (declarator : Declarator) :
    (declarator.relabel r).parts = relabelParts r declarator.parts := by
  simp only [relabel, parts, parts_relabel_name, ArrayPart.parts_relabel, relabelParts_append]
  rw [parts_relabel_optional]
  rintro ⟨op, init⟩ -
  simp only [Initializer.parts_relabel, relabelParts_append]
  rfl

@[simp] theorem VarDecl.parts_relabel (decl : VarDecl) :
    (decl.relabel r).parts = relabelParts r decl.parts := by
  simp only [relabel, parts, BaseName.parts_relabel, parts_relabel_mark, relabelParts_append]
  rw [parts_relabel_separated]
  exact fun declarator _ => declarator.parts_relabel r

@[simp] theorem Condition.parts_relabel (condition : Condition) :
    (condition.relabel r).parts = relabelParts r condition.parts := by
  simp only [relabel, parts, Expr.parts_relabel, parts_relabel_mark, relabelParts_append]

theorem parts_relabel_optionalExpr (value : Option Expr) :
    optionalParts Expr.parts (value.map (Expr.relabel r)) =
      relabelParts r (optionalParts Expr.parts value) :=
  parts_relabel_optional r fun expr _ => expr.parts_relabel r

@[simp] theorem ForHeader.parts_relabel (header : ForHeader) :
    (header.relabel r).parts = relabelParts r header.parts := by
  simp only [relabel, parts, parts_relabel_optionalExpr, parts_relabel_mark, relabelParts_append]

mutual

@[simp] theorem Stmt.parts_relabel : ∀ stmt : Stmt,
    (stmt.relabel r).parts = relabelParts r stmt.parts
  | .block _ items _ => by
    simp only [Stmt.relabel, Stmt.parts, Items.parts_relabel items, parts_relabel_mark,
      relabelParts_append]
    rfl
  | .ifThen _ _ body => by
    simp only [Stmt.relabel, Stmt.parts, Condition.parts_relabel, Stmt.parts_relabel body,
      relabelParts_append]
    rfl
  | .ifElse _ _ body _ otherwise => by
    simp only [Stmt.relabel, Stmt.parts, Condition.parts_relabel, Stmt.parts_relabel body,
      Stmt.parts_relabel otherwise, relabelParts_append]
    rfl
  | .whileLoop _ _ body => by
    simp only [Stmt.relabel, Stmt.parts, Condition.parts_relabel, Stmt.parts_relabel body,
      relabelParts_append]
    rfl
  | .forLoop _ _ body => by
    simp only [Stmt.relabel, Stmt.parts, ForHeader.parts_relabel, Stmt.parts_relabel body,
      relabelParts_append]
    rfl
  | .breakLoop _ _ => by
    simp only [Stmt.relabel, Stmt.parts, parts_relabel_mark, relabelParts_append]
    rfl
  | .returnValue _ _ _ => by
    simp only [Stmt.relabel, Stmt.parts, parts_relabel_optionalExpr, parts_relabel_mark,
      relabelParts_append]
    rfl
  | .empty _ | .missing _ => rfl
  | .expr _ _ => by
    simp only [Stmt.relabel, Stmt.parts, Expr.parts_relabel, parts_relabel_mark,
      relabelParts_append]

@[simp] theorem Items.parts_relabel : ∀ items : Items,
    (items.relabel r).parts = relabelParts r items.parts
  | .nil => rfl
  | .decl _ rest => by
    simp only [Items.relabel, Items.parts, VarDecl.parts_relabel, Items.parts_relabel rest,
      relabelParts_append]
  | .stmt stmt rest => by
    simp only [Items.relabel, Items.parts, Stmt.parts_relabel stmt, Items.parts_relabel rest,
      relabelParts_append]

end

@[simp] theorem Block.parts_relabel (block : Block) :
    (block.relabel r).parts = relabelParts r block.parts := by
  simp only [relabel, parts, Items.parts_relabel, parts_relabel_mark, relabelParts_append]
  rfl

@[simp] theorem ResultType.parts_relabel (result : ResultType) :
    (result.relabel r).parts = relabelParts r result.parts := by
  cases result with
  | void => rfl
  | value base => exact base.parts_relabel r
  | array base star =>
    simp only [relabel, parts, BaseName.parts_relabel, relabelParts_append]
    rfl

@[simp] theorem Param.parts_relabel (param : Param) :
    (param.relabel r).parts = relabelParts r param.parts := by
  simp only [relabel, parts, BaseName.parts_relabel, parts_relabel_name, ArrayPart.parts_relabel,
    relabelParts_append]

@[simp] theorem Decl.parts_relabel (decl : Decl) :
    (decl.relabel r).parts = relabelParts r decl.parts := by
  cases decl with
  | struct word name opening members closing semicolon =>
    simp only [relabel, parts, parts_relabel_mark, relabelParts_append]
    rw [parts_relabel_flatMap r fun decl _ => decl.parts_relabel r]
    rfl
  | function result name opening params closing body =>
    simp only [relabel, parts, ResultType.parts_relabel, parts_relabel_mark, relabelParts_append]
    rw [parts_relabel_optional, parts_relabel_slot]
    · rfl
    · exact fun block _ => block.parts_relabel r
    · intro items _
      apply parts_relabel_separated
      exact fun slot _ => parts_relabel_slot r fun param _ => param.parts_relabel r
  | vars tried decl => exact decl.parts_relabel r
  | missing => rfl

/-! ### Forms -/

@[simp] theorem Size.tightness_relabel (size : Size) :
    (size.relabel r).tightness = size.tightness := by
  cases size <;> rfl

@[simp] theorem Size.formed_relabel (size : Size) : (size.relabel r).Formed ↔ size.Formed := by
  induction size with
  | literal | missing => exact Iff.rfl
  | signed sign operand ih => simp [relabel, Formed, ih, At.move]
  | binary op left right ihLeft ihRight => simp [relabel, Formed, ihLeft, ihRight, At.move]
  | paren opening inner closing ih => exact ih

@[simp] theorem ArrayPart.formed_relabel (array : ArrayPart) :
    (array.relabel r).Formed ↔ array.Formed := by
  cases array with
  | absent | unsized => exact Iff.rfl
  | sized opening size closing => exact size.formed_relabel r

@[simp] theorem Expr.tightness_relabel (expr : Expr) :
    (expr.relabel r).tightness = expr.tightness := by
  cases expr <;> rfl

mutual

@[simp] theorem Expr.formed_relabel : ∀ expr : Expr, (expr.relabel r).Formed ↔ expr.Formed
  | .literal _ _ | .reference _ | .callEmpty _ _ _ | .missing _ => Iff.rfl
  | .call _ _ args _ => Args.formed_relabel args
  | .paren _ inner _ => Expr.formed_relabel inner
  | .element array _ index _ => by
    simp [Expr.relabel, Expr.Formed, Expr.formed_relabel array, Expr.formed_relabel index]
  | .member record _ _ => by
    simp [Expr.relabel, Expr.Formed, Expr.formed_relabel record]
  | .unary _ operand => by
    simp [Expr.relabel, Expr.Formed, Expr.formed_relabel operand, At.move]
  | .cast _ target _ operand => by
    simp [Expr.relabel, Expr.Formed, Expr.formed_relabel operand, TypeName.Formed,
      TypeName.relabel]
  | .binary _ left right => by
    simp [Expr.relabel, Expr.Formed, Expr.formed_relabel left, Expr.formed_relabel right, At.move]
  | .assign target _ value => by
    simp [Expr.relabel, Expr.Formed, Expr.formed_relabel target, Expr.formed_relabel value]

@[simp] theorem Args.formed_relabel : ∀ args : Args, (args.relabel r).Formed ↔ args.Formed
  | .last arg => Expr.formed_relabel arg
  | .more arg _ rest => by
    simp [Args.relabel, Args.Formed, Expr.formed_relabel arg, Args.formed_relabel rest]

end

@[simp] theorem Initializer.formed_relabel (init : Initializer) :
    (init.relabel r).Formed ↔ init.Formed := by
  cases init with
  | value expr => exact expr.formed_relabel r
  | elements opening args closing => exact args.formed_relabel r
  | noElements => exact Iff.rfl

@[simp] theorem Declarator.formed_relabel (declarator : Declarator) :
    (declarator.relabel r).Formed ↔ declarator.Formed := by
  obtain ⟨name, array, init⟩ := declarator
  cases init <;> simp [relabel, Formed]

theorem Separated.toList_relabel {α : Type} (change : α → α) (items : Separated α) :
    (items.relabel r change).toList = items.toList.map change := by
  simp [relabel, toList, Function.comp_def]

@[simp] theorem VarDecl.formed_relabel (decl : VarDecl) :
    (decl.relabel r).Formed ↔ decl.Formed := by
  simp [relabel, Formed, Separated.toList_relabel]

@[simp] theorem ForHeader.formed_relabel (header : ForHeader) :
    (header.relabel r).Formed ↔ header.Formed := by
  simp [relabel, Formed]

@[simp] theorem Stmt.endsOpen_relabel : ∀ stmt : Stmt,
    (stmt.relabel r).endsOpen = stmt.endsOpen
  | .ifElse _ _ _ _ otherwise => Stmt.endsOpen_relabel otherwise
  | .whileLoop _ _ body | .forLoop _ _ body => Stmt.endsOpen_relabel body
  | .block .. | .ifThen .. | .breakLoop .. | .returnValue .. | .empty _ | .expr ..
  | .missing _ => rfl

mutual

@[simp] theorem Stmt.formed_relabel : ∀ stmt : Stmt, (stmt.relabel r).Formed ↔ stmt.Formed
  | .block _ items _ => Items.formed_relabel items
  | .ifThen _ _ body => by
    simp [Stmt.relabel, Stmt.Formed, Condition.relabel, Stmt.formed_relabel body]
  | .ifElse _ _ body _ otherwise => by
    simp [Stmt.relabel, Stmt.Formed, Condition.relabel, Stmt.formed_relabel body,
      Stmt.formed_relabel otherwise]
  | .whileLoop _ _ body => by
    simp [Stmt.relabel, Stmt.Formed, Condition.relabel, Stmt.formed_relabel body]
  | .forLoop _ _ body => by
    simp [Stmt.relabel, Stmt.Formed, Stmt.formed_relabel body]
  | .breakLoop _ _ | .empty _ | .missing _ => Iff.rfl
  | .returnValue _ _ _ => by
    simp [Stmt.relabel, Stmt.Formed]
  | .expr expr _ => expr.formed_relabel r

@[simp] theorem Items.formed_relabel : ∀ items : Items, (items.relabel r).Formed ↔ items.Formed
  | .nil => Iff.rfl
  | .decl _ rest => by
    simp [Items.relabel, Items.Formed, Items.formed_relabel rest]
  | .stmt stmt rest => by
    simp [Items.relabel, Items.Formed, Stmt.formed_relabel stmt, Items.formed_relabel rest]

end

/-- A relabeled tree has the same form. -/
theorem Decl.formed_relabel {decl : Decl} (formed : decl.Formed) : (decl.relabel r).Formed := by
  cases decl with
  | struct word name opening members closing semicolon =>
    simpa [relabel, Formed] using formed
  | function result name opening params closing body =>
    obtain ⟨paramsFormed, bodyFormed⟩ := formed
    constructor
    · intro items mem param inside
      obtain ⟨items, same, rfl⟩ := Option.map_eq_some_iff.mp mem
      rw [Separated.toList_relabel] at inside
      obtain ⟨slot, among, changed⟩ := List.mem_map.mp inside
      cases slot with
      | missing => cases changed
      | found param =>
        obtain rfl := Slot.found.inj changed
        exact (param.array.formed_relabel r).mpr (paramsFormed items same param among)
    · intro block same
      cases body with
      | missing => cases same
      | found block =>
        obtain rfl := Slot.found.inj same
        exact (block.items.formed_relabel r).mpr (bodyFormed block rfl)
  | vars tried decl =>
    obtain ⟨declFormed, counted⟩ := formed
    refine ⟨(decl.formed_relabel r).mpr declFormed, fun gapless => ?_⟩
    have base : (decl.relabel r).base = decl.base.relabel r := rfl
    rw [VarDecl.parts_relabel, gapless_relabelParts] at gapless
    rw [base, BaseName.parts_relabel, lexemesOf_relabelParts, List.length_map]
    exact counted gapless
  | missing => trivial

end

end PlainC
