import PlainC.Proofs.Syntax.Formed

set_option autoImplicit false

/-!
Mended trees. Every gap of a tree can be filled with something short, and the tree stays well formed:
what fills a gap binds as tightly as the gap does, and no `else` comes near another `if`. The lexemes
in front of the first gap stay where they are.
-/

namespace PlainC

/-- The lexemes in front of the first gap. -/
def beforeGap : Parts → List Lexeme
  | .found lexeme :: parts => lexeme :: beforeGap parts
  | [] | .missing _ :: _ => []

/-- At its first gap, a tree tells what comes behind the lexemes in front of it. -/
theorem Spans.beforeGap_append {last gap : Lexeme} {ps : Parts} {ts rest : List Lexeme}
    (spans : Spans last ps ts rest) (first : firstGap? ps = some gap) :
    ∃ behind, ts = beforeGap ps ++ behind ∧ gap = behind.headD last := by
  induction ps generalizing ts with
  | nil => cases first
  | cons part ps ih =>
    cases part with
    | found lexeme =>
      obtain ⟨more, rfl, spans⟩ := spans
      obtain ⟨behind, rfl, same⟩ := ih spans first
      exact ⟨behind, rfl, same⟩
    | missing instead =>
      obtain rfl := Option.some.inj first
      exact ⟨ts, rfl, spans.1⟩

/-- The second parts are the first ones with lexemes in every gap. -/
inductive Mends : Parts → Parts → Prop
  | nil : Mends [] []
  | found {lexeme ps qs} : Mends ps qs → Mends (.found lexeme :: ps) (.found lexeme :: qs)
  | missing {instead filling ps qs} : Gapless filling → Mends ps qs →
    Mends (.missing instead :: ps) (filling ++ qs)

namespace Mends

variable {ps qs ps' qs' filling : Parts} {instead : Lexeme}

theorem gapless (h : Mends ps qs) : Gapless qs := by
  induction h with
  | nil => exact gapless_nil
  | found _ ih => exact gapless_found.mpr ih
  | missing filled _ ih => exact gapless_append.mpr ⟨filled, ih⟩

theorem beforeGap_isPrefix (h : Mends ps qs) : beforeGap ps <+: lexemesOf qs := by
  induction h with
  | nil => exact List.prefix_rfl
  | found _ ih => exact List.cons_prefix_cons.mpr ⟨rfl, ih⟩
  | missing _ _ _ => exact List.nil_prefix

theorem append (h : Mends ps qs) (h' : Mends ps' qs') : Mends (ps ++ ps') (qs ++ qs') := by
  induction h with
  | nil => exact h'
  | found _ ih => exact ih.found
  | missing filled _ ih =>
    rw [List.append_assoc]
    exact ih.missing filled

/-- A gap by itself. -/
theorem gap (filled : Gapless filling) : Mends [.missing instead] filling := by
  simpa using nil.missing filled

theorem of_gapless (filled : Gapless ps) : Mends ps ps := by
  induction ps with
  | nil => exact nil
  | cons part ps ih =>
    cases part with
    | found lexeme => exact (ih filled).found
    | missing instead => exact absurd filled not_gapless_missing

theorem part {kind : Kind} {place : Place} : Mends (kind.part place) (kind.part place) :=
  of_gapless rfl

theorem name {name : Name} : Mends (namePart name) (namePart name) := of_gapless rfl

theorem operator {op : At Operator} : Mends (operatorPart op) (operatorPart op) := of_gapless rfl

variable {α : Type} {view : α → Parts} {mend : α → α}

theorem optional (mends : ∀ a, Mends (view a) (view (mend a))) (item : Option α) :
    Mends (optionalParts view item) (optionalParts view (item.map mend)) := by
  cases item with
  | none => exact nil
  | some a => exact mends a

theorem flatMap (mends : ∀ a, Mends (view a) (view (mend a))) (items : List α) :
    Mends (items.flatMap view) ((items.map mend).flatMap view) := by
  induction items with
  | nil => exact nil
  | cons a items ih =>
    rw [List.flatMap_cons, List.map_cons, List.flatMap_cons]
    exact (mends a).append ih

end Mends

/-- The thing in a slot, mended, and in an empty slot what is made up from the lexeme there. -/
def Slot.mended {α : Type} (fill : Lexeme → α) (mend : α → α) : Slot α → Slot α
  | found a => found (mend a)
  | missing instead => found (fill instead)

theorem Slot.mends {α : Type} {view : α → Parts} {fill : Lexeme → α} {mend : α → α}
    (filled : ∀ instead, Gapless (view (fill instead))) (mends : ∀ a, Mends (view a) (view (mend a)))
    (slot : Slot α) : Mends (slot.parts view) ((slot.mended fill mend).parts view) := by
  cases slot with
  | found a => exact mends a
  | missing instead => exact .gap (filled instead)

/-- A token where one is missing. -/
def Slot.placed : Slot Place → Slot Place := mended At.place id

theorem Slot.mends_placed {kind : Kind} (slot : Slot Place) :
    Mends (slot.parts kind.part) (slot.placed.parts kind.part) :=
  slot.mends (fun _ => by exact rfl) fun _ => .part

/-- A name where one is missing. -/
def Slot.named : Slot Name → Slot Name := mended (fun instead => ⟨"x", instead.place⟩) id

theorem Slot.mends_named (slot : Slot Name) :
    Mends (slot.parts namePart) (slot.named.parts namePart) :=
  slot.mends (fun _ => by exact rfl) fun _ => .name

def Separated.mended {α : Type} (mend : α → α) (items : Separated α) : Separated α :=
  ⟨mend items.first, items.rest.map fun (comma, item) => (comma, mend item)⟩

section

variable {α : Type} {mend : α → α}

theorem Separated.mends {view : α → Parts} (mends : ∀ a, Mends (view a) (view (mend a)))
    (items : Separated α) : Mends (items.parts view) ((items.mended mend).parts view) := by
  obtain ⟨first, items⟩ := items
  refine (mends first).append ?_
  induction items with
  | nil => exact .nil
  | cons pair items ih => exact (Mends.part.append (mends pair.2)).append ih

theorem Separated.toList_mended (items : Separated α) :
    (items.mended mend).toList = items.toList.map mend := by
  simp [mended, toList, Function.comp_def]

end

/-! ### Types -/

namespace Size

def mended : Size → Size
  | literal text => literal text
  | signed sign operand => signed sign operand.mended
  | binary op left right => binary op left.mended right.mended
  | paren opening inner closing => paren opening inner.mended closing.placed
  | missing instead => literal ⟨"1", instead.place⟩

theorem mends : ∀ size : Size, Mends size.parts size.mended.parts
  | literal _ => .part
  | signed _ operand => Mends.operator.append operand.mends
  | binary _ left right => (left.mends.append .operator).append right.mends
  | paren _ inner closing => (Mends.part.append inner.mends).append closing.mends_placed
  | missing _ => .gap rfl

@[simp] theorem tightness_mended (size : Size) : size.mended.tightness = size.tightness := by
  cases size <;> rfl

theorem formed_mended (size : Size) (formed : size.Formed) : size.mended.Formed := by
  induction size with
  | literal | missing => trivial
  | signed sign operand ih => exact ⟨formed.1, ih formed.2.1, by simpa using formed.2.2⟩
  | binary op left right ihLeft ihRight =>
    obtain ⟨level, formedLeft, tightLeft, formedRight, tightRight⟩ := formed
    exact ⟨level, ihLeft formedLeft, by simpa using tightLeft, ihRight formedRight,
      by simpa using tightRight⟩
  | paren _ inner _ ih => exact ih formed

end Size

def BaseName.mended : BaseName → BaseName
  | int word => int word
  | double word => double word
  | char word => char word
  | struct word name => struct word name.named

theorem BaseName.mends : ∀ base : BaseName, Mends base.parts base.mended.parts
  | int _ | double _ | char _ => .part
  | struct _ name => Mends.part.append name.mends_named

namespace ArrayPart

def mended : ArrayPart → ArrayPart
  | absent => absent
  | unsized opening closing => unsized opening closing
  | sized opening size closing => sized opening size.mended closing.placed

theorem mends : ∀ array : ArrayPart, Mends array.parts array.mended.parts
  | absent => .nil
  | unsized _ _ => Mends.part.append .part
  | sized _ size closing => (Mends.part.append size.mends).append closing.mends_placed

theorem formed_mended (array : ArrayPart) (formed : array.Formed) : array.mended.Formed := by
  cases array with
  | absent | unsized => trivial
  | sized _ size _ => exact size.formed_mended formed

end ArrayPart

def TypeName.mended (name : TypeName) : TypeName := ⟨name.base.mended, name.array.mended⟩

theorem TypeName.mends (name : TypeName) : Mends name.parts name.mended.parts :=
  name.base.mends.append name.array.mends

theorem TypeName.formed_mended (name : TypeName) (formed : name.Formed) : name.mended.Formed :=
  name.array.formed_mended formed

/-! ### Expressions -/

mutual

def Expr.mended : Expr → Expr
  | .literal form text => .literal form text
  | .reference name => .reference name
  | .call callee opening args closing => .call callee opening args.mended closing.placed
  | .callEmpty callee opening closing => .callEmpty callee opening closing
  | .paren opening inner closing => .paren opening inner.mended closing.placed
  | .element array opening index closing =>
    .element array.mended opening index.mended closing.placed
  | .member record dot name => .member record.mended dot name.named
  | .unary op operand => .unary op operand.mended
  | .cast opening target closing operand =>
    .cast opening target.mended closing.placed operand.mended
  | .binary op left right => .binary op left.mended right.mended
  | .assign target op value => .assign target.mended op value.mended
  | .missing instead => .reference ⟨"x", instead.place⟩

def Args.mended : Args → Args
  | .last arg => .last arg.mended
  | .more arg comma rest => .more arg.mended comma rest.mended

end

mutual

theorem Expr.mends : ∀ expr : Expr, Mends expr.parts expr.mended.parts
  | .literal _ _ => .part
  | .reference _ => .name
  | .call _ _ args closing =>
    ((Mends.name.append .part).append args.mends).append closing.mends_placed
  | .callEmpty _ _ _ => (Mends.name.append .part).append .part
  | .paren _ inner closing => (Mends.part.append inner.mends).append closing.mends_placed
  | .element array _ index closing =>
    ((array.mends.append .part).append index.mends).append closing.mends_placed
  | .member record _ name => (record.mends.append .part).append name.mends_named
  | .unary _ operand => Mends.operator.append operand.mends
  | .cast _ target closing operand =>
    ((Mends.part.append target.mends).append closing.mends_placed).append operand.mends
  | .binary _ left right => (left.mends.append .operator).append right.mends
  | .assign target _ value => (target.mends.append .part).append value.mends
  | .missing _ => .gap rfl

theorem Args.mends : ∀ args : Args, Mends args.parts args.mended.parts
  | .last arg => arg.mends
  | .more arg _ rest => (arg.mends.append .part).append rest.mends

end

@[simp] theorem Expr.tightness_mended (expr : Expr) : expr.mended.tightness = expr.tightness := by
  cases expr <;> rfl

mutual

theorem Expr.formed_mended : ∀ expr : Expr, expr.Formed → expr.mended.Formed
  | .literal _ _, _ | .reference _, _ | .callEmpty _ _ _, _ | .missing _, _ => trivial
  | .call _ _ args _, formed => args.formed_mended formed
  | .paren _ inner _, formed => inner.formed_mended formed
  | .element array _ index _, formed => by
    obtain ⟨formedArray, tight, formedIndex⟩ := formed
    exact ⟨array.formed_mended formedArray, by simpa using tight, index.formed_mended formedIndex⟩
  | .member record _ _, formed => by
    obtain ⟨formed, tight⟩ := formed
    exact ⟨record.formed_mended formed, by simpa using tight⟩
  | .unary op operand, formed => by
    obtain ⟨among, formed, tight⟩ := formed
    exact ⟨among, operand.formed_mended formed, by simpa using tight⟩
  | .cast _ target _ operand, formed => by
    obtain ⟨formedTarget, formed, tight⟩ := formed
    exact ⟨target.formed_mended formedTarget, operand.formed_mended formed, by simpa using tight⟩
  | .binary op left right, formed => by
    obtain ⟨level, formedLeft, tightLeft, formedRight, tightRight⟩ := formed
    exact ⟨level, left.formed_mended formedLeft, by simpa using tightLeft,
      right.formed_mended formedRight, by simpa using tightRight⟩
  | .assign target _ value, formed => by
    obtain ⟨formedTarget, tight, formedValue⟩ := formed
    exact ⟨target.formed_mended formedTarget, by simpa using tight,
      value.formed_mended formedValue⟩

theorem Args.formed_mended : ∀ args : Args, args.Formed → args.mended.Formed
  | .last arg, formed => arg.formed_mended formed
  | .more arg _ rest, ⟨formed, formedRest⟩ =>
    ⟨arg.formed_mended formed, rest.formed_mended formedRest⟩

end

/-! ### Declarations of variables -/

namespace Initializer

def mended : Initializer → Initializer
  | value expr => value expr.mended
  | elements opening args closing => elements opening args.mended closing.placed
  | noElements opening closing => noElements opening closing

theorem mends : ∀ init : Initializer, Mends init.parts init.mended.parts
  | value expr => expr.mends
  | elements _ args closing => (Mends.part.append args.mends).append closing.mends_placed
  | noElements _ _ => Mends.part.append .part

theorem formed_mended (init : Initializer) (formed : init.Formed) : init.mended.Formed := by
  cases init with
  | value expr => exact expr.formed_mended formed
  | elements _ args _ => exact args.formed_mended formed
  | noElements => trivial

end Initializer

namespace Declarator

def mended (declarator : Declarator) : Declarator :=
  ⟨declarator.name.named, declarator.array.mended,
    declarator.initializer.map fun (op, init) => (op, init.mended)⟩

theorem mends (declarator : Declarator) : Mends declarator.parts declarator.mended.parts :=
  (declarator.name.mends_named.append declarator.array.mends).append <|
    .optional (fun (_, init) => Mends.part.append init.mends) declarator.initializer

theorem formed_mended (declarator : Declarator) (formed : declarator.Formed) :
    declarator.mended.Formed := by
  refine ⟨declarator.array.formed_mended formed.1, ?_⟩
  intro init same
  obtain ⟨init', same', rfl⟩ := Option.map_eq_some_iff.mp same
  exact init'.2.formed_mended (formed.2 init' same')

end Declarator

namespace VarDecl

def mended (decl : VarDecl) : VarDecl :=
  ⟨decl.base.mended, decl.declarators.mended Declarator.mended, decl.semicolon.placed⟩

theorem mends (decl : VarDecl) : Mends decl.parts decl.mended.parts :=
  (decl.base.mends.append (decl.declarators.mends Declarator.mends)).append
    decl.semicolon.mends_placed

theorem formed_mended (decl : VarDecl) (formed : decl.Formed) : decl.mended.Formed := by
  intro declarator among
  rw [VarDecl.mended, Separated.toList_mended] at among
  obtain ⟨declarator', among', rfl⟩ := List.mem_map.mp among
  exact declarator'.formed_mended (formed declarator' among')

end VarDecl

/-! ### Statements -/

theorem Expr.formed_of_mem_mended {value : Option Expr} (formed : ∀ expr ∈ value, expr.Formed) :
    ∀ expr ∈ value.map Expr.mended, expr.Formed := by
  intro expr same
  obtain ⟨expr', same', rfl⟩ := Option.map_eq_some_iff.mp same
  exact expr'.formed_mended (formed expr' same')

def Condition.mended (condition : Condition) : Condition :=
  ⟨condition.opening.placed, condition.expr.mended, condition.closing.placed⟩

theorem Condition.mends (condition : Condition) : Mends condition.parts condition.mended.parts :=
  (condition.opening.mends_placed.append condition.expr.mends).append condition.closing.mends_placed

def ForHeader.mended (header : ForHeader) : ForHeader :=
  ⟨header.opening.placed, header.first.map Expr.mended, header.firstSemicolon.placed,
    header.condition.map Expr.mended, header.secondSemicolon.placed, header.step.map Expr.mended,
    header.closing.placed⟩

theorem ForHeader.mends (header : ForHeader) : Mends header.parts header.mended.parts :=
  ((((((header.opening.mends_placed.append (.optional Expr.mends header.first)).append
    header.firstSemicolon.mends_placed).append (.optional Expr.mends header.condition)).append
    header.secondSemicolon.mends_placed).append (.optional Expr.mends header.step)).append
    header.closing.mends_placed)

theorem ForHeader.formed_mended (header : ForHeader) (formed : header.Formed) :
    header.mended.Formed :=
  ⟨Expr.formed_of_mem_mended formed.1, Expr.formed_of_mem_mended formed.2.1,
    Expr.formed_of_mem_mended formed.2.2⟩

mutual

def Stmt.mended : Stmt → Stmt
  | .block opening items closing => .block opening items.mended closing.placed
  | .ifThen word condition body => .ifThen word condition.mended body.mended
  | .ifElse word condition body elseWord otherwise =>
    .ifElse word condition.mended body.mended elseWord otherwise.mended
  | .whileLoop word condition body => .whileLoop word condition.mended body.mended
  | .forLoop word header body => .forLoop word header.mended body.mended
  | .breakLoop word semicolon => .breakLoop word semicolon.placed
  | .returnValue word value semicolon =>
    .returnValue word (value.map Expr.mended) semicolon.placed
  | .empty semicolon => .empty semicolon
  | .expr expr semicolon => .expr expr.mended semicolon.placed
  | .missing instead => .empty instead.place

def Items.mended : Items → Items
  | .nil => .nil
  | .decl decl rest => .decl decl.mended rest.mended
  | .stmt stmt rest => .stmt stmt.mended rest.mended

end

mutual

theorem Stmt.mends : ∀ stmt : Stmt, Mends stmt.parts stmt.mended.parts
  | .block _ items closing => (Mends.part.append items.mends).append closing.mends_placed
  | .ifThen _ condition body => (Mends.part.append condition.mends).append body.mends
  | .ifElse _ condition body _ otherwise =>
    (((Mends.part.append condition.mends).append body.mends).append .part).append otherwise.mends
  | .whileLoop _ condition body => (Mends.part.append condition.mends).append body.mends
  | .forLoop _ header body => (Mends.part.append header.mends).append body.mends
  | .breakLoop _ semicolon => Mends.part.append semicolon.mends_placed
  | .returnValue _ value semicolon =>
    (Mends.part.append (.optional Expr.mends value)).append semicolon.mends_placed
  | .empty _ => .part
  | .expr expr semicolon => expr.mends.append semicolon.mends_placed
  | .missing _ => .gap rfl

theorem Items.mends : ∀ items : Items, Mends items.parts items.mended.parts
  | .nil => .nil
  | .decl decl rest => decl.mends.append rest.mends
  | .stmt stmt rest => stmt.mends.append rest.mends

end

@[simp] theorem Stmt.endsOpen_mended : ∀ stmt : Stmt, stmt.mended.endsOpen = stmt.endsOpen
  | .block _ _ _ | .ifThen _ _ _ | .breakLoop _ _ | .returnValue _ _ _ | .empty _ | .expr _ _
  | .missing _ => rfl
  | .ifElse _ _ _ _ otherwise => otherwise.endsOpen_mended
  | .whileLoop _ _ body | .forLoop _ _ body => body.endsOpen_mended

mutual

theorem Stmt.formed_mended : ∀ stmt : Stmt, stmt.Formed → stmt.mended.Formed
  | .block _ items _, formed => items.formed_mended formed
  | .ifThen _ condition body, ⟨formed, formedBody⟩ =>
    ⟨condition.expr.formed_mended formed, body.formed_mended formedBody⟩
  | .ifElse _ condition body _ otherwise, formed => by
    obtain ⟨formed, formedBody, closed, formedElse⟩ := formed
    exact ⟨condition.expr.formed_mended formed, body.formed_mended formedBody,
      by simpa using closed, otherwise.formed_mended formedElse⟩
  | .whileLoop _ condition body, ⟨formed, formedBody⟩ =>
    ⟨condition.expr.formed_mended formed, body.formed_mended formedBody⟩
  | .forLoop _ header body, ⟨formed, formedBody⟩ =>
    ⟨header.formed_mended formed, body.formed_mended formedBody⟩
  | .breakLoop _ _, _ | .empty _, _ | .missing _, _ => trivial
  | .returnValue _ _ _, formed => Expr.formed_of_mem_mended formed
  | .expr expr _, formed => expr.formed_mended formed

theorem Items.formed_mended : ∀ items : Items, items.Formed → items.mended.Formed
  | .nil, _ => trivial
  | .decl decl rest, ⟨formed, formedRest⟩ =>
    ⟨decl.formed_mended formed, rest.formed_mended formedRest⟩
  | .stmt stmt rest, ⟨formed, formedRest⟩ =>
    ⟨stmt.formed_mended formed, rest.formed_mended formedRest⟩

end

def Block.mended (block : Block) : Block :=
  ⟨block.opening, block.items.mended, block.closing.placed⟩

theorem Block.mends (block : Block) : Mends block.parts block.mended.parts :=
  (Mends.part.append block.items.mends).append block.closing.mends_placed

/-! ### Top-level declarations -/

def ResultType.mended : ResultType → ResultType
  | void word => void word
  | value base => value base.mended
  | array base star => array base.mended star

theorem ResultType.mends : ∀ result : ResultType, Mends result.parts result.mended.parts
  | void _ => .part
  | value base => base.mends
  | array base _ => base.mends.append .part

namespace Param

def mended (param : Param) : Param := ⟨param.base.mended, param.name.named, param.array.mended⟩

theorem mends (param : Param) : Mends param.parts param.mended.parts :=
  (param.base.mends.append param.name.mends_named).append param.array.mends

/-- A parameter where one is missing. -/
def filling (instead : Lexeme) : Param :=
  ⟨.int instead.place, .found ⟨"x", instead.place⟩, .absent⟩

/-- The parameters in parentheses. -/
def mendedAll : Option (Separated (Slot Param)) → Option (Separated (Slot Param)) :=
  Option.map (Separated.mended (Slot.mended filling mended))

theorem mends_mendedAll (params : Option (Separated (Slot Param))) :
    Mends (optionalParts (Separated.parts (Slot.parts Param.parts)) params)
      (optionalParts (Separated.parts (Slot.parts Param.parts)) (mendedAll params)) :=
  .optional (Separated.mends (Slot.mends (fun _ => by exact rfl) mends)) params

theorem formed_of_mem_mendedAll {params : Option (Separated (Slot Param))}
    (formed : ∀ items ∈ params, ∀ param, .found param ∈ items.toList → param.Formed) :
    ∀ items ∈ mendedAll params, ∀ param, .found param ∈ items.toList → param.Formed := by
  intro items given param among
  obtain ⟨items', given', rfl⟩ := Option.map_eq_some_iff.mp given
  rw [Separated.toList_mended] at among
  obtain ⟨slot, among', same⟩ := List.mem_map.mp among
  cases slot with
  | found param' =>
    obtain rfl := Slot.found.inj same
    exact param'.array.formed_mended (formed items' given' param' among')
  | missing instead =>
    obtain rfl := Slot.found.inj same
    trivial

end Param

/-- A body where one is missing. -/
def Block.filling (instead : Lexeme) : Block := ⟨instead.place, .nil, .found instead.place⟩

/-- A declaration where one is missing. -/
def VarDecl.filling (instead : Lexeme) : VarDecl :=
  ⟨.int instead.place, ⟨⟨.found ⟨"x", instead.place⟩, .absent, none⟩, []⟩, .found instead.place⟩

namespace Decl

/-- A declaration of variables, with the lexemes in front of it that were read as the beginning of a
function. -/
def ofVars (decl : VarDecl) : Decl := vars ((lexemesOf decl.base.parts).length + 1) decl

def mended : Decl → Decl
  | struct word name opening members closing semicolon =>
    struct word name opening (members.map VarDecl.mended) closing.placed semicolon.placed
  | function result name opening params closing body =>
    function result.mended name opening (Param.mendedAll params) closing.placed
      (body.mended Block.filling Block.mended)
  | vars _ decl => ofVars decl.mended
  | missing _ instead => ofVars (VarDecl.filling instead)

theorem mends : ∀ decl : Decl, Mends decl.parts decl.mended.parts
  | struct _ _ _ members closing semicolon =>
    ((((Mends.part.append .name).append .part).append (.flatMap VarDecl.mends members)).append
      closing.mends_placed).append semicolon.mends_placed
  | function result _ _ params closing body =>
    ((((result.mends.append .name).append .part).append (Param.mends_mendedAll params)).append
      closing.mends_placed).append (body.mends (fun _ => by exact rfl) Block.mends)
  | vars _ decl => decl.mends
  | missing _ _ => .gap rfl

theorem formed_mended (decl : Decl) (formed : decl.Formed) : decl.mended.Formed := by
  cases decl with
  | struct _ _ _ members _ _ =>
    intro member among
    obtain ⟨member', among', rfl⟩ := List.mem_map.mp among
    exact member'.formed_mended (formed member' among')
  | function _ _ _ params _ body =>
    refine ⟨Param.formed_of_mem_mendedAll formed.1, ?_⟩
    intro block same
    cases body with
    | found block' =>
      obtain rfl := Slot.found.inj same
      exact block'.items.formed_mended (formed.2 block' rfl)
    | missing instead =>
      obtain rfl := Slot.found.inj same
      trivial
  | vars _ decl => exact ⟨decl.formed_mended formed.1, fun _ => rfl⟩
  | missing _ instead =>
    refine ⟨?_, fun _ => rfl⟩
    intro declarator among
    obtain rfl := List.mem_singleton.mp among
    exact ⟨trivial, nofun⟩

end Decl

end PlainC
