import PlainC.Expr.Typing
import PlainC.Proofs.Checking.Refusals
import PlainC.Proofs.Syntax.Parts

set_option autoImplicit false

/-!
Where faults are. A check of a tree ends only with faults about what the tree was read from: its
lexemes and those that were met at its gaps. This module has the types and the expressions.
-/

namespace PlainC

open Checked

/-- What stands at a part, or was met at a gap. -/
def Slot.lexeme : Slot Lexeme → Lexeme
  | found lexeme | missing lexeme => lexeme

/-- Literals that cannot be decoded, each with the error of that. -/
inductive Kind.IsBadLiteral : Kind → LiteralError → Prop
  | integer {text error} : Integer.decode text = .error error →
      IsBadLiteral (.literal .integer text) error
  | real {text error} : Real.decode text = .error error → IsBadLiteral (.literal .real text) error
  | character {text error} : Quoted.decodeChar text = .error error →
      IsBadLiteral (.literal .character text) error
  | string {text error} : Quoted.decodeString text = .error error →
      IsBadLiteral (.literal .string text) error

namespace Fault

/-- The fault is at the place of a lexeme. If the fault is a bad literal or an unexpected token,
then this is the lexeme. -/
def IsAbout (fault : Fault) (lexeme : Lexeme) : Prop :=
  fault.place = lexeme.place ∧
    match fault.cause with
    | .literal error => lexeme.value.IsBadLiteral error
    | .unexpected _ found => found = lexeme.value
    | .noTokens => False
    | .violation _ => True

/-- The fault is about one of some parts. -/
def IsIn (ps : Parts) (fault : Fault) : Prop :=
  ∃ part ∈ ps, fault.IsAbout part.lexeme

end Fault

/-- The places of parts. -/
def places (ps : Parts) : List Place := ps.map fun part => part.lexeme.place

section

variable {α β : Type} {ps qs : Parts}

theorem mem_places_of_found {kind : Kind} {place : Place}
    (mem : Slot.found ⟨kind, place⟩ ∈ ps) : place ∈ places ps :=
  List.mem_map_of_mem (f := fun part : Slot Lexeme => part.lexeme.place) mem

theorem mem_places_of_missing {instead : Lexeme} (mem : Slot.missing instead ∈ ps) :
    instead.place ∈ places ps :=
  List.mem_map_of_mem (f := fun part : Slot Lexeme => part.lexeme.place) mem

theorem places_mono (sub : ps ⊆ qs) : places ps ⊆ places qs :=
  List.map_subset _ sub

theorem Fault.isIn_violation {violation : Violation} {place : Place} (mem : place ∈ places ps) :
    Fault.IsIn ps ⟨.violation violation, place⟩ := by
  obtain ⟨part, among, rfl⟩ := List.mem_map.mp mem
  exact ⟨part, among, rfl, trivial⟩

theorem refuses_violation {violation : Violation} {place : Place} (mem : place ∈ places ps) :
    Refuses (Fault.IsIn ps) (violate violation place : Checked α) :=
  refuses_violate.mpr (Fault.isIn_violation mem)

theorem Fault.isIn_unexpected {wanted : Wanted} {instead : Lexeme}
    (mem : Slot.missing instead ∈ ps) :
    Fault.IsIn ps ⟨.unexpected wanted instead.value, instead.place⟩ :=
  ⟨_, mem, rfl, rfl⟩

theorem refuses_slot {wanted : Wanted} {slot : Slot α} {view : α → Parts}
    (sub : slot.parts view ⊆ ps) : Refuses (Fault.IsIn ps) (require wanted slot) := by
  apply refuses_require
  rintro instead rfl
  exact Fault.isIn_unexpected (sub (List.mem_singleton_self _))

theorem refuses_mark {mark : Delimiter} {slot : Slot Place} {view : Place → Parts}
    (sub : slot.parts view ⊆ ps) : Refuses (Fault.IsIn ps) (requireMark mark slot) := by
  apply refuses_requireMark
  rintro instead rfl
  exact Fault.isIn_unexpected (sub (List.mem_singleton_self _))

end

/-! ### Literals -/

theorem Integer.text_of_digits {radix limit before : Nat} {text : String}
    {tooLarge error : LiteralError} {cs : List Char} (same : tooLarge.text = text)
    (failed : digits radix limit text tooLarge before cs = .error error) : error.text = text := by
  fun_induction digits with
  | case1 => cases failed
  | case2 =>
    obtain rfl := Except.error.inj failed
    rfl
  | case3 =>
    obtain rfl := Except.error.inj failed
    exact same
  | case4 before c cs d _ _ ih => exact ih failed

/-- A bad literal is reported with its text. -/
theorem Integer.text_of_decode {text : String} {error : LiteralError}
    (failed : decode text = .error error) : error.text = text := by
  have mapped {f : Nat → Int} {limit radix : Nat} {tooLarge : LiteralError} {cs : List Char}
      (same : tooLarge.text = text)
      (failed : (digits radix limit text tooLarge 0 cs).map f = .error error) :
      error.text = text := by
    cases given : digits radix limit text tooLarge 0 cs with
    | ok n =>
      rw [given] at failed
      cases failed
    | error error' =>
      rw [given] at failed
      obtain rfl := Except.error.inj failed
      exact text_of_digits same given
  unfold decode at failed
  split at failed
  split at failed
  all_goals first
    | exact mapped rfl failed
    | (obtain rfl := Except.error.inj failed; rfl)

theorem Real.text_of_decode {text : String} {error : LiteralError}
    (failed : decode text = .error error) : error.text = text := by
  unfold decode at failed
  split at failed
  split at failed
  · cases failed
  · obtain rfl := Except.error.inj failed
    rfl

theorem Quoted.text_of_decodeChar {text : String} {error : LiteralError}
    (failed : decodeChar text = .error error) : error.text = text := by
  unfold decodeChar at failed
  split at failed
  · split at failed
    · cases failed
    · obtain rfl := Except.error.inj failed
      rfl
  · obtain rfl := Except.error.inj failed
    rfl

theorem Quoted.text_of_decodeString {text : String} {error : LiteralError}
    (failed : decodeString text = .error error) : error.text = text := by
  unfold decodeString at failed
  split at failed
  · cases failed
  · obtain rfl := Except.error.inj failed
    rfl

/-- The error of a literal has the text of the literal. -/
theorem Kind.IsBadLiteral.text_eq {kind : Kind} {error : LiteralError}
    (bad : kind.IsBadLiteral error) : error.text = kind.lexeme := by
  cases bad with
  | integer failed => exact Integer.text_of_decode failed
  | real failed => exact Real.text_of_decode failed
  | character failed => exact Quoted.text_of_decodeChar failed
  | string failed => exact Quoted.text_of_decodeString failed

theorem refuses_decoded {α : Type} {ps : Parts} {form : LiteralForm} {text : Name}
    {decoded : Except LiteralError α} (mem : Slot.found ⟨.literal form text.value, text.place⟩ ∈ ps)
    (bad : ∀ error, decoded = .error error → (Kind.literal form text.value).IsBadLiteral error) :
    Refuses (Fault.IsIn ps) (ofLiteral text.place decoded) :=
  refuses_ofLiteral fun error failed => ⟨_, mem, rfl, bad error failed⟩

/-! ### Types -/

theorem Size.start_mem (size : Size) : size.start ∈ places size.parts := by
  induction size with
  | literal text => exact mem_places_of_found List.mem_cons_self
  | signed sign operand => exact mem_places_of_found List.mem_cons_self
  | binary op left right ih => exact places_mono (by simp [parts]) ih
  | paren opening inner closing => exact mem_places_of_found List.mem_cons_self
  | missing instead => exact mem_places_of_missing List.mem_cons_self

theorem Size.refuses_atOperator {ps : Parts} {place : Place} {value : Except Violation Int}
    (mem : place ∈ places ps) : Refuses (Fault.IsIn ps) (atOperator place value) := by
  cases value with
  | ok value => exact refuses_pure value
  | error violation => exact refuses_violation mem

theorem Size.refuses_value {ps : Parts} (size : Size) (sub : size.parts ⊆ ps) :
    Refuses (Fault.IsIn ps) size.value := by
  induction size with
  | literal text =>
    exact refuses_decoded (sub List.mem_cons_self) fun _ => .integer
  | signed sign operand ih =>
    obtain ⟨sign, operand⟩ := List.append_subset.mp sub
    refine (ih operand).bind fun value _ => ?_
    exact refuses_atOperator (mem_places_of_found (sign List.mem_cons_self))
  | binary op left right ihLeft ihRight =>
    simp only [parts, List.append_subset] at sub
    obtain ⟨⟨left, op⟩, right⟩ := sub
    refine (ihLeft left).bind fun l _ => (ihRight right).bind fun r _ => ?_
    exact refuses_atOperator (mem_places_of_found (op List.mem_cons_self))
  | paren opening inner closing ih =>
    simp only [parts, List.append_subset] at sub
    obtain ⟨⟨-, inner⟩, closing⟩ := sub
    exact (ih inner).bind fun value _ => (refuses_mark closing).bind fun _ _ => refuses_pure value
  | missing instead => exact refuses_violation (mem_places_of_missing (sub List.mem_cons_self))

theorem BaseName.refuses_resolve {ps : Parts} (table : SymbolTable) (base : BaseName)
    (sub : base.parts ⊆ ps) : Refuses (Fault.IsIn ps) (base.resolve table) := by
  cases base with
  | int | double | char => exact refuses_pure _
  | struct word slot =>
    have name := (List.append_subset.mp sub).2
    refine (refuses_slot name).bind fun name' given => ?_
    obtain rfl := gives_require.mp given
    split
    · exact refuses_pure _
    · exact refuses_violation (mem_places_of_found (name List.mem_cons_self))

namespace ArrayPart

theorem refuses_requireClosing {ps : Parts} {closing : Slot Place}
    (sub : closing.parts Delimiter.rightBracket.part ⊆ ps) :
    Refuses (Fault.IsIn ps) (requireClosing closing) := by
  cases closing with
  | found place => exact refuses_pure ()
  | missing instead =>
    have mem : Slot.missing instead ∈ ps := sub List.mem_cons_self
    simp only [requireClosing]
    split
    · exact refuses_violation (mem_places_of_missing mem)
    · exact refuses_unexpected.mpr (Fault.isIn_unexpected mem)

theorem refuses_extent {ps : Parts} (array : ArrayPart) (sub : array.parts ⊆ ps) :
    Refuses (Fault.IsIn ps) array.extent := by
  cases array with
  | absent | unsized => exact refuses_pure _
  | sized opening size closing =>
    simp only [parts, List.append_subset] at sub
    obtain ⟨⟨-, inner⟩, closing⟩ := sub
    have start := places_mono inner size.start_mem
    refine (size.refuses_value inner).bind fun value _ => ?_
    refine (refuses_requireClosing closing).bind fun _ _ => ?_
    split
    · exact refuses_violation start
    · split
      · exact refuses_violation start
      · exact refuses_pure _

end ArrayPart

theorem TypeName.refuses_resolve {ps : Parts} (table : SymbolTable) (name : TypeName)
    (sub : name.parts ⊆ ps) : Refuses (Fault.IsIn ps) (name.resolve table) := by
  obtain ⟨base, array⟩ := List.append_subset.mp sub
  exact (name.base.refuses_resolve table base).bind fun _ _ =>
    (name.array.refuses_extent array).bind fun _ _ => refuses_pure _

/-! ### Expressions -/

namespace Expr

theorem start_mem : ∀ expr : Expr, expr.start ∈ places expr.parts
  | .literal _ _ | .reference _ | .call _ _ _ _ | .callEmpty _ _ _ | .paren _ _ _ | .unary _ _
  | .cast _ _ _ _ => mem_places_of_found List.mem_cons_self
  | .element array _ _ _ => by
    refine places_mono ?_ array.start_mem
    simp [parts]
  | .member record _ _ => by
    refine places_mono ?_ record.start_mem
    simp [parts]
  | .binary _ left _ => by
    refine places_mono ?_ left.start_mem
    simp [parts]
  | .assign target _ _ => by
    refine places_mono ?_ target.start_mem
    simp [parts]
  | .missing _ => mem_places_of_missing List.mem_cons_self

section

variable {ps : Parts} (table : SymbolTable)

/-! The rules of types are about the place that they are given. -/

theorem refuses_typeOfBinary {op : At Operator} (left right : Ty) (mem : op.place ∈ places ps) :
    Refuses (Fault.IsIn ps) (typeOfBinary table op left right) := by
  unfold typeOfBinary typeOfTest typeOfArithmetic invalidOperand
  repeat' split
  all_goals first | exact refuses_violation mem | exact refuses_pure _

theorem refuses_typeOfUnary {op : At Operator} (ty : Ty) (mem : op.place ∈ places ps) :
    Refuses (Fault.IsIn ps) (typeOfUnary table op ty) := by
  unfold typeOfUnary invalidOperand
  repeat' split
  all_goals first | exact refuses_violation mem | exact refuses_pure _

theorem refuses_typeOfAssign {start op : Place} (target : Operand) (value : Ty)
    (start_mem : start ∈ places ps) (op_mem : op ∈ places ps) :
    Refuses (Fault.IsIn ps) (typeOfAssign table start op target value) := by
  unfold typeOfAssign
  split
  · exact refuses_violation start_mem
  · repeat' split
    all_goals first | exact refuses_violation op_mem | exact refuses_pure _

theorem refuses_typeOfCast {start : Place} (target value : Ty) (mem : start ∈ places ps) :
    Refuses (Fault.IsIn ps) (typeOfCast table start target value) := by
  unfold typeOfCast
  split
  · exact refuses_pure _
  · exact refuses_violation mem

theorem refuses_requireArray {opening : Place} (ty : Ty) (mem : opening ∈ places ps) :
    Refuses (Fault.IsIn ps) (requireArray table opening ty) := by
  unfold requireArray
  split
  · exact refuses_pure _
  · exact refuses_violation mem

theorem refuses_requireIndex {start : Place} (ty : Ty) (mem : start ∈ places ps) :
    Refuses (Fault.IsIn ps) (requireIndex table start ty) := by
  unfold requireIndex
  split
  · exact refuses_pure _
  · exact refuses_violation mem

theorem refuses_typeOfMember {dot : Place} {member : Name} (record : Operand)
    (dot_mem : dot ∈ places ps) (member_mem : member.place ∈ places ps) :
    Refuses (Fault.IsIn ps) (typeOfMember table dot record member) := by
  unfold typeOfMember
  split
  · split
    · exact refuses_pure _
    · exact refuses_violation member_mem
  · exact refuses_violation dot_mem

theorem refuses_lookUp {name : Name} (mem : name.place ∈ places ps) :
    Refuses (Fault.IsIn ps) (lookUp table name) := by
  unfold lookUp
  split
  · exact refuses_pure _
  · exact refuses_violation mem

theorem refuses_typeOfReference {name : Name} (mem : name.place ∈ places ps) :
    Refuses (Fault.IsIn ps) (typeOfReference table name) := by
  refine (refuses_lookUp table mem).bind fun symbol _ => ?_
  split
  · exact refuses_pure _
  all_goals exact refuses_violation mem

theorem refuses_requireFunction {name : Name} (mem : name.place ∈ places ps) :
    Refuses (Fault.IsIn ps) (requireFunction table name) := by
  refine (refuses_lookUp table mem).bind fun symbol _ => ?_
  split
  · exact refuses_pure _
  · exact refuses_violation mem

theorem refuses_requireArgument {start : Place} (callee : Name) (params : List Symbol)
    (position : Nat) (ty : Ty) (mem : start ∈ places ps) :
    Refuses (Fault.IsIn ps) (requireArgument table callee params position start ty) := by
  unfold requireArgument
  split
  · exact refuses_violation mem
  · split
    · exact refuses_pure _
    · exact refuses_violation mem

theorem refuses_typeOfCall {callee : Name} (symbol : Symbol) (given : Nat)
    (mem : callee.place ∈ places ps) :
    Refuses (Fault.IsIn ps) (typeOfCall callee symbol given) := by
  unfold typeOfCall
  split
  · exact refuses_violation mem
  · exact refuses_pure _

theorem refuses_typeOfLiteral {form : LiteralForm} {text : Name}
    (mem : Slot.found ⟨.literal form text.value, text.place⟩ ∈ ps) :
    Refuses (Fault.IsIn ps) (typeOfLiteral form text) := by
  cases form with
  | integer => exact (refuses_decoded mem fun _ => .integer).bind fun _ _ => refuses_pure _
  | real => exact (refuses_decoded mem fun _ => .real).bind fun _ _ => refuses_pure _
  | character => exact (refuses_decoded mem fun _ => .character).bind fun _ _ => refuses_pure _
  | string =>
    refine (refuses_decoded mem fun _ => .string).bind fun contents _ => ?_
    unfold typeOfText
    split
    · exact refuses_violation (mem_places_of_found mem)
    · exact refuses_pure _

end

end Expr

mutual

theorem Expr.refuses_type {ps : Parts} (table : SymbolTable) :
    ∀ expr : Expr, expr.parts ⊆ ps → Refuses (Fault.IsIn ps) (expr.type table)
  | .literal form text, sub => by
    simp only [Expr.type]
    exact Expr.refuses_typeOfLiteral (sub List.mem_cons_self)
  | .reference name, sub => by
    simp only [Expr.type]
    exact Expr.refuses_typeOfReference table (mem_places_of_found (sub List.mem_cons_self))
  | .callEmpty callee opening closing, sub => by
    have mem := mem_places_of_found (sub List.mem_cons_self)
    simp only [Expr.type]
    exact (Expr.refuses_requireFunction table mem).bind fun symbol _ =>
      Expr.refuses_typeOfCall symbol 0 mem
  | .call callee opening args closing, sub => by
    have mem := mem_places_of_found (sub List.mem_cons_self)
    simp only [Expr.parts, List.append_subset] at sub
    obtain ⟨⟨-, args_sub⟩, closing_sub⟩ := sub
    simp only [Expr.type]
    refine (Expr.refuses_requireFunction table mem).bind fun symbol _ => ?_
    refine (Args.refuses_check table callee symbol.args 0 args args_sub).bind fun _ _ => ?_
    exact (refuses_mark closing_sub).bind fun _ _ => Expr.refuses_typeOfCall symbol _ mem
  | .paren opening inner closing, sub => by
    simp only [Expr.parts, List.append_subset] at sub
    obtain ⟨⟨-, inner_sub⟩, closing_sub⟩ := sub
    simp only [Expr.type]
    refine (refuses_write _).bind fun _ _ => ?_
    refine (Expr.refuses_type table inner inner_sub).bind fun operand _ => ?_
    exact (refuses_mark closing_sub).bind fun _ _ => refuses_pure operand
  | .element array opening index closing, sub => by
    simp only [Expr.parts, List.append_subset] at sub
    obtain ⟨⟨⟨array_sub, opening_sub⟩, index_sub⟩, closing_sub⟩ := sub
    have opening_mem := mem_places_of_found (opening_sub List.mem_cons_self)
    simp only [Expr.type]
    refine (Expr.refuses_type table array array_sub).bind fun base _ => ?_
    refine (Expr.refuses_requireArray table base.ty opening_mem).bind fun _ _ => ?_
    refine (Expr.refuses_type table index index_sub).bind fun operand _ => ?_
    refine (Expr.refuses_requireIndex table operand.ty
      (places_mono index_sub index.start_mem)).bind fun _ _ => ?_
    exact (refuses_mark closing_sub).bind fun _ _ => refuses_pure _
  | .member record dot slot, sub => by
    simp only [Expr.parts, List.append_subset] at sub
    obtain ⟨⟨record_sub, dot_sub⟩, slot_sub⟩ := sub
    simp only [Expr.type]
    refine (Expr.refuses_type table record record_sub).bind fun operand _ => ?_
    refine (refuses_slot slot_sub).bind fun name given => ?_
    obtain rfl := gives_require.mp given
    exact Expr.refuses_typeOfMember table operand
      (mem_places_of_found (dot_sub List.mem_cons_self))
      (mem_places_of_found (slot_sub List.mem_cons_self))
  | .unary op operand, sub => by
    obtain ⟨op_sub, operand_sub⟩ := List.append_subset.mp sub
    have op_mem := mem_places_of_found (op_sub List.mem_cons_self)
    have operand_refuses := Expr.refuses_type table operand operand_sub
    simp only [Expr.type]
    split
    · exact operand_refuses.withoutFirst.bind fun value _ =>
        Expr.refuses_typeOfUnary table value.ty op_mem
    · exact operand_refuses.bind fun value _ => Expr.refuses_typeOfUnary table value.ty op_mem
  | .cast opening target closing operand, sub => by
    simp only [Expr.parts, List.append_subset] at sub
    obtain ⟨⟨⟨-, target_sub⟩, closing_sub⟩, operand_sub⟩ := sub
    simp only [Expr.type]
    refine (target.refuses_resolve table target_sub).bind fun ty _ => ?_
    refine (refuses_mark closing_sub).bind fun _ _ => ?_
    exact (Expr.refuses_type table operand operand_sub).bind fun value _ =>
      Expr.refuses_typeOfCast table ty value.ty (places_mono operand_sub operand.start_mem)
  | .binary op left right, sub => by
    simp only [Expr.parts, List.append_subset] at sub
    obtain ⟨⟨left_sub, op_sub⟩, right_sub⟩ := sub
    simp only [Expr.type]
    refine (Expr.refuses_type table left left_sub).bind fun l _ => ?_
    refine (Expr.refuses_type table right right_sub).bind fun r _ => ?_
    exact Expr.refuses_typeOfBinary table l.ty r.ty
      (mem_places_of_found (op_sub List.mem_cons_self))
  | .assign target op value, sub => by
    simp only [Expr.parts, List.append_subset] at sub
    obtain ⟨⟨target_sub, op_sub⟩, value_sub⟩ := sub
    simp only [Expr.type]
    refine (Expr.refuses_type table target target_sub).bind fun t _ => ?_
    refine (Expr.refuses_type table value value_sub).bind fun v _ => ?_
    exact Expr.refuses_typeOfAssign table t v.ty (places_mono target_sub target.start_mem)
      (mem_places_of_found (op_sub List.mem_cons_self))
  | .missing instead, sub => by
    simp only [Expr.type]
    exact refuses_unexpected.mpr (Fault.isIn_unexpected (sub List.mem_cons_self))

theorem Args.refuses_check {ps : Parts} (table : SymbolTable) (callee : Name)
    (params : List Symbol) : ∀ (position : Nat) (args : Args), args.parts ⊆ ps →
      Refuses (Fault.IsIn ps) (args.check table callee params position)
  | position, .last arg, sub => by
    simp only [Args.check]
    exact (Expr.refuses_type table arg sub).bind fun value _ =>
      Expr.refuses_requireArgument table callee params position value.ty
        (places_mono sub arg.start_mem)
  | position, .more arg comma rest, sub => by
    simp only [Args.parts, List.append_subset] at sub
    obtain ⟨⟨arg_sub, -⟩, rest_sub⟩ := sub
    simp only [Args.check]
    refine (Expr.refuses_type table arg arg_sub).bind fun value _ => ?_
    refine (Expr.refuses_requireArgument table callee params position value.ty
      (places_mono arg_sub arg.start_mem)).bind fun _ _ => ?_
    exact Args.refuses_check table callee params (position + 1) rest rest_sub

end

end PlainC
