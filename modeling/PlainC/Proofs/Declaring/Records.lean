import PlainC.Proofs.Checking.Quiet
import PlainC.Proofs.Declaring.Decl
import PlainC.Proofs.Initializing.Steps

set_option autoImplicit false

/-!
What the analysis of a program writes about its declarations. Each struct is noted with the number
of its members and each function with its depth, which is its number among the functions, and with the
number of symbols that are taken back behind it: its parameters and the variables in any of its blocks.
What was read in vain as the beginning of a function leaves no trace of this kind.
-/

namespace PlainC

open Checked

/-! ### Records of declarations -/

namespace Decl

/-- The parameters of a function. -/
def parameters : Decl → List (Slot Param)
  | function _ _ _ params _ _ => (params.map Separated.toList).getD []
  | struct .. | vars .. | missing .. => []

/-- What is written about a declaration behind a number of functions. -/
def records (functions : Nat) (decl : Decl) : List LogRecord :=
  match decl with
  | struct _ name _ _ _ _ => [.declaredStruct name.value decl.declarators.length]
  | function _ name _ _ _ _ =>
    [.declaredFunction name.value (functions + 1)
      (decl.parameters.length + decl.declarators.length)]
  | vars .. | missing .. => []

/-- What is written about declarations in order, the first of which is behind a number of functions. -/
def recordsFrom (functions : Nat) : List Decl → List LogRecord
  | [] => []
  | decl :: rest => decl.records functions ++ recordsFrom (functions + decl.functions) rest

end Decl

/-! ### Sizes of bodies -/

mutual

theorem Stmt.declaratorsOf_items : ∀ (stmt : Stmt) (loops : Nat),
    declaratorsOf (stmt.items loops) = stmt.varDecls.flatMap fun decl => decl.declarators.toList
  | .block _ inner _, loops => Items.declaratorsOf_items inner loops
  | .ifThen _ _ body, loops => Stmt.declaratorsOf_items body loops
  | .whileLoop _ _ body, loops | .forLoop _ _ body, loops =>
    Stmt.declaratorsOf_items body (loops + 1)
  | .ifElse _ _ body _ otherwise, loops => by
    rw [Stmt.items, declaratorsOf_cons, declaratorsOf_append, Stmt.declaratorsOf_items body,
      Stmt.declaratorsOf_items otherwise, Stmt.varDecls, List.flatMap_append]
    rfl
  | .breakLoop .., _ | .returnValue .., _ | .empty .., _ | .expr .., _ | .missing .., _ => rfl

theorem Items.declaratorsOf_items : ∀ (items : Items) (loops : Nat),
    declaratorsOf (items.items loops) = items.varDecls.flatMap fun decl => decl.declarators.toList
  | .nil, _ => rfl
  | .decl decl rest, loops => by
    rw [Items.items, declaratorsOf_cons, Items.declaratorsOf_items rest, Items.varDecls,
      List.flatMap_cons]
    rfl
  | .stmt stmt rest, loops => by
    rw [Items.items, declaratorsOf_append, Stmt.declaratorsOf_items stmt,
      Items.declaratorsOf_items rest, Items.varDecls, List.flatMap_append]

end

theorem VarDecl.size_of_declare {depth : Nat} {decl : VarDecl} {table table' : SymbolTable}
    (h : (decl.declare (.body depth) table).Gives table') :
    table'.size = table.size + decl.declarators.toList.length := by
  simp only [VarDecl.declare, gives_bind, gives_pure] at h
  obtain ⟨base, -, _, declared, _, -, rfl⟩ := h
  refine gives_foldlM_induction
    (motive := fun declarators table table' => table'.size = table.size + declarators.length)
    (fun _ => rfl) ?_ declared
  intro _ declarators table middle table' first rest
  obtain ⟨name, ty, -, -, added⟩ := Declarator.gives_declare.mp first
  obtain ⟨-, appended⟩ := Region.symbols_declare added
  have size : middle.size = table.size + 1 := by simp [SymbolTable.size, appended]
  rw [rest, size, List.length_cons, Nat.add_assoc, Nat.add_comm 1]

theorem VarDecl.size_of_foldlM {depth : Nat} {decls : List VarDecl} {table table' : SymbolTable}
    (h : (decls.foldlM (declare (.body depth)) table).Gives table') :
    table'.size = table.size + (decls.flatMap fun decl => decl.declarators.toList).length := by
  refine gives_foldlM_induction (motive := fun decls table table' => table'.size = table.size +
    (decls.flatMap fun decl : VarDecl => decl.declarators.toList).length) (fun _ => rfl) ?_ h
  intro _ _ _ _ _ first rest
  rw [rest, VarDecl.size_of_declare first, List.flatMap_cons, List.length_append, Nat.add_assoc]

/-- Every variable in the body of a function is there behind it, also those of its blocks. -/
theorem Block.size_of_check {scope : FunctionScope} {block : Block} {table table' : SymbolTable}
    (h : (block.check scope table).Gives table') :
    table'.size = table.size + (declaratorsOf (block.items.items 0)).length := by
  rw [Items.declaratorsOf_items]
  exact VarDecl.size_of_foldlM (Block.gives_varDecls h)

/-! ### Checks of declarations -/

theorem length_withBase (decls : List VarDecl) :
    (decls.flatMap VarDecl.withBase).length =
      (decls.flatMap fun decl => decl.declarators.toList).length := by
  simp [List.length_flatMap, VarDecl.withBase]

namespace Declared

variable {declared declared' : Declared}

theorem debug_declareStruct {word : Place} {name : Name} {opening : Place} {members : List VarDecl}
    {closing semicolon : Slot Place} (formed : ∀ decl ∈ members, decl.Formed)
    (h : (declared.declareStruct name members closing semicolon).Gives declared') :
    (declared.declareStruct name members closing semicolon).debug =
      (Decl.struct word name opening members closing semicolon).records declared.depth := by
  unfold declareStruct at h ⊢
  cases free : declared.table.find? name.value with
  | some previous => simp [free, Checked.redefined] at h
  | none =>
    simp only [free, gives_bind] at h ⊢
    obtain ⟨entered, enters, table, added, _, closed, _, ended, -⟩ := h
    have count : (table.get? declared.table.size).map (fun symbol => symbol.members.length) =
        some (members.flatMap fun decl => decl.declarators.toList).length := by
      obtain ⟨-, rfl⟩ := SymbolTable.gives_declare.mp enters
      obtain ⟨symbols, areMembers, same⟩ := memberDecls_of_gives formed rfl added
      rw [SymbolTable.get?, same, SymbolTable.size, List.getElem?_append_right (Nat.le_refl _),
        ← length_withBase, areMembers.length_eq]
      simp [topLevelSymbol]
    rw [(SymbolTable.quiet_declare _ _ _).debug_bind enters,
      (quiet_foldlM (VarDecl.quiet_declare _) members entered).debug_bind added,
      (quiet_requireMark _ _).debug_bind closed, (quiet_requireMark _ _).debug_bind ended, count]
    simp only [Decl.records, Decl.declarators, Decl.items, declaratorsOf_decls]
    rfl

theorem debug_declareFunction {result : ResultType} {name : Name} {opening : Place}
    {params : Option (Separated (Slot Param))} {closing : Slot Place} {body : Slot Block}
    (formed : ∀ param, Slot.found param ∈ (params.map Separated.toList).getD [] → param.Formed)
    (h : (declared.declareFunction result name ((params.map Separated.toList).getD []) closing
      body).Gives declared') :
    (declared.declareFunction result name ((params.map Separated.toList).getD []) closing body).debug =
      (Decl.function result name opening params closing body).records declared.depth := by
  unfold declareFunction at h ⊢
  simp only [gives_bind] at h
  obtain ⟨ty, resolved, entered, enters, table, added, _, closed, block, found, table', checked, -⟩ := h
  obtain rfl := gives_require.mp found
  have size : table'.size - (declared.table.size + 1) =
      ((params.map Separated.toList).getD []).length + (declaratorsOf (block.items.items 0)).length := by
    obtain ⟨-, rfl⟩ := SymbolTable.gives_declare.mp enters
    obtain ⟨args, areArgs, same⟩ := params_of_gives formed rfl rfl (by simp) added
    have size : table.size = declared.table.size + 1 + args.length := by
      simp [SymbolTable.size, same, Nat.add_assoc, Nat.add_comm 1]
    rw [Block.size_of_check checked, size, areArgs.length_eq]
    omega
  rw [(ResultType.plain_resolve _ _).quiet.debug_bind resolved,
    (SymbolTable.quiet_declare _ _ _).debug_bind enters,
    (quiet_foldlM (Param.quiet_declare _ _) _ entered).debug_bind added,
    (quiet_requireMark _ _).debug_bind closed, (quiet_require _ _).debug_bind found,
    (Block.quiet_check _ _ _).debug_bind checked, size]
  rfl

end Declared

theorem Decl.debug_check {decl : Decl} {declared declared' : Declared} (formed : decl.Formed)
    (h : (decl.check declared).Gives declared') :
    (decl.check declared).debug = decl.records declared.depth := by
  cases decl with
  | struct => exact Declared.debug_declareStruct formed h
  | function result name opening params closing body =>
    obtain ⟨_, noted, h⟩ := gives_bind.mp h
    exact (result.quiet_noteStruct.debug_bind noted _).trans
      (Declared.debug_declareFunction (formed_params formed.1) h)
  | vars tried decl =>
    refine decl.base.quiet_noteStruct.bind fun _ => ?_
    refine (decl.base.plain_resolve _).quiet.bind fun _ => ?_
    refine (quiet_noteFunction tried _).bind fun _ => ?_
    exact (decl.quiet_declare _ _).bind fun table => quiet_pure _
  | missing tried instead => exact (quiet_noteFunction tried _).bind fun _ => quiet_unexpected _ _

theorem Decl.debug_foldlM {decls : List Decl} {declared declared' : Declared}
    (formed : ∀ decl ∈ decls, decl.Formed) (h : (decls.foldlM check declared).Gives declared') :
    (decls.foldlM check declared).debug = recordsFrom declared.depth decls := by
  induction decls generalizing declared with
  | nil => rfl
  | cons decl decls ih =>
    rw [List.foldlM_cons] at h ⊢
    obtain ⟨middle, checked, h⟩ := gives_bind.mp h
    obtain ⟨first, others⟩ := List.forall_mem_cons.mp formed
    obtain ⟨-, -, -, depth⟩ := Decl.declares_of_gives first checked
    rw [debug_bind checked, ih others h, Decl.debug_check first checked, depth]
    rfl

/-! ### Parameters -/

/-- The symbol of the definition of a function: it has an argument for each parameter, all of them at
the depth of the function. -/
structure Decl.Defines (decl : Decl) (depth : Nat) (function : Symbol) : Prop where
  named : decl.names.map At.value = [function.name]
  count : function.args.length = decl.parameters.length
  depth : ∀ arg ∈ function.args, arg.depth = depth

/-- A declaration behind a number of functions declares a function just if it is the definition of
one. -/
theorem Decl.Declares.defines {table : SymbolTable} {functions : Nat} {decl : Decl}
    {symbols : List Symbol} (h : decl.Declares table functions symbols) :
    (decl.functions = 1 ∧ ∃ function, symbols.filter (fun symbol => symbol.cls = .function) = [function] ∧
        decl.Defines (functions + 1) function) ∨
      decl.functions = 0 ∧ symbols.filter (fun symbol => symbol.cls = .function) = [] := by
  cases h with
  | struct => exact .inr ⟨rfl, rfl⟩
  | function _ areArgs =>
    refine .inl ⟨rfl, _, rfl, rfl, areArgs.length_eq.symm, fun arg mem => ?_⟩
    obtain ⟨param, -, isArg⟩ := exists_of_mem_right areArgs mem
    cases isArg
    rfl
  | vars _ variables' =>
    refine .inr ⟨rfl, List.filter_eq_nil_iff.mpr fun symbol mem => ?_⟩
    obtain ⟨declarator, -, name, ty, -, rfl⟩ := variables'.exists_of_mem symbol mem
    exact nofun

theorem Declarations.defines {table : SymbolTable} {functions : Nat} {decls : List Decl}
    {symbols : List Symbol} (h : Declarations table functions decls symbols) :
    List.Forall₂ (fun numbered => numbered.1.Defines numbered.2)
      ((decls.filter fun decl => decl.functions = 1).zipIdx (functions + 1))
      (symbols.filter fun symbol => symbol.cls = .function) := by
  induction h with
  | nil => exact .nil
  | @cons _ _ functions decl rest _ _ declares _ _ ih =>
    rw [List.filter_append]
    rcases declares.defines with ⟨one, function, only, defines⟩ | ⟨none, only⟩
    · rw [one] at ih
      rw [only, List.filter_cons_of_pos (by simp [one]), List.zipIdx_cons]
      exact .cons defines ih
    · rw [none] at ih
      rw [only, List.filter_cons_of_neg (by simp [none])]
      exact ih

/-! ### Programs -/

namespace Program

/-- What the analysis of an accepted program writes is about its structs and functions in order, and
then about the end. The functions in its table are those that are defined, and the parameters of each
have its number as their depth. -/
theorem debug_of_accepted (tokens : List Token) (program : Program)
    (accepted : (ofTokens tokens).result = .ok program) :
    Written tokens (decls tokens) ∧
    (ofTokens tokens).debug =
      Decl.recordsFrom 0 (decls tokens) ++ [.finished program.position tokens.length] ∧
    List.Forall₂ (fun numbered => numbered.1.Defines numbered.2)
      (((decls tokens).filter fun decl => decl.functions = 1).zipIdx 1)
      (program.table.symbols.filter fun symbol => symbol.cls = .function) := by
  have ends := ends_of_accepted accepted
  obtain ⟨written, isWritten⟩ := exists_written accepted
  obtain rfl := isWritten.decls_eq ends
  have given := gives_decls accepted
  obtain ⟨declared, checked, same⟩ := gives_bind.mp given
  refine ⟨isWritten, ?_, ?_⟩
  · rw [ofTokens_eq_decls ends, debug_bind given, position_of_accepted accepted]
    have written : (tableOfDecls (decls tokens)).debug = Decl.recordsFrom 0 (decls tokens) := by
      rw [tableOfDecls, debug_bind checked, Decl.debug_foldlM isWritten.formed checked]
      exact List.append_nil _
    rw [written]
    rfl
  · obtain ⟨symbols, declarations, table⟩ := declarations_of_gives isWritten.formed checked
    rw [gives_pure.mp same, table, SymbolTable.symbols_initial, List.filter_append]
    exact declarations.defines

/-- Of `struct P { int x, y; }; void f() {} int g(int a) { char b; { int c; } return a; }` there is a
record for each declaration. -/
theorem debug_of_accepted_nested :
    let tokens := [Kind.keyword .structKw, .identifier "P", .delimiter .leftBrace, .keyword .intKw,
      .identifier "x", .delimiter .comma, .identifier "y", .delimiter .semicolon,
      .delimiter .rightBrace, .delimiter .semicolon, .keyword .voidKw, .identifier "f",
      .delimiter .leftParen, .delimiter .rightParen, .delimiter .leftBrace, .delimiter .rightBrace,
      .keyword .intKw, .identifier "g", .delimiter .leftParen, .keyword .intKw, .identifier "a",
      .delimiter .rightParen, .delimiter .leftBrace, .keyword .charKw, .identifier "b",
      .delimiter .semicolon, .delimiter .leftBrace, .keyword .intKw, .identifier "c",
      .delimiter .semicolon, .delimiter .rightBrace, .keyword .returnKw, .identifier "a",
      .delimiter .semicolon, .delimiter .rightBrace, .endOfInput].map fun kind =>
        (⟨kind, ⟨0, 0⟩, 1⟩ : Token)
    ∃ program, (ofTokens tokens).result = .ok program ∧ (ofTokens tokens).debug =
      [.declaredStruct "P" 2, .declaredFunction "f" 1 0, .declaredFunction "g" 2 3,
        .finished 35 36] := by
  intro tokens
  obtain ⟨program, accepted⟩ : ∃ program, (ofTokens tokens).result = .ok program := ⟨_, rfl⟩
  obtain ⟨-, written, -⟩ := debug_of_accepted tokens program accepted
  refine ⟨program, accepted, written.trans ?_⟩
  rw [position_of_accepted accepted]
  rfl

end Program

end PlainC
