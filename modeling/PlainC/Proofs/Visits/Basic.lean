import PlainC.Proofs.Declaring.Redefinition
import PlainC.Proofs.Program.Front

set_option autoImplicit false

/-!
The declarations of variables and the statements that the check of a program comes to, each with
what is known where it stands: the region or the function, the number of loops around it, and the
table. Behind what is refused there are no more of them.
-/

namespace PlainC

namespace Checked

variable {α β : Type}

/-- What stands behind a check, if it passes. -/
def behind (x : Checked α) (next : α → List β) : List β :=
  match x.result with
  | .ok a => next a
  | .error _ => []

variable {x : Checked α} {next : α → List β}

theorem behind_of_gives {a : α} (h : x.Gives a) : x.behind next = next a := by
  rw [behind, h]

theorem behind_of_fails {fault : Fault} (h : x.result = .error fault) : x.behind next = [] := by
  rw [behind, h]

theorem mem_behind {b : β} : b ∈ x.behind next ↔ ∃ a, x.Gives a ∧ b ∈ next a := by
  unfold behind Gives
  cases x.result <;> simp

end Checked

/-- A declaration of variables or a statement. -/
inductive Item where
  | decl (varDecl : VarDecl)
  | stmt (stmt : Stmt)

/-- A declaration of variables, or a statement of a function, where the check comes to it: inside of
a number of loops, with a table. -/
inductive Visit where
  | decl (region : Region) (loops : Nat) (table : SymbolTable) (varDecl : VarDecl)
  | stmt (scope : FunctionScope) (loops : Nat) (table : SymbolTable) (stmt : Stmt)

/-- The place of the first lexeme. -/
def VarDecl.start (decl : VarDecl) : Place := decl.base.start

/-- The place of the first lexeme, or of what stands where a statement should. -/
def Stmt.start : Stmt → Place
  | .block opening _ _ => opening
  | .ifThen word _ _ | .ifElse word _ _ _ _ => word
  | .whileLoop word _ _ | .forLoop word _ _ => word
  | .breakLoop word _ | .returnValue word _ _ => word
  | .empty semicolon => semicolon
  | .expr value _ => value.start
  | .missing instead => instead.place

namespace Visit

/-- Where variables are declared there. -/
def region : Visit → Region
  | decl place _ _ _ => place
  | stmt scope _ _ _ => .body scope.depth

def loops : Visit → Nat
  | decl _ count _ _ | stmt _ count _ _ => count

def table : Visit → SymbolTable
  | decl _ _ known _ | stmt _ _ known _ => known

def start : Visit → Place
  | decl _ _ _ varDecl => varDecl.start
  | stmt _ _ _ statement => statement.start

/-- What stands there, with the number of loops around it. -/
def item : Visit → Nat × Item
  | decl _ count _ varDecl => (count, .decl varDecl)
  | stmt _ count _ statement => (count, .stmt statement)

/-- The check of what stands there. -/
def check : Visit → Checked SymbolTable
  | decl place _ known varDecl => varDecl.declare place known
  | stmt scope count known statement => statement.check scope count known

end Visit

/-! ### Trees -/

mutual

/-- The statement and all declarations and statements in it, each with the number of loops around
it: those around the statement, and all whose bodies it is in. -/
def Stmt.items (loops : Nat) : Stmt → List (Nat × Item)
  | stmt@(.block _ inner _) => (loops, .stmt stmt) :: inner.items loops
  | stmt@(.ifThen _ _ body) => (loops, .stmt stmt) :: body.items loops
  | stmt@(.ifElse _ _ body _ otherwise) =>
    (loops, .stmt stmt) :: (body.items loops ++ otherwise.items loops)
  | stmt@(.whileLoop _ _ body) | stmt@(.forLoop _ _ body) =>
    (loops, .stmt stmt) :: body.items (loops + 1)
  | stmt => [(loops, .stmt stmt)]

def Items.items (loops : Nat) : Items → List (Nat × Item)
  | .nil => []
  | .decl decl rest => (loops, .decl decl) :: rest.items loops
  | .stmt stmt rest => stmt.items loops ++ rest.items loops

end

namespace Decl

/-- The declarations of variables and the statements in a declaration. -/
def items : Decl → List (Nat × Item)
  | struct _ _ _ members _ _ => members.map fun decl => (0, .decl decl)
  | function _ _ _ _ _ (.found block) => block.items.items 0
  | function _ _ _ _ _ (.missing _) => []
  | vars _ decl => [(0, .decl decl)]
  | missing _ _ => []

end Decl

/-! ### Visits -/

mutual

/-- What the check of a statement comes to. -/
def Stmt.visits (scope : FunctionScope) (loops : Nat) (table : SymbolTable) : Stmt → List Visit
  | stmt@(.block _ inner _) =>
    .stmt scope loops table stmt :: inner.visits scope loops table
  | stmt@(.ifThen _ condition body) =>
    .stmt scope loops table stmt ::
      (condition.check table).behind fun _ => body.visits scope loops table
  | stmt@(.ifElse _ condition body _ otherwise) =>
    .stmt scope loops table stmt ::
      (condition.check table).behind fun _ =>
        body.visits scope loops table ++
          (body.check scope loops table).behind fun table => otherwise.visits scope loops table
  | stmt@(.whileLoop _ condition body) =>
    .stmt scope loops table stmt ::
      (condition.check table).behind fun _ => body.visits scope (loops + 1) table
  | stmt@(.forLoop _ header body) =>
    .stmt scope loops table stmt ::
      (header.check table).behind fun _ => body.visits scope (loops + 1) table
  | stmt => [.stmt scope loops table stmt]

def Items.visits (scope : FunctionScope) (loops : Nat) (table : SymbolTable) :
    Items → List Visit
  | .nil => []
  | .decl decl rest =>
    .decl (.body scope.depth) loops table decl ::
      (decl.declare (.body scope.depth) table).behind fun table => rest.visits scope loops table
  | .stmt stmt rest =>
    stmt.visits scope loops table ++
      (stmt.check scope loops table).behind fun table => rest.visits scope loops table

end

/-- What the check of some declarations of variables comes to. -/
def VarDecl.visits (region : Region) (table : SymbolTable) : List VarDecl → List Visit
  | [] => []
  | decl :: decls =>
    .decl region 0 table decl ::
      (decl.declare region table).behind fun table => VarDecl.visits region table decls

namespace Declared

/-- What the check of the members of a struct comes to. -/
def visitsOfStruct (declared : Declared) (name : Name) (members : List VarDecl) : List Visit :=
  let index := declared.table.size
  match declared.table.find? name.value with
  | some _ => []
  | none =>
    (declared.table.declare name (topLevelSymbol name .struct (.struct index))).behind fun table =>
      VarDecl.visits (.members index name.value) table members

/-- What the check of the body of a function comes to. -/
def visitsOfFunction (declared : Declared) (result : ResultType) (name : Name)
    (params : List (Slot Param)) (closing : Slot Place) (body : Slot Block) : List Visit :=
  let index := declared.table.size
  let depth := declared.depth + 1
  (result.resolve declared.table).behind fun ty =>
    (declared.table.declare name (topLevelSymbol name .function ty)).behind fun table =>
      (params.foldlM (Param.declare index depth) table).behind fun table =>
        (Checked.requireMark .rightParen closing).behind fun _ =>
          (Checked.require (.mark .leftBrace) body).behind fun block =>
            block.items.visits ⟨name.value, ty, depth⟩ 0 table

end Declared

/-- What the check of a declaration comes to. -/
def Decl.visits (declared : Declared) : Decl → List Visit
  | struct _ name _ members _ _ => declared.visitsOfStruct name members
  | function result name _ params closing body =>
    declared.visitsOfFunction result name ((params.map Separated.toList).getD []) closing body
  | vars _ decl => [.decl .topLevel 0 declared.table decl]
  | missing _ _ => []

namespace Program

/-- What the check of declarations comes to. -/
def visitsFrom (declared : Declared) : List Decl → List Visit
  | [] => []
  | decl :: decls =>
    decl.visits declared ++ (decl.check declared).behind fun declared => visitsFrom declared decls

/-- The declarations that tokens are read as. If they do not end with the end of input, then they are
not read. -/
def decls (tokens : List Token) : List Decl :=
  let lexemes := Lexeme.number 0 tokens
  match lexemes.getLast? with
  | none => []
  | some final =>
    if final.value ≠ .endOfInput then []
    else
      let last := lexemes[(front tokens).length]?.getD final
      (Decl.parseAll last (front tokens)).1

/-- What the analysis of tokens comes to. -/
def visits (tokens : List Token) : List Visit :=
  visitsFrom ⟨.initial, 0⟩ (decls tokens)

end Program

/-! ### Checks and visits -/

/-- A check comes to the visits, which are the first ones of the items; if it passes, they are all of
them. If what stands there is refused, then so is the whole. -/
structure Checked.Visits {α : Type} (x : Checked α) (visits : List Visit)
    (items : List (Nat × Item)) : Prop where
  first : visits.map Visit.item <+: items
  all : ∀ a, x.Gives a → visits.map Visit.item = items
  fails : ∀ visit ∈ visits, ∀ fault, visit.check.result = .error fault → x.result = .error fault

namespace Checked

variable {α β : Type} {x : Checked α} {next : α → Checked β} {vs : List Visit}
  {ws : α → List Visit} {items items' : List (Nat × Item)}

theorem visits_nil (x : Checked α) : x.Visits [] [] :=
  ⟨List.prefix_rfl, fun _ _ => rfl, fun _ => nofun⟩

/-- A check that never passes need not come to anything. -/
theorem visits_of_fails (fails : ∀ a, ¬x.Gives a) : x.Visits [] items :=
  ⟨List.nil_prefix, fun a given => absurd given (fails a), fun _ => nofun⟩

theorem Visits.bind (h : x.Visits vs items)
    (h' : ∀ a, x.Gives a → (next a).Visits (ws a) items') :
    (x >>= next).Visits (vs ++ x.behind ws) (items ++ items') := by
  cases given : x.result with
  | ok a =>
    have later := h' a given
    have same := h.all a given
    rw [behind_of_gives given]
    refine ⟨?_, fun b given' => ?_, fun visit among fault failed => ?_⟩
    · rw [List.map_append, same]
      exact (List.prefix_append_right_inj items).mpr later.first
    · obtain ⟨a', given'', given'⟩ := gives_bind.mp given'
      obtain rfl := given''.unique given
      rw [List.map_append, same, later.all b given']
    · rw [result_bind_of_gives given]
      rcases List.mem_append.mp among with among | among
      · exact absurd (given.symm.trans (h.fails visit among fault failed)) nofun
      · exact later.fails visit among fault failed
  | error fault =>
    rw [behind_of_fails given, List.append_nil]
    refine ⟨h.first.trans (List.prefix_append _ _), fun b given' => ?_, ?_⟩
    · obtain ⟨a, given', -⟩ := gives_bind.mp given'
      exact absurd (given.symm.trans given') nofun
    · intro visit among fault' failed
      exact result_bind_of_fails (h.fails visit among fault' failed) next

/-- Behind a check that comes to nothing. -/
theorem Visits.behind (h : ∀ a, x.Gives a → (next a).Visits (ws a) items) :
    (x >>= next).Visits (x.behind ws) items :=
  (visits_nil x).bind h

/-- In front of a check that comes to nothing. -/
theorem Visits.before (h : x.Visits vs items) (next : α → Checked β) :
    (x >>= next).Visits vs items := by
  have whole : (x >>= next).Visits (vs ++ x.behind fun _ => []) (items ++ []) :=
    h.bind fun a _ => visits_nil (next a)
  have none : x.behind (fun _ => ([] : List Visit)) = [] := by
    unfold Checked.behind
    cases x.result <;> rfl
  simpa only [none, List.append_nil] using whole

/-- Behind a check that is known to pass. -/
theorem Visits.passed {a : α} (given : x.Gives a) (h : (next a).Visits vs items) :
    (x >>= next).Visits vs items := by
  have whole : (x >>= next).Visits (x.behind fun _ => vs) items := .behind fun a' given' => by
    obtain rfl := given'.unique given
    exact h
  rwa [behind_of_gives given] at whole

/-- The first visit is that of the whole. -/
theorem Visits.cons {x : Checked SymbolTable} {vs : List Visit} (h : x.Visits vs items)
    (visit : Visit) (whole : visit.check = x) :
    x.Visits (visit :: vs) (visit.item :: items) := by
  refine ⟨?_, fun a given => ?_, ?_⟩
  · exact List.cons_prefix_cons.mpr ⟨rfl, h.first⟩
  · rw [List.map_cons, h.all a given]
  · intro visit' among fault failed
    rcases List.mem_cons.mp among with rfl | among
    · rw [← whole, failed]
    · exact h.fails visit' among fault failed

end Checked

open Checked

section

variable (scope : FunctionScope)

mutual

theorem Stmt.visits_check : ∀ (stmt : Stmt) (loops : Nat) (table : SymbolTable),
    (stmt.check scope loops table).Visits (stmt.visits scope loops table) (stmt.items loops)
  | .block opening inner closing, loops, table => by
    refine Visits.cons ?_ (.stmt scope loops table (.block opening inner closing)) rfl
    simp only [Stmt.check]
    exact (Items.visits_check inner loops table).before _
  | .ifThen word condition body, loops, table => by
    refine Visits.cons ?_ (.stmt scope loops table (.ifThen word condition body)) rfl
    simp only [Stmt.check]
    exact .behind fun _ _ => Stmt.visits_check body loops table
  | .ifElse word condition body elseWord otherwise, loops, table => by
    refine Visits.cons ?_ (.stmt scope loops table (.ifElse word condition body elseWord otherwise)) rfl
    simp only [Stmt.check]
    exact .behind fun _ _ => (Stmt.visits_check body loops table).bind fun table _ =>
      Stmt.visits_check otherwise loops table
  | .whileLoop word condition body, loops, table => by
    refine Visits.cons ?_ (.stmt scope loops table (.whileLoop word condition body)) rfl
    simp only [Stmt.check]
    exact .behind fun _ _ => Stmt.visits_check body (loops + 1) table
  | .forLoop word header body, loops, table => by
    refine Visits.cons ?_ (.stmt scope loops table (.forLoop word header body)) rfl
    simp only [Stmt.check]
    exact .behind fun _ _ => Stmt.visits_check body (loops + 1) table
  | .breakLoop word semicolon, loops, table =>
    (visits_nil _).cons (.stmt scope loops table (.breakLoop word semicolon)) rfl
  | .returnValue word value semicolon, loops, table =>
    (visits_nil _).cons (.stmt scope loops table (.returnValue word value semicolon)) rfl
  | .empty semicolon, loops, table =>
    (visits_nil _).cons (.stmt scope loops table (.empty semicolon)) rfl
  | .expr expr semicolon, loops, table =>
    (visits_nil _).cons (.stmt scope loops table (.expr expr semicolon)) rfl
  | .missing instead, loops, table =>
    (visits_nil _).cons (.stmt scope loops table (.missing instead)) rfl

theorem Items.visits_check : ∀ (inner : Items) (loops : Nat) (table : SymbolTable),
    (inner.check scope loops table).Visits (inner.visits scope loops table) (inner.items loops)
  | .nil, loops, table => visits_nil _
  | .decl decl rest, loops, table => by
    simp only [Items.check]
    have first := (visits_nil (decl.declare (.body scope.depth) table)).cons
      (.decl (.body scope.depth) loops table decl) rfl
    exact first.bind fun table _ => Items.visits_check rest loops table
  | .stmt stmt rest, loops, table => by
    simp only [Items.check]
    exact (Stmt.visits_check stmt loops table).bind fun table _ =>
      Items.visits_check rest loops table

end

end

theorem VarDecl.visits_foldlM (region : Region) (decls : List VarDecl) (table : SymbolTable) :
    (decls.foldlM (VarDecl.declare region) table).Visits (visits region table decls)
      (decls.map fun decl => (0, .decl decl)) := by
  induction decls generalizing table with
  | nil => exact visits_nil _
  | cons decl decls ih =>
    rw [List.foldlM_cons]
    have first := (visits_nil (decl.declare region table)).cons (.decl region 0 table decl) rfl
    exact first.bind fun table _ => ih table

theorem Declared.visits_declareStruct (declared : Declared) (name : Name) (members : List VarDecl)
    (closing semicolon : Slot Place) :
    (declared.declareStruct name members closing semicolon).Visits
      (declared.visitsOfStruct name members) (members.map fun decl => (0, .decl decl)) := by
  unfold declareStruct visitsOfStruct
  cases declared.table.find? name.value with
  | some previous =>
    refine visits_of_fails fun _ given => ?_
    simp [redefined] at given
  | none =>
    simp only
    refine Visits.behind ?_
    intro table _
    exact (VarDecl.visits_foldlM _ members table).before _

theorem Declared.visits_declareFunction (declared : Declared) (result : ResultType) (name : Name)
    (opening : Place) (params : Option (Separated (Slot Param))) (closing : Slot Place)
    (body : Slot Block) :
    (declared.declareFunction result name ((params.map Separated.toList).getD []) closing body).Visits
      (declared.visitsOfFunction result name ((params.map Separated.toList).getD []) closing body)
      (Decl.function result name opening params closing body).items := by
  unfold declareFunction visitsOfFunction
  simp only
  refine Visits.behind ?_
  intro ty _
  refine Visits.behind ?_
  intro table _
  refine Visits.behind ?_
  intro table' _
  refine Visits.behind ?_
  intro _ _
  refine Visits.behind ?_
  intro block given
  obtain rfl := gives_require.mp given
  refine Visits.before ?_ _
  unfold Block.check
  exact (Items.visits_check _ block.items 0 table').before _

theorem Decl.visits_vars (tried : Nat) (varDecl : VarDecl) (declared : Declared) :
    ((vars tried varDecl).check declared).Visits ((vars tried varDecl).visits declared)
      (vars tried varDecl).items := by
  refine Visits.passed varDecl.base.gives_noteStruct ?_
  refine ⟨List.prefix_rfl, fun _ _ => rfl, fun visit among fault failed => ?_⟩
  obtain rfl := List.mem_singleton.mp among
  -- the base type is resolved in front of the declaration, and once more in it
  cases given : (varDecl.base.resolve declared.table).result with
  | error fault' =>
    have failed' : (varDecl.declare .topLevel declared.table).result = .error fault' :=
      result_bind_of_fails given _
    obtain rfl := Except.error.inj (failed.symm.trans failed')
    exact result_bind_of_fails given _
  | ok base =>
    rw [result_bind_of_gives given, result_bind_of_gives (gives_noteFunction _ _)]
    exact result_bind_of_fails failed _

theorem Decl.visits_check (decl : Decl) (declared : Declared) :
    (decl.check declared).Visits (decl.visits declared) decl.items := by
  cases decl with
  | struct word name opening members closing semicolon =>
    exact declared.visits_declareStruct name members closing semicolon
  | function result name opening params closing body =>
    exact .passed result.gives_noteStruct
      (declared.visits_declareFunction result name opening params closing body)
  | vars tried varDecl => exact visits_vars tried varDecl declared
  | missing tried instead => exact visits_nil _

namespace Program

theorem visits_foldlM (decls : List Decl) (declared : Declared) :
    (decls.foldlM Decl.check declared).Visits (visitsFrom declared decls)
      (decls.flatMap Decl.items) := by
  induction decls generalizing declared with
  | nil => exact visits_nil _
  | cons decl decls ih =>
    rw [List.foldlM_cons]
    exact (decl.visits_check declared).bind fun declared _ => ih declared

theorem visits_tableOfDecls (decls : List Decl) :
    (tableOfDecls decls).Visits (visitsFrom ⟨.initial, 0⟩ decls) (decls.flatMap Decl.items) :=
  (visits_foldlM decls ⟨.initial, 0⟩).before _

/-- The declarations that tokens are written from are those that they are read as. -/
theorem Written.decls_eq {tokens : List Token} {written : List Decl} (h : Written tokens written)
    (ends : Ends tokens) : decls tokens = written := by
  obtain ⟨last, found, isEnd⟩ := ends_iff.mp ends
  simp only [decls, found, isEnd, ne_eq, not_true_eq_false, if_false]
  exact h.parseAll _

/-- The analysis of tokens is the check of the declarations that they are read as. -/
theorem ofTokens_eq_decls {tokens : List Token} (ends : Ends tokens) :
    ofTokens tokens = tableOfDecls (decls tokens) >>= fun table => do
      Logged.write (.finished (front tokens).length tokens.length)
      return ⟨table, (front tokens).length⟩ := by
  obtain ⟨last, found, isEnd⟩ := ends_iff.mp ends
  simp only [ofTokens, decls, found, isEnd, ne_eq, not_true_eq_false, if_false]
  rfl

theorem ofTokens_result_decls {tokens : List Token} (ends : Ends tokens) :
    (ofTokens tokens).result = (tableOfDecls (decls tokens)).result.map
      fun table => ⟨table, (front tokens).length⟩ := by
  rw [ofTokens_eq_decls ends, Logged.result_bind]
  cases (tableOfDecls (decls tokens)).result <;> rfl

variable {tokens : List Token} {program : Program}

theorem gives_decls (accepted : (ofTokens tokens).result = .ok program) :
    (tableOfDecls (decls tokens)).Gives program.table := by
  rw [ofTokens_result_decls (ends_of_accepted accepted)] at accepted
  obtain ⟨table, given, rfl⟩ := result_map_eq_ok.mp accepted
  exact given

/-- The check of what is accepted comes to all declarations of variables and all statements, and
passes each of them. -/
theorem visits_of_accepted (accepted : (ofTokens tokens).result = .ok program) :
    (visits tokens).map Visit.item = (decls tokens).flatMap Decl.items ∧
      ∀ visit ∈ visits tokens, ∃ table, visit.check.Gives table := by
  have given := gives_decls accepted
  have visits := visits_tableOfDecls (decls tokens)
  refine ⟨visits.all _ given, fun visit among => ?_⟩
  cases checked : visit.check.result with
  | ok table => exact ⟨table, checked⟩
  | error fault => exact absurd (given.symm.trans (visits.fails visit among fault checked)) nofun

end Program

end PlainC
