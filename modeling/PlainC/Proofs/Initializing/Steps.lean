import PlainC.Proofs.Machine.Runs
import PlainC.Proofs.Machine.Transition
import PlainC.Proofs.Visits.Basic

set_option autoImplicit false

/-!
The declarators on the way of the machine. A step takes the first one that is left or leaves all of
them as they are, so the machine comes to all of them in order.
-/

namespace PlainC

open Checked

/-! ### Declarators -/

def Item.declarators : Item → List Declarator
  | .decl varDecl => varDecl.declarators.toList
  | .stmt _ => []

/-- The declarators of variables among declarations and statements, in order. -/
def declaratorsOf (items : List (Nat × Item)) : List Declarator :=
  items.flatMap fun item => item.2.declarators

def Decl.declarators (decl : Decl) : List Declarator := declaratorsOf decl.items

@[simp] theorem declaratorsOf_nil : declaratorsOf [] = [] := rfl

@[simp] theorem declaratorsOf_cons (item : Nat × Item) (items : List (Nat × Item)) :
    declaratorsOf (item :: items) = item.2.declarators ++ declaratorsOf items := rfl

@[simp] theorem declaratorsOf_append (items items' : List (Nat × Item)) :
    declaratorsOf (items ++ items') = declaratorsOf items ++ declaratorsOf items' :=
  List.flatMap_append

theorem declaratorsOf_decls (decls : List VarDecl) :
    declaratorsOf (decls.map fun decl => (0, .decl decl)) =
      decls.flatMap fun decl => decl.declarators.toList := by
  rw [declaratorsOf, List.flatMap_map]
  rfl

namespace Machine

def Task.declarators : Task → List Declarator
  | items loops inner => declaratorsOf (inner.items loops)
  | stmt loops statement => declaratorsOf (statement.items loops)
  | endBlock _ => []

/-- The declarators in what the machine is in the middle of, behind those that are underway. -/
def Context.declarators : Context → List Declarator
  | global _ => []
  | struct _ _ _ members _ _ => members.flatMap fun decl => decl.declarators.toList
  | params _ _ _ _ (.found block) => declaratorsOf (block.items.items 0)
  | params _ _ _ _ (.missing _) => []
  | body _ _ _ tasks _ => tasks.flatMap Task.declarators

def Context.underway (context : Context) : List Declarator :=
  (context.pending.map Pending.declarators).getD []

namespace State

variable {s s' : State}

/-- The declarators that are left, in the order in which the machine comes to them. -/
def left (s : State) : List Declarator :=
  s.context.underway ++ s.context.declarators ++ s.decls.flatMap Decl.declarators

/-- The declarator that comes next, and its base type. -/
def next? (s : State) : Option (Base × Declarator) :=
  s.context.pending.bind fun pending =>
    pending.declarators.head?.map fun declarator => (pending.base, declarator)

theorem next?_iff {base : Base} {declarator : Declarator} : s.next? = some (base, declarator) ↔
    ∃ rest semicolon, s.context.pending = some ⟨base, declarator :: rest, semicolon⟩ := by
  unfold next?
  cases s.context.pending with
  | none => simp
  | some pending =>
    obtain ⟨base', declarators, semicolon⟩ := pending
    cases declarators <;> simp

theorem mem_left_of_next {base : Base} {declarator : Declarator}
    (next : s.next? = some (base, declarator)) : declarator ∈ s.left := by
  obtain ⟨rest, semicolon, underway⟩ := next?_iff.mp next
  simp [left, Context.underway, underway]

end State

/-! ### Steps -/

variable {s s' : State}

theorem pending_setPending_of_some {context : Context} {pending : Pending} (next : Option Pending)
    (underway : context.pending = some pending) : (context.setPending next).pending = next := by
  cases context with
  | params => cases underway
  | global | struct | body => rfl

theorem declarators_setPending (context : Context) (next : Option Pending) :
    (context.setPending next).declarators = context.declarators := by
  cases context <;> rfl

theorem VarDecl.declarators_of_enter {table : SymbolTable} {decl : VarDecl} {pending : Pending}
    (entered : (decl.enter table).Gives pending) :
    pending.declarators = decl.declarators.toList := by
  simp only [VarDecl.enter, gives_bind, gives_pure] at entered
  obtain ⟨base, -, rfl⟩ := entered
  rfl

/-- A task passes all declarators in it on: those of a declaration as underway, and the others with
the tasks that are left of it. -/
theorem Task.declarators_step {scope : FunctionScope} {table : SymbolTable} {task : Task}
    {next : Option Pending × List Task} (h : (task.step scope table).Gives next) :
    task.declarators =
      (next.1.map Pending.declarators).getD [] ++ next.2.flatMap Task.declarators := by
  cases task with
  | items loops inner =>
    cases inner with
    | nil =>
      obtain rfl := gives_pure.mp h
      rfl
    | decl varDecl rest =>
      simp only [Task.step, gives_bind, gives_pure] at h
      obtain ⟨pending, entered, rfl⟩ := h
      simp [declarators, Items.items, Item.declarators, VarDecl.declarators_of_enter entered]
    | stmt first rest =>
      obtain rfl := gives_pure.mp h
      simp [declarators, Items.items]
  | endBlock closing =>
    simp only [Task.step, gives_bind, gives_pure] at h
    obtain ⟨_, -, rfl⟩ := h
    rfl
  | stmt loops statement =>
    cases statement with
    | block =>
      obtain rfl := gives_pure.mp h
      simp [declarators, Stmt.items, Item.declarators]
    | ifThen | ifElse | whileLoop | forLoop | breakLoop | returnValue | empty | expr | missing =>
      simp only [Task.step, gives_bind, gives_pure] at h
      obtain ⟨_, -, rfl⟩ := h
      simp [declarators, Stmt.items, Item.declarators]

/-- A step takes the declarator that comes next, if one does, and leaves all others. -/
theorem left_step (h : s.step.Gives s') : s.left = (s.next?.map Prod.snd).toList ++ s'.left := by
  cases move_of_gives h with
  | declarator underway | leaveVars underway =>
    have behind (next) := pending_setPending_of_some next underway
    simp [State.left, State.next?, Context.underway, underway, behind, declarators_setPending]
  | enterStruct =>
    simp only [State.left, List.flatMap_cons, Decl.declarators, Decl.items, declaratorsOf_decls]
    rfl
  | @enterFunction _ _ _ _ _ _ _ body =>
    cases body <;> rfl
  | enterVars entered | enterMembers entered =>
    simp [State.left, State.next?, Context.underway, Context.pending, Context.declarators,
      Decl.declarators, Decl.items, Item.declarators, VarDecl.declarators_of_enter entered]
  | @parameter _ _ _ _ _ body => cases body <;> rfl
  | enterBody =>
    simp [State.left, State.next?, Context.underway, Context.pending, Context.declarators,
      Task.declarators]
  | task did =>
    simp [State.left, State.next?, Context.underway, Context.pending, Context.declarators,
      Task.declarators_step did]
  | finished | leaveStruct | leaveFunction => rfl

/-- At a declarator the step declares it, and there is nothing else that it checks. -/
theorem step_next {base : Base} {declarator : Declarator} (next : s.next? = some (base, declarator))
    (symbols : List Symbol) :
    (∃ s', s.step.Gives s' ∧ s'.table.symbols = symbols) ↔ ∃ table,
      (declarator.declare s.context.region base s.table).Gives table ∧ table.symbols = symbols := by
  obtain ⟨rest, semicolon, underway⟩ := State.next?_iff.mp next
  simp only [State.step, underway, Pending.step, gives_bind, gives_pure]
  constructor
  · rintro ⟨_, ⟨_, ⟨table, declared, rfl⟩, rfl⟩, rfl⟩
    exact ⟨table, declared, rfl⟩
  · rintro ⟨table, declared, rfl⟩
    exact ⟨_, ⟨_, ⟨table, declared, rfl⟩, rfl⟩, rfl⟩

/-! ### Runs -/

variable {decls : List Decl} {past : List Declaration}

/-- A declarator was come to, and it passed. -/
def Meets (decls : List Decl) (declarator : Declarator) : Prop :=
  ∃ past s s' base, Reachable decls past s ∧ s.next? = some (base, declarator) ∧ s.step.Gives s'

/-- All declarators of the declarations are left, or were come to before. -/
theorem Reachable.left_or_meets (h : Reachable decls past s) :
    ∀ declarator ∈ decls.flatMap Decl.declarators,
      declarator ∈ s.left ∨ Meets decls declarator := by
  induction h with
  | start => exact fun declarator among => .inl among
  | @step past s s' reached given ih =>
    intro declarator among
    rcases ih declarator among with left | meets
    · rw [left_step given, List.mem_append] at left
      rcases left with now | later
      · rw [Option.mem_toList, Option.map_eq_some_iff] at now
        obtain ⟨⟨base, _⟩, next, rfl⟩ := now
        exact .inr ⟨past, s, s', base, reached, next, given⟩
      · exact .inl later
    · exact .inr meets

/-- What is left is part of the declarations. -/
theorem Reachable.left_subset (h : Reachable decls past s) :
    s.left ⊆ decls.flatMap Decl.declarators := by
  induction h with
  | start => exact List.Subset.refl _
  | step reached given ih =>
    intro declarator among
    refine ih ?_
    rw [left_step given]
    exact List.mem_append_right _ among

theorem State.Done.left_eq (done : s.Done) : s.left = [] := by
  obtain ⟨context, table, functions, decls⟩ := s
  obtain ⟨rfl, rfl⟩ := done
  rfl

end Machine

end PlainC
