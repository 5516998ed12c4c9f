import PlainC.Proofs.Machine.Basic

set_option autoImplicit false

/-!
The machine does what the recursive check does: it gets to the same symbol table or to the same
fault.
-/

namespace PlainC

open Machine

namespace Machine

/-- The machine gets from a state to another one, or to a fault. -/
inductive Runs : State → Except Fault State → Prop
  | done {s} : Runs s (.ok s)
  | fail {s fault} : s.step.result = .error fault → Runs s (.error fault)
  | step {s s' outcome} : s.step.Gives s' → Runs s' outcome → Runs s outcome

namespace Runs

variable {s s' : State} {outcome : Except Fault State} {α : Type}

theorem trans (first : Runs s (.ok s')) (next : Runs s' outcome) : Runs s outcome := by
  generalize same : Except.ok s' = middle at first
  induction first with
  | done =>
    obtain rfl := Except.ok.inj same
    exact next
  | fail => cases same
  | step given _ ih => exact .step given (ih same)

/-- A part of a computation that the machine does, and then the rest. -/
theorem bind {x : Checked α} {f : α → State} {rest : α → Checked State}
    (first : Runs s (x >>= fun a => pure (f a)).result)
    (next : ∀ a, Runs (f a) (rest a).result) : Runs s (x >>= rest).result := by
  rw [Logged.result_bind] at first ⊢
  cases given : x.result with
  | ok a =>
    rw [given] at first
    exact first.trans (next a)
  | error fault =>
    rw [given] at first
    exact first

/-- A step of the machine that is not one of the computation. -/
theorem pass (s' : State) (step : s.step = pure s') (next : Runs s' outcome) : Runs s outcome :=
  .step (by simp [step]) next

end Runs

/-- What a step computes is the beginning of a computation, and the machine does the rest of it. -/
def Leads (first whole : Checked State) : Prop :=
  match first.result with
  | .ok s => Runs s whole.result
  | .error fault => whole.result = .error fault

namespace Leads

variable {s : State} {α : Type}

theorem pure {whole : Checked State} (rest : Runs s whole.result) : Leads (Pure.pure s) whole :=
  rest

theorem bind {x : Checked α} {first whole : α → Checked State}
    (rest : ∀ a, Leads (first a) (whole a)) : Leads (x >>= first) (x >>= whole) := by
  unfold Leads
  rw [Logged.result_bind, Logged.result_bind]
  cases given : x.result with
  | ok a => exact rest a
  | error fault => rfl

theorem refused {x : Checked α} {fault : Fault} (refused : x.result = .error fault)
    {first whole : α → Checked State} : Leads (x >>= first) (x >>= whole) := by
  unfold Leads
  rw [Logged.result_bind, Logged.result_bind, refused]
  rfl

theorem runs {whole : Checked State} (step : Leads s.step whole) : Runs s whole.result := by
  unfold Leads at step
  cases given : s.step.result with
  | ok s' =>
    rw [given] at step
    exact .step given step
  | error fault =>
    rw [given] at step
    rw [step]
    exact .fail given

end Leads

/-- A part of a computation that the machine does in one step, and then the rest. -/
theorem Runs.head {s : State} {α : Type} {x : Checked α} {f : α → State}
    {rest : α → Checked State} (step : s.step = x >>= fun a => pure (f a))
    (next : ∀ a, Runs (f a) (rest a).result) : Runs s (x >>= rest).result :=
  Leads.runs (step ▸ .bind fun a => .pure (next a))

/-! ### Declarations of variables -/

/-- The rest of a declaration of variables. -/
def Pending.finish (region : Region) (table : SymbolTable) (pending : Pending) :
    Checked SymbolTable := do
  let table ← pending.declarators.foldlM (Declarator.declare region pending.base) table
  Checked.requireMark .semicolon pending.semicolon
  return table

theorem declare_eq (region : Region) (table : SymbolTable) (decl : VarDecl) :
    decl.declare region table = decl.enter table >>= Pending.finish region table := by
  simp [VarDecl.declare, VarDecl.enter, Pending.finish]

/-- Variables are declared wherever there can be a declaration of them. -/
theorem runs_finish (context : Context) (here : ∀ p, (context.setPending p).pending = p)
    (pending : Pending) (table : SymbolTable) (functions : Nat) (decls : List Decl) :
    Runs ⟨context.setPending (some pending), table, functions, decls⟩
      (pending.finish context.region table >>= fun table =>
        pure ⟨context.setPending none, table, functions, decls⟩).result := by
  obtain ⟨base, declarators, semicolon⟩ := pending
  have region (p : Option Pending) : (context.setPending p).region = context.region := by
    cases context <;> rfl
  have setPending (p q : Option Pending) :
      (context.setPending p).setPending q = context.setPending q := by
    cases context <;> rfl
  induction declarators generalizing table with
  | nil =>
    simp only [Pending.finish, List.foldlM_nil, pure_bind, bind_assoc]
    refine Runs.head (f := fun _ => ⟨context.setPending none, table, functions, decls⟩) ?_
      fun _ => .done
    simp [State.step, here, Pending.step, setPending]
  | cons declarator declarators ih =>
    simp only [Pending.finish, List.foldlM_cons, bind_assoc]
    refine Runs.head (f := fun table =>
      ⟨context.setPending (some ⟨base, declarators, semicolon⟩), table, functions, decls⟩) ?_ ?_
    · simp [State.step, here, Pending.step, region, setPending]
    · intro table
      simpa [Pending.finish] using ih table

/-! ### Statements -/

section

variable (index : Nat) (scope : FunctionScope) (functions : Nat) (decls : List Decl)

/-- The machine in the body of a function. -/
def inBody (closing : Slot Place) (pending : Option Pending) (tasks : List Task)
    (table : SymbolTable) : State :=
  ⟨.body index scope pending tasks closing, table, functions, decls⟩

variable {closing : Slot Place} {table : SymbolTable} {task : Task} {tasks : List Task}

theorem step_task : (inBody index scope functions decls closing none (task :: tasks) table).step =
    task.step scope table >>= fun next =>
      pure (inBody index scope functions decls closing next.1 (next.2 ++ tasks) table) := rfl

/-- A statement that declares nothing and contains no other statement is done in one step. -/
theorem runs_simple {loops : Nat} {stmt : Stmt} (check : Checked Unit)
    (same : stmt.check scope loops table = check >>= fun _ => pure table)
    (step : Task.step scope table (.stmt loops stmt) = check >>= fun _ => pure (none, [])) :
    Runs (inBody index scope functions decls closing none (.stmt loops stmt :: tasks) table)
      (stmt.check scope loops table >>= fun table =>
        pure (inBody index scope functions decls closing none tasks table)).result := by
  rw [same, bind_assoc]
  refine Runs.head (f := fun _ => inBody index scope functions decls closing none tasks table) ?_
    fun _ => by simpa using .done
  simp [step_task, step]

end

section

variable {index : Nat} {scope : FunctionScope} {functions : Nat} {decls : List Decl}
  {closing : Slot Place}

mutual

theorem runs_stmt : ∀ (stmt : Stmt) {loops : Nat} {table : SymbolTable} {tasks : List Task},
    Runs (inBody index scope functions decls closing none (.stmt loops stmt :: tasks) table)
      (stmt.check scope loops table >>= fun table =>
        pure (inBody index scope functions decls closing none tasks table)).result
  | .block _ inner mark, loops, table, tasks => by
    -- the brace is checked behind the items, so it is a task of its own
    refine .pass (inBody index scope functions decls closing none
      (.items loops inner :: .endBlock mark :: tasks) table) (by simp [step_task, Task.step]) ?_
    simp only [Stmt.check, bind_assoc]
    refine .bind (runs_items inner) fun table => ?_
    refine Runs.head (f := fun _ => inBody index scope functions decls closing none tasks table)
      (by simp [step_task, Task.step]) fun _ => by simpa using .done
  | .ifThen _ condition body, loops, table, tasks => by
    simp only [Stmt.check, bind_assoc]
    exact Runs.head (f := fun _ => inBody index scope functions decls closing none
      (.stmt loops body :: tasks) table) (by simp [step_task, Task.step]) fun _ => runs_stmt body
  | .ifElse _ condition body _ otherwise, loops, table, tasks => by
    simp only [Stmt.check, bind_assoc]
    refine Runs.head (f := fun _ => inBody index scope functions decls closing none
      (.stmt loops body :: .stmt loops otherwise :: tasks) table)
      (by simp [step_task, Task.step]) fun _ => ?_
    exact .bind (runs_stmt body) fun table => runs_stmt otherwise
  | .whileLoop _ condition body, loops, table, tasks => by
    simp only [Stmt.check, bind_assoc]
    exact Runs.head (f := fun _ => inBody index scope functions decls closing none
      (.stmt (loops + 1) body :: tasks) table) (by simp [step_task, Task.step])
      fun _ => runs_stmt body
  | .forLoop _ header body, loops, table, tasks => by
    simp only [Stmt.check, bind_assoc]
    exact Runs.head (f := fun _ => inBody index scope functions decls closing none
      (.stmt (loops + 1) body :: tasks) table) (by simp [step_task, Task.step])
      fun _ => runs_stmt body
  | .breakLoop word semicolon, loops, table, tasks =>
    runs_simple index scope functions decls
      (do
        if loops = 0 then Checked.violate .breakOutsideLoop word
        Checked.requireMark .semicolon semicolon)
      (by by_cases outside : loops = 0 <;> simp [Stmt.check, outside])
      (by by_cases outside : loops = 0 <;> simp [Task.step, Stmt.check, outside])
  | .returnValue word value semicolon, loops, table, tasks =>
    runs_simple index scope functions decls
      (do
        scope.checkReturn table word value
        Checked.requireMark .semicolon semicolon)
      (by simp [Stmt.check]) (by simp [Task.step, Stmt.check])
  | .empty _, loops, table, tasks =>
    runs_simple index scope functions decls (pure ()) (by simp [Stmt.check])
      (by simp [Task.step, Stmt.check])
  | .expr expr semicolon, loops, table, tasks =>
    runs_simple index scope functions decls
      (do
        expr.checkUnused table
        Checked.requireMark .semicolon semicolon)
      (by simp [Stmt.check]) (by simp [Task.step, Stmt.check])
  | .missing instead, loops, table, tasks =>
    runs_simple index scope functions decls (Checked.unexpected .statement instead) rfl rfl

theorem runs_items : ∀ (items : Items) {loops : Nat} {table : SymbolTable} {tasks : List Task},
    Runs (inBody index scope functions decls closing none (.items loops items :: tasks) table)
      (items.check scope loops table >>= fun table =>
        pure (inBody index scope functions decls closing none tasks table)).result
  | .nil, loops, table, tasks => by
    refine .pass (inBody index scope functions decls closing none tasks table)
      (by simp [step_task, Task.step]) ?_
    simpa [Items.check] using .done
  | .decl varDecl rest, loops, table, tasks => by
    simp only [Items.check, declare_eq, bind_assoc]
    refine Runs.head (f := fun pending => inBody index scope functions decls closing (some pending)
      (.items loops rest :: tasks) table) (by simp [step_task, Task.step]) fun pending => ?_
    have declared := runs_finish (.body index scope none (.items loops rest :: tasks) closing)
      (fun _ => rfl) pending table functions decls
    exact .bind declared fun table => runs_items rest
  | .stmt first rest, loops, table, tasks => by
    refine .pass (inBody index scope functions decls closing none
      (.stmt loops first :: .items loops rest :: tasks) table) (by simp [step_task, Task.step]) ?_
    simp only [Items.check, bind_assoc]
    exact .bind (runs_stmt first) fun table => runs_items rest

end

end

/-! ### Top-level declarations -/

section

variable (functions : Nat) (decls : List Decl)

theorem runs_members (index : Nat) (name : String) (closing semicolon : Slot Place)
    (members : List VarDecl) (table : SymbolTable) :
    Runs ⟨.struct index name none members closing semicolon, table, functions, decls⟩
      (members.foldlM (VarDecl.declare (.members index name)) table >>= fun table =>
        pure ⟨.struct index name none [] closing semicolon, table, functions, decls⟩).result := by
  induction members generalizing table with
  | nil => simpa using .done
  | cons decl members ih =>
    simp only [List.foldlM_cons, declare_eq, bind_assoc]
    refine Runs.head (f := fun pending =>
      ⟨.struct index name (some pending) members closing semicolon, table, functions, decls⟩)
      rfl fun pending => ?_
    have declared := runs_finish (.struct index name none members closing semicolon)
      (fun _ => rfl) pending table functions decls
    exact .bind declared ih

theorem runs_params (index : Nat) (scope : FunctionScope) (closing : Slot Place)
    (body : Slot Block) (params : List (Slot Param)) (table : SymbolTable) :
    Runs ⟨.params index scope params closing body, table, functions, decls⟩
      (params.foldlM (Param.declare index scope.depth) table >>= fun table =>
        pure ⟨.params index scope [] closing body, table, functions, decls⟩).result := by
  induction params generalizing table with
  | nil => simpa using .done
  | cons param params ih =>
    simp only [List.foldlM_cons, bind_assoc]
    exact Runs.head (f := fun table =>
      ⟨.params index scope params closing body, table, functions, decls⟩) rfl ih

/-- The machine behind a declaration. -/
def behind (declared : Declared) : State :=
  ⟨.global none, declared.table, declared.depth, decls⟩

theorem runs_decl (declared : Declared) (decl : Decl) :
    Runs (behind (decl :: decls) declared)
      (decl.check declared >>= fun declared => pure (behind decls declared)).result := by
  cases decl with
  | struct word name opening members closing semicolon =>
    apply Leads.runs
    simp only [behind, State.step, Context.pending, State.proceed, State.enter, Decl.check,
      Declared.declareStruct]
    cases declared.table.find? name.value with
    | some previous =>
      simp only [bind_assoc]
      exact .refused rfl
    | none =>
      simp only [bind_assoc, pure_bind]
      refine .bind fun table => .pure ?_
      refine .bind (runs_members declared.depth decls _ _ closing semicolon members table)
        fun table => ?_
      exact Leads.runs (.bind fun _ => .bind fun _ => .pure .done)
  | function result name opening params closing body =>
    apply Leads.runs
    simp only [behind, State.step, Context.pending, State.proceed, State.enter, Decl.check,
      Declared.declareFunction, bind_assoc, pure_bind]
    refine .bind fun _ => .bind fun ty => .bind fun table => .pure ?_
    refine .bind (runs_params (declared.depth + 1) decls declared.table.size
      ⟨name.value, ty, declared.depth + 1⟩ closing body _ table) fun table => ?_
    refine Leads.runs (.bind fun _ => .bind fun block => .pure ?_)
    simp only [Block.check, bind_assoc, pure_bind]
    refine .bind (runs_items block.items) fun table => ?_
    exact Leads.runs (.bind fun _ => .pure .done)
  | vars tried decl =>
    apply Leads.runs
    simp only [behind, State.step, Context.pending, State.proceed, State.enter, Decl.check,
      declare_eq, bind_assoc, pure_bind]
    refine .bind fun _ => .bind fun _ => .bind fun _ => .bind fun pending => .pure ?_
    exact runs_finish (.global none) (fun _ => rfl) pending declared.table declared.depth decls
  | missing tried instead =>
    apply Leads.runs
    simp only [behind, State.step, Context.pending, State.proceed, State.enter, Decl.check,
      bind_assoc]
    exact .bind fun _ => rfl

theorem runs_decls (declared : Declared) :
    Runs (behind decls declared)
      (decls.foldlM Decl.check declared >>= fun declared => pure (behind [] declared)).result := by
  induction decls generalizing declared with
  | nil => simpa using .done
  | cons decl decls ih =>
    simp only [List.foldlM_cons, bind_assoc]
    exact .bind (runs_decl decls declared decl) ih

end

/-! ### Outcomes -/

/-- Nothing is left to do. -/
def State.Done (s : State) : Prop := s.context = .global none ∧ s.decls = []

theorem State.Done.step_eq {s : State} (done : s.Done) : s.step = pure s := by
  obtain ⟨context, table, functions, decls⟩ := s
  obtain ⟨rfl, rfl⟩ := done
  rfl

/-- The machine gets no further. -/
def Final : Except Fault State → Prop
  | .ok s => s.Done
  | .error _ => True

theorem Runs.of_done {s : State} {outcome : Except Fault State} (runs : Runs s outcome)
    (done : s.Done) : outcome = .ok s := by
  induction runs with
  | done => rfl
  | fail failed =>
    rw [done.step_eq] at failed
    cases failed
  | step given _ ih =>
    rw [done.step_eq, Checked.gives_pure] at given
    subst given
    exact ih done

theorem Runs.unique {s : State} {outcome outcome' : Except Fault State} (runs : Runs s outcome)
    (runs' : Runs s outcome') (final : Final outcome) (final' : Final outcome') :
    outcome = outcome' := by
  induction runs with
  | done => exact (runs'.of_done final).symm
  | fail failed =>
    cases runs' with
    | done =>
      rw [State.Done.step_eq final'] at failed
      cases failed
    | fail failed' => exact failed.symm.trans failed'
    | step given => exact absurd (failed.symm.trans given) nofun
  | @step s _ _ given _ ih =>
    cases runs' with
    | done =>
      have done : s.Done := final'
      rw [done.step_eq, Checked.gives_pure] at given
      subst given
      exact ih .done final
    | fail failed => exact absurd (failed.symm.trans given) nofun
    | step given' next =>
      obtain rfl := given.unique given'
      exact ih next final

variable {decls : List Decl} {past : List Declaration} {s : State}

theorem Reachable.runs (h : Reachable decls past s) : Runs (Machine.start decls) (.ok s) := by
  induction h with
  | start => exact .done
  | step _ given ih => exact ih.trans (.step given .done)

theorem Runs.reachable {outcome : Except Fault State} (runs : Runs s outcome)
    (h : Reachable decls past s) : ∃ past s', Reachable decls past s' ∧
      (outcome = .ok s' ∨ ∃ fault, outcome = .error fault ∧ s'.step.result = .error fault) := by
  induction runs generalizing past with
  | done => exact ⟨past, _, h, .inl rfl⟩
  | fail failed => exact ⟨past, _, h, .inr ⟨_, rfl, failed⟩⟩
  | step given _ ih => exact ih (h.step given)

/-- The analysis of a program ends as the machine does. -/
theorem tableOfDecls_iff (decls : List Decl) :
    (∀ table, (Program.tableOfDecls decls).result = .ok table ↔
      ∃ past s, Reachable decls past s ∧ s.Done ∧ s.table = table) ∧
    ∀ fault, (Program.tableOfDecls decls).result = .error fault ↔
      ∃ past s, Reachable decls past s ∧ s.step.result = .error fault := by
  have runs := runs_decls decls ⟨.initial, 0⟩
  unfold Program.tableOfDecls
  rw [Logged.result_bind] at runs ⊢
  generalize (decls.foldlM Decl.check ⟨.initial, 0⟩).result = checked at runs ⊢
  cases checked with
  | ok declared =>
    change Runs (start decls) (.ok (behind [] declared)) at runs
    have final : Final (.ok (behind [] declared)) := ⟨rfl, rfl⟩
    refine ⟨fun table => ⟨?_, ?_⟩, fun fault => ⟨nofun, ?_⟩⟩
    · intro same
      obtain ⟨past, s, reachable, reached | ⟨fault, failed, -⟩⟩ := runs.reachable .start
      · obtain rfl := Except.ok.inj reached
        exact ⟨past, _, reachable, final, Except.ok.inj same⟩
      · cases failed
    · rintro ⟨past, s, reachable, done, rfl⟩
      obtain rfl := Except.ok.inj (runs.unique reachable.runs final done)
      rfl
    · rintro ⟨past, s, reachable, failed⟩
      cases runs.unique (reachable.runs.trans (.fail failed)) final trivial
  | error fault =>
    change Runs (start decls) (.error fault) at runs
    refine ⟨fun table => ⟨nofun, ?_⟩, fun fault' => ⟨?_, ?_⟩⟩
    · rintro ⟨past, s, reachable, done, rfl⟩
      cases runs.unique reachable.runs trivial done
    · rintro ⟨⟩
      obtain ⟨past, s, reachable, reached | ⟨_, failed, stops⟩⟩ := runs.reachable .start
      · cases reached
      · exact ⟨past, s, reachable, stops.trans failed.symm⟩
    · rintro ⟨past, s, reachable, failed⟩
      cases runs.unique (reachable.runs.trans (.fail failed)) trivial trivial
      rfl

end Machine

end PlainC
