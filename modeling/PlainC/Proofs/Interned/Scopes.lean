import PlainC.Proofs.Interned.Texts

set_option autoImplicit false

/-!
Leaving a scope. What is done behind the front of a table is taken back by cutting it to that front:
everything is looked up as before, also a text whose handle was given in between.
-/

namespace PlainC

namespace Interned

/-- The operation leaves the first `size` symbols as they are. -/
def Operation.Behind (size : Nat) : Operation → Prop
  | truncate other => size ≤ other
  | pushArg index _ | pushMember index _ => size ≤ index
  | intern _ | add _ | addExternals => True

namespace Table

variable {table table' : Table}

/-! ### Working behind a front -/

/-- The second table has the symbols of the first one in front, and knows its handles. -/
structure Continues (table' table : Table) : Prop where
  symbols : table.symbols <+: table'.symbols
  names : table'.Extends table

theorem Continues.refl (table : Table) : table.Continues table :=
  ⟨List.prefix_rfl, List.prefix_rfl⟩

theorem Continues.trans {table'' : Table} (first : table'.Continues table)
    (next : table''.Continues table') : table''.Continues table :=
  ⟨first.symbols.trans next.symbols, first.names.trans next.names⟩

theorem continues_intern (table : Table) (text : String) :
    (table.intern text).2.Continues table where
  symbols := ⟨[], by rw [List.append_nil, symbols_intern]⟩
  names := table.extends_intern text

theorem continues_enter (table : Table) (symbol : PlainC.Symbol) :
    (table.enter symbol).2.Continues table where
  symbols := ⟨[], by rw [List.append_nil, symbols_enter]⟩
  names := extends_enter symbol

theorem continues_add (table : Table) (symbol : Symbol) : (table.add symbol).2.Continues table := by
  unfold add
  split
  · exact .refl table
  · exact ⟨List.prefix_append .., List.prefix_rfl⟩

theorem continues_addAll (table : Table) (symbols : List PlainC.Symbol) :
    (table.addAll symbols).2.Continues table := by
  induction symbols generalizing table with
  | nil => exact .refl table
  | cons symbol rest ih =>
    have added := (table.continues_enter symbol).trans (continues_add _ (table.enter symbol).1)
    rw [addAll_cons]
    generalize (table.enter symbol).2.add (table.enter symbol).1 = result at added ⊢
    obtain ⟨outcome, table'⟩ := result
    cases outcome with
    | ok index => exact added.trans (ih table')
    | error redefinition => exact added

/-- A change behind the front. -/
theorem Continues.modify (more : table'.Continues table) {index : Nat} (behind : table.size ≤ index)
    (change : Symbol → Symbol) :
    Continues { table' with symbols := table'.symbols.modify index change } table where
  symbols := by
    rw [List.prefix_iff_eq_take, List.take_modify, ← List.prefix_iff_eq_take.mp more.symbols,
      List.modify_eq_self behind]
  names := more.names

theorem Continues.truncate (more : table'.Continues table) {size : Nat} (behind : table.size ≤ size) :
    (table'.truncate size).Continues table where
  symbols := List.prefix_take_iff.mpr ⟨more.symbols, behind⟩
  names := more.names

theorem Continues.apply (more : table'.Continues table) {op : Operation}
    (behind : op.Behind table.size) : (op.apply table').Continues table := by
  cases op with
  | intern text => exact more.trans (table'.continues_intern text)
  | add symbol =>
    exact (more.trans (table'.continues_enter symbol)).trans (continues_add _ _)
  | pushArg index arg => exact (more.trans (table'.continues_enter arg)).modify behind _
  | pushMember index member => exact (more.trans (table'.continues_enter member)).modify behind _
  | truncate size => exact more.truncate behind
  | addExternals => exact more.trans (table'.continues_addAll SymbolTable.externals)

theorem Continues.run (more : table'.Continues table) {ops : List Operation}
    (behind : ∀ op ∈ ops, op.Behind table.size) : (table'.run ops).Continues table := by
  induction ops generalizing table' with
  | nil => exact more
  | cons op ops ih =>
    exact ih (more.apply (behind op List.mem_cons_self))
      fun other among => behind other (List.mem_cons_of_mem _ among)

/-! ### Cutting to the front -/

theorem Continues.symbols_truncate (more : table'.Continues table) :
    (table'.truncate table.size).symbols = table.symbols :=
  (List.prefix_iff_eq_take.mp more.symbols).symm

/-- A text keeps the handle that it has. -/
theorem Extends.handle?_eq (more : table'.Extends table) {text : String} {handle : Nat}
    (found : table.handle? text = some handle) : table'.handle? text = some handle :=
  nameList.handle?_of_extends more found

/-- The second table has the symbols of the first one and finds the same ones in all ways, and the
handles of the first one stand for what they stood for. -/
structure Restores (table' table : Table) : Prop where
  symbols : table'.symbols = table.symbols
  resolve : ∀ handle, table.Given handle → table'.resolve handle = table.resolve handle
  get? : ∀ index, table'.get? index = table.get? index
  structAt? : ∀ index, table'.structAt? index = table.structAt? index
  position? : ∀ handle, table'.position? handle = table.position? handle
  find? : ∀ handle, table'.find? handle = table.find? handle
  findAtDepth? : ∀ handle depth,
    table'.findAtDepth? handle depth = table.findAtDepth? handle depth
  findStruct? : ∀ handle, table'.findStruct? handle = table.findStruct? handle
  findText? : ∀ text, table'.findText? text = table.findText? text
  findStructText? : ∀ text, table'.findStructText? text = table.findStructText? text

/-- A handle that was not given is in no symbol, so nothing is found by it. -/
theorem Met.position?_of_new (met : table.Met) {handle : Nat} (new : ¬table.Given handle) :
    table.position? handle = none := by
  refine lastIndex?_of_none _ fun symbol among => decide_eq_false ?_
  rintro rfl
  exact new (met.given_name among)

theorem Met.find?_of_new (met : table.Met) {handle : Nat} (new : ¬table.Given handle) :
    table.find? handle = none := by
  rw [find?, met.position?_of_new new, Option.bind_none]

theorem Met.findStruct?_of_new (met : table.Met) {handle : Nat} (new : ¬table.Given handle) :
    table.findStruct? handle = none := by
  refine lastIndex?_of_none _ fun symbol among => ?_
  have other : symbol.name ≠ handle := by
    rintro rfl
    exact new (met.given_name among)
  rw [decide_eq_false other, Bool.false_and]

/-- A text that gets its handle later has one that was not given before. -/
theorem Extends.new_of_new (more : table'.Extends table) {text : String} {handle : Nat}
    (new : table.handle? text = none) (found : table'.handle? text = some handle) :
    ¬table.Given handle := by
  intro given
  obtain ⟨-, rfl⟩ := handle?_spec found
  rw [more.resolve_eq given] at new
  exact handle?_eq_none_iff.mp new (resolve_mem given)

/-- What finds nothing by a handle that was not given finds the same by every text, also when more
texts have handles. -/
theorem Extends.bind_handle? {α : Type} (more : table'.Extends table) {look : Nat → Option α}
    (unfound : ∀ handle, ¬table.Given handle → look handle = none) (text : String) :
    (table'.handle? text).bind look = (table.handle? text).bind look := by
  cases before : table.handle? text with
  | some handle => rw [more.handle?_eq before]
  | none =>
    cases found : table'.handle? text with
    | none => rfl
    | some handle => exact unfound handle (more.new_of_new before found)

theorem Met.restores (met : table.Met) (same : table'.symbols = table.symbols)
    (more : table'.Extends table) : table'.Restores table := by
  have get_eq : table'.get? = table.get? := by
    funext index
    rw [Table.get?, same]
    rfl
  have position_eq : table'.position? = table.position? := by
    funext handle
    rw [Table.position?, same]
    rfl
  have find_eq : table'.find? = table.find? := by
    funext handle
    rw [Table.find?, position_eq, get_eq]
    rfl
  have struct_eq : table'.findStruct? = table.findStruct? := by
    funext handle
    rw [Table.findStruct?, same]
    rfl
  exact {
    symbols := same
    resolve := fun handle => more.resolve_eq
    get? := fun index => congrFun get_eq index
    structAt? := fun index => by rw [Table.structAt?, get_eq]; rfl
    position? := fun handle => congrFun position_eq handle
    find? := fun handle => congrFun find_eq handle
    findAtDepth? := fun handle depth => by rw [Table.findAtDepth?, same]; rfl
    findStruct? := fun handle => congrFun struct_eq handle
    findText? := fun text => by
      rw [findText?, find_eq]
      exact more.bind_handle? (fun _ => met.find?_of_new) text
    findStructText? := fun text => by
      rw [findStructText?, struct_eq]
      exact more.bind_handle? (fun _ => met.findStruct?_of_new) text }

/-- Leaving a scope undoes entering it. -/
theorem restores_run (before between : List Operation)
    (behind : ∀ op ∈ between, op.Behind (empty.run before).size) :
    (((empty.run before).run between).truncate (empty.run before).size).Restores
      (empty.run before) ∧
    (((empty.run before).run between).truncate (empty.run before).size).ReadsAs
      (runTexts SymbolTable.empty (before ++ between ++ [.truncate (empty.run before).size])) := by
  have more := (Continues.refl (empty.run before)).run behind
  have same : ((empty.run before).run between).truncate (empty.run before).size =
      empty.run (before ++ between ++ [.truncate (empty.run before).size]) := by
    simp [run, List.foldl_append, Operation.apply]
  refine ⟨(met_run before).restores more.symbols_truncate more.names, ?_⟩
  rw [same]
  exact readsAs_run _

/-- A variable at a depth. -/
def variableAt (name : String) (depth : Nat) : PlainC.Symbol :=
  { name, cls := .var, ty := .int, storage := .global, depth, line := 1 }

/-- A name is declared again in a scope, and another one is met there and gets an argument. -/
theorem restores_shadowed :
    (∀ op ∈ [Operation.add (variableAt "x" 1), .add (variableAt "y" 1),
      .pushArg 2 (variableAt "z" 2), .truncate 2], op.Behind 1) ∧
    (((empty.run [.add (variableAt "x" 0)]).run [.add (variableAt "x" 1), .add (variableAt "y" 1),
      .pushArg 2 (variableAt "z" 2), .truncate 2]).truncate 1).Restores
        (empty.run [.add (variableAt "x" 0)]) := by
  have behind : ∀ op ∈ [Operation.add (variableAt "x" 1), .add (variableAt "y" 1),
      .pushArg 2 (variableAt "z" 2), .truncate 2], op.Behind 1 := by
    simp [Operation.Behind]
  exact ⟨behind, (restores_run [.add (variableAt "x" 0)] _ behind).1⟩

end Table

end Interned

end PlainC
