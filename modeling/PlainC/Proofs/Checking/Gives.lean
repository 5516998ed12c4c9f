import PlainC.Checked
import PlainC.Stmt.Check

set_option autoImplicit false

/-!
What a check gives when it passes. A check gives a value just if each of its steps does; so it takes
certain types that the heads of statements pass.
-/

namespace PlainC

namespace Checked

variable {α β : Type}

/-- The check passes with a value. -/
def Gives (x : Checked α) (a : α) : Prop := x.result = .ok a

theorem Gives.unique {x : Checked α} {a b : α} (h : x.Gives a) (h' : x.Gives b) : a = b :=
  Except.ok.inj (h.symm.trans h')

@[simp] theorem gives_pure {a b : α} : (pure a : Checked α).Gives b ↔ b = a := by
  simp [Gives, eq_comm]

@[simp] theorem gives_bind {x : Checked α} {next : α → Checked β} {b : β} :
    (x >>= next).Gives b ↔ ∃ a, x.Gives a ∧ (next a).Gives b := by
  unfold Gives
  rw [Logged.result_bind]
  cases x.result with
  | ok a => simp [bind, Except.bind]
  | error fault => simp [bind, Except.bind]

theorem result_bind_of_gives {x : Checked α} {a : α} (h : x.Gives a) (next : α → Checked β) :
    (x >>= next).result = (next a).result := by
  rw [Logged.bind_of_ok next h]

theorem result_bind_of_fails {x : Checked α} {fault : Fault} (h : x.result = .error fault)
    (next : α → Checked β) : (x >>= next).result = .error fault := by
  rw [Logged.bind_of_error next h]

theorem result_map (x : Checked α) (f : α → β) : (f <$> x).result = x.result.map f := by
  rw [map_eq_pure_bind, Logged.result_bind]
  cases x.result <;> rfl

@[simp] theorem gives_map {x : Checked α} {f : α → β} {b : β} :
    (f <$> x).Gives b ↔ ∃ a, x.Gives a ∧ b = f a := by
  rw [← bind_pure_comp, gives_bind]
  simp

/-- A value made of the result is there just if the check passes. -/
theorem result_map_eq_ok {x : Checked α} {f : α → β} {b : β} :
    x.result.map f = .ok b ↔ ∃ a, x.Gives a ∧ b = f a := by
  unfold Gives
  cases x.result <;> simp [Except.map, eq_comm]

theorem result_map_eq_error {x : Checked α} {f : α → β} {fault : Fault} :
    x.result.map f = .error fault ↔ x.result = .error fault := by
  cases x.result <;> simp [Except.map]

@[simp] theorem gives_refuse {cause : Cause} {place : Place} {a : α} :
    ¬(refuse cause place : Checked α).Gives a := nofun

@[simp] theorem gives_violate {violation : Violation} {place : Place} {a : α} :
    ¬(violate violation place : Checked α).Gives a := nofun

@[simp] theorem gives_unexpected {wanted : Wanted} {instead : Lexeme} {a : α} :
    ¬(unexpected wanted instead : Checked α).Gives a := nofun

@[simp] theorem gives_write {record : LogRecord} {a : Unit} :
    Checked.Gives (Logged.write record) a := rfl

@[simp] theorem gives_withoutFirst {x : Checked α} {a : α} :
    Gives x.withoutFirst a ↔ x.Gives a := Iff.rfl

@[simp] theorem gives_require {wanted : Wanted} {slot : Slot α} {a : α} :
    (require wanted slot).Gives a ↔ slot = .found a := by
  cases slot <;> simp [require, eq_comm]

@[simp] theorem gives_requireMark {mark : Delimiter} {slot : Slot Place} {a : Unit} :
    (requireMark mark slot).Gives a ↔ ∃ place, slot = .found place := by
  simp [requireMark]

@[simp] theorem gives_ofLiteral {place : Place} {decoded : Except LiteralError α} {a : α} :
    (ofLiteral place decoded).Gives a ↔ decoded = .ok a := by
  cases decoded <;> simp [ofLiteral, eq_comm]

/-- A check made of two, of which a condition decides. -/
theorem gives_ite {condition : Prop} [Decidable condition] {x y : Checked α} {a : α} :
    (if condition then x else y).Gives a ↔ condition ∧ x.Gives a ∨ ¬condition ∧ y.Gives a := by
  split <;> simp [*]

/-- What holds of no steps, and of a step with those behind it, holds of all steps. -/
theorem gives_foldlM_induction {σ ι : Type} {step : σ → ι → Checked σ}
    {motive : List ι → σ → σ → Prop} (nil : ∀ s, motive [] s s)
    (cons : ∀ item items s middle s', (step s item).Gives middle → motive items middle s' →
      motive (item :: items) s s')
    {items : List ι} {s s' : σ} (h : (items.foldlM step s).Gives s') : motive items s s' := by
  induction items generalizing s with
  | nil =>
    obtain rfl := gives_pure.mp h
    exact nil _
  | cons item items ih =>
    rw [List.foldlM_cons, gives_bind] at h
    obtain ⟨middle, first, h⟩ := h
    exact cons item items s middle s' first (ih h)

/-- What each step keeps, all steps keep. -/
theorem keeps_foldlM {σ ι : Type} {step : σ → ι → Checked σ} {P : σ → Prop}
    (steps : ∀ item s s', P s → (step s item).Gives s' → P s')
    {items : List ι} {s s' : σ} (holds : P s) (h : (items.foldlM step s).Gives s') : P s' := by
  refine gives_foldlM_induction (motive := fun _ s s' => P s → P s') (fun _ => id) ?_ h holds
  intro item _ s middle _ first rest holds
  exact rest (steps item s middle holds first)

end Checked

/-! ### The heads of statements -/

section

open Checked

variable {α : Type} {table : SymbolTable}

theorem gives_optional {check : α → Checked Unit} {value : Option α} :
    (value.forM check).Gives () ↔ ∀ a ∈ value, (check a).Gives () := by
  cases value with
  | none => simp [Option.forM]
  | some a => simp [Option.forM]

/-- A value is tested if it is there, and neither a struct nor void. -/
theorem Expr.gives_checkTested {expr : Expr} :
    (expr.checkTested table).Gives () ↔ ∃ operand, (expr.type table).Gives operand ∧
      operand.ty.isStruct = false ∧ operand.ty.isVoid = false := by
  simp only [checkTested, gives_bind]
  refine exists_congr fun operand => and_congr_right fun _ => ?_
  cases operand.ty.isStruct <;> cases operand.ty.isVoid <;> simp

theorem Expr.gives_checkUnused {expr : Expr} :
    (expr.checkUnused table).Gives () ↔ ∃ operand, (expr.type table).Gives operand := by
  simp [checkUnused]

theorem Condition.tested_of_check {condition : Condition} (h : (condition.check table).Gives ()) :
    (condition.expr.checkTested table).Gives () := by
  simp only [check, gives_bind] at h
  obtain ⟨_, -, _, tested, -⟩ := h
  exact tested

theorem ForHeader.passes_of_check {header : ForHeader} (h : (header.check table).Gives ()) :
    (∀ expr ∈ header.first, (expr.checkUnused table).Gives ()) ∧
      (∀ expr ∈ header.condition, (expr.checkTested table).Gives ()) ∧
        ∀ expr ∈ header.step, (expr.checkUnused table).Gives () := by
  simp only [check, gives_bind] at h
  obtain ⟨_, -, _, first, _, -, _, condition, _, -, _, step, -⟩ := h
  exact ⟨gives_optional.mp first, gives_optional.mp condition, gives_optional.mp step⟩

namespace FunctionScope

variable {scope : FunctionScope} {word : Place}

theorem gives_checkReturn_none :
    (scope.checkReturn table word none).Gives () ↔ scope.result.isVoid = true := by
  simp [checkReturn, gives_ite]

/-- A function that gives something gives what converts to it, and one that gives nothing gives no
value. -/
theorem gives_checkReturn_some {expr : Expr} :
    (scope.checkReturn table word (some expr)).Gives () ↔
      scope.result.isVoid = false ∧ ∃ operand, (expr.type table).Gives operand ∧
        scope.result.accepts operand.ty = true := by
  simp only [checkReturn, gives_bind]
  rw [← exists_and_left]
  refine exists_congr fun operand => ?_
  rw [and_left_comm]
  refine and_congr_right fun _ => ?_
  cases scope.result.isVoid <;> cases scope.result.accepts operand.ty <;> simp

end FunctionScope

end

end PlainC
