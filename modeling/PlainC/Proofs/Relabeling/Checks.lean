import PlainC.Proofs.Checking.Related
import PlainC.Proofs.Relabeling.Trees

set_option autoImplicit false

/-!
Two checks, one of a program and one of the relabeled program: how the end of the one stands for
that of the other, and how this carries over from the steps.
-/

namespace PlainC

/-! ### Faults -/

/-- No name is changed. -/
def Relabeling.KeepsNames (r : Relabeling) : Prop := ∀ name, r.name name = name

/-- The same rule is broken, by the same things. Only the line of an earlier declaration can be
another one. -/
inductive Violation.Alike (r : Relabeling) : Violation → Violation → Prop
  | same (violation : Violation) : Alike r violation violation
  | redefinition (name : String) {line line' : Nat} : r.lines line line' →
      Alike r (.redefinition name line) (.redefinition name line')

/-- The cause is of the same kind. The names and types in a violation are the same ones if names
are kept. -/
inductive Cause.Alike (r : Relabeling) : Cause → Cause → Prop
  | literal (error : LiteralError) : Alike r (.literal error) (.literal error)
  | unexpected (wanted : Wanted) (found : Kind) :
      Alike r (.unexpected wanted found) (.unexpected wanted (found.relabel r))
  | noTokens : Alike r .noTokens .noTokens
  | violation {broken broken' : Violation} : (r.KeepsNames → broken.Alike r broken') →
      Alike r (.violation broken) (.violation broken')

/-- The fault is at the place that stands for that of the other one. -/
structure Fault.Alike (r : Relabeling) (fault fault' : Fault) : Prop where
  cause : fault.cause.Alike r fault'.cause
  place : fault'.place = r.place fault.place

theorem Kind.relabel_of_keepsNames {r : Relabeling} (keeps : r.KeepsNames) (kind : Kind) :
    kind.relabel r = kind := by
  cases kind with
  | identifier name => exact congrArg Kind.identifier (keeps name)
  | _ => rfl

/-- Where names and lines are kept, so is the cause. -/
theorem Cause.Alike.eq {r : Relabeling} {cause cause' : Cause} (h : cause.Alike r cause')
    (keeps : r.KeepsNames) (same : ∀ {line line'}, r.lines line line' → line' = line) :
    cause' = cause := by
  cases h with
  | literal | noTokens => rfl
  | unexpected wanted found => rw [Kind.relabel_of_keepsNames keeps]
  | violation broken =>
    cases broken keeps with
    | same => rfl
    | redefinition name lines => rw [same lines]

namespace Checked

/-! ### Checks -/

variable {α β γ δ : Type} {r : Relabeling} {R : α → β → Prop} {S : γ → δ → Prop}

/-- Both checks pass, with values that stand for each other, or both end with faults that do. -/
def Alike (r : Relabeling) (R : α → β → Prop) (x : Checked α) (y : Checked β) : Prop :=
  (∃ a b, x.Gives a ∧ y.Gives b ∧ R a b) ∨
    ∃ fault fault', x.result = .error fault ∧ y.result = .error fault' ∧ fault.Alike r fault'

/-- Where the first check passes, so does the second one. -/
theorem Alike.gives {x : Checked α} {y : Checked β} {a : α} (alike : Alike r R x y)
    (given : x.Gives a) : ∃ b, y.Gives b ∧ R a b :=
  Related.gives alike given

theorem alike_pure {a : α} {b : β} (related : R a b) : Alike r R (pure a) (pure b) :=
  related_pure related

theorem alike_refuse {cause cause' : Cause} (alike : cause.Alike r cause') (place : Place) :
    Alike r R (refuse cause place) (refuse cause' (r.place place)) :=
  related_refuse ⟨alike, rfl⟩

theorem alike_violate {violation violation' : Violation}
    (alike : r.KeepsNames → violation.Alike r violation') (place : Place) :
    Alike r R (violate violation place) (violate violation' (r.place place)) :=
  alike_refuse (.violation alike) place

/-- A violation that tells of the same things if names are kept. -/
theorem alike_violate_eq {violation violation' : Violation}
    (same : r.KeepsNames → violation' = violation) (place : Place) :
    Alike r R (violate violation place) (violate violation' (r.place place)) :=
  alike_violate (fun keeps => same keeps ▸ .same _) place

theorem alike_unexpected (wanted : Wanted) (instead : Lexeme) :
    Alike r R (unexpected wanted instead) (unexpected wanted (Lexeme.relabel r instead)) :=
  alike_refuse (.unexpected wanted instead.value) instead.place

theorem alike_write (record record' : LogRecord) :
    Alike r Eq (Logged.write record) (Logged.write record') :=
  related_write record record'

theorem Alike.bind {x : Checked α} {y : Checked β} {next : α → Checked γ} {next' : β → Checked δ}
    (first : Alike r R x y) (second : ∀ a b, R a b → Alike r S (next a) (next' b)) :
    Alike r S (x >>= next) (y >>= next') :=
  Related.bind first second

/-- Behind checks that give the same. -/
theorem Alike.behind {x y : Checked α} {next : α → Checked γ} {next' : α → Checked δ}
    (first : Alike r Eq x y) (second : ∀ a, Alike r S (next a) (next' a)) :
    Alike r S (x >>= next) (y >>= next') :=
  Related.behind first second

theorem Alike.withoutFirst {x : Checked α} {y : Checked β} (alike : Alike r R x y) :
    Alike r R x.withoutFirst y.withoutFirst := alike

theorem alike_require {change : α → α} (wanted : Wanted) (slot : Slot α) :
    Alike r (fun a b => b = change a) (require wanted slot)
      (require wanted (slot.relabel r change)) := by
  cases slot with
  | found a => exact alike_pure rfl
  | missing instead => exact alike_unexpected wanted instead

theorem alike_requireMark (mark : Delimiter) (slot : Slot Place) :
    Alike r Eq (requireMark mark slot) (requireMark mark (slot.relabel r r.place)) :=
  (alike_require (.mark mark) slot).bind fun _ _ _ => alike_pure rfl

theorem alike_ofLiteral (place : Place) (decoded : Except LiteralError α) :
    Alike r Eq (ofLiteral place decoded) (ofLiteral (r.place place) decoded) := by
  cases decoded with
  | ok value => exact alike_pure rfl
  | error error => exact alike_refuse (.literal error) place

/-- Two checks of each of which the same condition decides. -/
theorem alike_ite {condition : Prop} [Decidable condition] {x x' : Checked α} {y y' : Checked β}
    (holds : condition → Alike r R x y) (fails : ¬condition → Alike r R x' y') :
    Alike r R (if condition then x else x') (if condition then y else y') :=
  related_ite holds fails

/-- A rule in place of which the rest is checked. -/
theorem alike_broken {broken : Prop} [Decidable broken] {violation violation' : Violation}
    {place : Place} {x : Checked α} {y : Checked β} (same : r.KeepsNames → violation' = violation)
    (rest : Alike r R x y) :
    Alike r R (if broken then violate violation place else x)
      (if broken then violate violation' (r.place place) else y) :=
  alike_ite (fun _ => alike_violate_eq same place) fun _ => rest

/-- A rule with which a check ends. -/
theorem alike_kept {kept : Prop} [Decidable kept] {violation violation' : Violation}
    {place : Place} {a : α} {b : β} (related : R a b)
    (same : r.KeepsNames → violation' = violation) :
    Alike r R (if kept then pure a else violate violation place)
      (if kept then pure b else violate violation' (r.place place)) :=
  alike_ite (fun _ => alike_pure related) fun _ => alike_violate_eq same place

/-- A rule that is checked in front of the rest. -/
theorem alike_unless {broken : Prop} [Decidable broken] {violation violation' : Violation}
    {place : Place} {next : Unit → Checked γ} {next' : Unit → Checked δ}
    (same : r.KeepsNames → violation' = violation) (rest : Alike r S (next ()) (next' ())) :
    Alike r S (if broken then violate violation place >>= next else next ())
      (if broken then violate violation' (r.place place) >>= next' else next' ()) :=
  alike_ite
    (fun _ => (alike_violate_eq (R := fun _ _ => False) same place).bind fun _ _ => False.elim)
    fun _ => rest

theorem alike_forM {item : Option α} {change : α → α} {check check' : α → Checked Unit}
    (alike : ∀ a, Alike r Eq (check a) (check' (change a))) :
    Alike r Eq (item.forM check) ((item.map change).forM check') := by
  cases item with
  | none => exact alike_pure rfl
  | some a => exact alike a

theorem alike_foldlM {ι : Type} {change : ι → ι} {step : α → ι → Checked α}
    {step' : β → ι → Checked β} {items : List ι}
    (steps : ∀ item ∈ items, ∀ a b, R a b → Alike r R (step a item) (step' b (change item)))
    {a : α} {b : β} (related : R a b) :
    Alike r R (items.foldlM step a) ((items.map change).foldlM step' b) := by
  rw [List.foldlM_map]
  exact related_foldlM steps related

end Checked

end PlainC
