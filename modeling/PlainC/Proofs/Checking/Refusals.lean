import PlainC.Proofs.Checking.Gives

set_option autoImplicit false

/-!
How checks end. A property of all the faults of a check, and one of all that it gives, carry over
from its steps, each of which may build on what the steps before it give.
-/

namespace PlainC

namespace Checked

variable {α β : Type} {P : Fault → Prop}

/-- The check ends only with faults that have a property. -/
def Refuses (P : Fault → Prop) (x : Checked α) : Prop :=
  ∀ fault, x.result = .error fault → P fault

@[simp] theorem refuses_pure (a : α) : Refuses P (pure a) := by
  rintro fault ⟨⟩

@[simp] theorem refuses_write (record : LogRecord) :
    Refuses P (Logged.write record : Checked Unit) := by
  rintro fault ⟨⟩

@[simp] theorem refuses_refuse {cause : Cause} {place : Place} :
    Refuses P (refuse cause place : Checked α) ↔ P ⟨cause, place⟩ := by
  constructor
  · intro refuses
    exact refuses _ rfl
  · rintro h fault ⟨⟩
    exact h

@[simp] theorem refuses_violate {violation : Violation} {place : Place} :
    Refuses P (violate violation place : Checked α) ↔ P ⟨.violation violation, place⟩ :=
  refuses_refuse

@[simp] theorem refuses_unexpected {wanted : Wanted} {instead : Lexeme} :
    Refuses P (unexpected wanted instead : Checked α) ↔
      P ⟨.unexpected wanted instead.value, instead.place⟩ :=
  refuses_refuse

theorem Refuses.bind {x : Checked α} {next : α → Checked β} (first : Refuses P x)
    (second : ∀ a, x.Gives a → Refuses P (next a)) : Refuses P (x >>= next) := by
  intro fault failed
  rw [Logged.result_bind] at failed
  cases given : x.result with
  | error fault' =>
    rw [given] at failed
    obtain rfl := Except.error.inj failed
    exact first _ given
  | ok a =>
    rw [given] at failed
    exact second a given fault failed

theorem Refuses.withoutFirst {x : Checked α} (h : Refuses P x) : Refuses P x.withoutFirst := h

theorem Refuses.mono {Q : Fault → Prop} {x : Checked α} (h : Refuses P x)
    (implied : ∀ fault, P fault → Q fault) : Refuses Q x :=
  fun fault failed => implied fault (h fault failed)

theorem refuses_require {wanted : Wanted} {slot : Slot α}
    (h : ∀ instead, slot = .missing instead → P ⟨.unexpected wanted instead.value, instead.place⟩) :
    Refuses P (require wanted slot) := by
  cases slot with
  | found a => exact refuses_pure a
  | missing instead => exact refuses_unexpected.mpr (h instead rfl)

theorem refuses_requireMark {mark : Delimiter} {slot : Slot Place}
    (h : ∀ instead, slot = .missing instead →
      P ⟨.unexpected (.mark mark) instead.value, instead.place⟩) :
    Refuses P (requireMark mark slot) :=
  (refuses_require h).bind fun _ _ => refuses_pure ()

theorem refuses_ofLiteral {place : Place} {decoded : Except LiteralError α}
    (h : ∀ error, decoded = .error error → P ⟨.literal error, place⟩) :
    Refuses P (ofLiteral place decoded) := by
  cases decoded with
  | ok value => exact refuses_pure value
  | error error => exact refuses_refuse.mpr (h error rfl)

/-- A rule that is checked in front of the rest. -/
theorem refuses_unless {broken : Prop} [Decidable broken] {violation : Violation} {place : Place}
    {next : Unit → Checked β} (h : broken → P ⟨.violation violation, place⟩)
    (rest : ¬broken → Refuses P (next ())) :
    Refuses P (if broken then violate violation place >>= next else next ()) := by
  split
  · rename_i isBroken
    exact (refuses_violate.mpr (h isBroken)).bind nofun
  · rename_i notBroken
    exact rest notBroken

theorem refuses_foldlM {σ : Type} {step : σ → α → Checked σ} {items : List α}
    (steps : ∀ s, ∀ a ∈ items, Refuses P (step s a)) (s : σ) :
    Refuses P (items.foldlM step s) := by
  induction items generalizing s with
  | nil => exact refuses_pure s
  | cons a items ih =>
    rw [List.foldlM_cons]
    refine (steps s a List.mem_cons_self).bind fun s' _ => ?_
    exact ih (fun s'' b among => steps s'' b (List.mem_cons_of_mem a among)) s'

/-! ### Faults and values together -/

/-- The check ends only with faults that have a property, and gives only values that have another
one. -/
structure Ends (P : Fault → Prop) (Q : α → Prop) (x : Checked α) : Prop where
  refuses : Refuses P x
  gives : ∀ a, x.Gives a → Q a

section

variable {Q : α → Prop} {R : β → Prop} {x : Checked α}

@[simp] theorem ends_pure {a : α} : Ends P Q (pure a) ↔ Q a := by
  constructor
  · intro ends
    exact ends.gives a rfl
  · intro h
    refine ⟨refuses_pure a, fun b given => ?_⟩
    rw [gives_pure.mp given]
    exact h

@[simp] theorem ends_violate {violation : Violation} {place : Place} :
    Ends P Q (violate violation place) ↔ P ⟨.violation violation, place⟩ := by
  constructor
  · intro ends
    exact refuses_violate.mp ends.refuses
  · intro h
    exact ⟨refuses_violate.mpr h, nofun⟩

theorem Ends.bind {next : α → Checked β} (first : Ends P Q x)
    (second : ∀ a, Q a → Ends P R (next a)) : Ends P R (x >>= next) := by
  refine ⟨first.refuses.bind fun a given => (second a (first.gives a given)).refuses, ?_⟩
  intro b given
  obtain ⟨a, given, given'⟩ := gives_bind.mp given
  exact (second a (first.gives a given)).gives b given'

theorem Ends.withoutFirst (h : Ends P Q x) : Ends P Q x.withoutFirst := ⟨h.refuses, h.gives⟩

/-- A rule that is checked in front of the rest. -/
theorem ends_unless {broken : Prop} [Decidable broken] {violation : Violation} {place : Place}
    {next : Unit → Checked β} (h : broken → P ⟨.violation violation, place⟩)
    (rest : ¬broken → Ends P R (next ())) :
    Ends P R (if broken then violate violation place >>= next else next ()) := by
  split
  · rename_i isBroken
    exact (ends_violate (Q := fun _ => False).mpr (h isBroken)).bind nofun
  · rename_i notBroken
    exact rest notBroken

end

/-! ### Passing or not -/

section

variable {refused : Option (Cause → Prop)} {x : Checked α} {next : α → Checked β} {a : α} {b : β}

/-- The check passes with a value, or ends for one of the causes, if there are any. -/
def Turns (refused : Option (Cause → Prop)) (x : Checked α) (a : α) : Prop :=
  match refused with
  | none => x.Gives a
  | some causes => ∃ fault, x.result = .error fault ∧ causes fault.cause

theorem Turns.behind (given : x.Gives a) (h : (next a).Turns refused b) :
    (x >>= next).Turns refused b := by
  cases refused with
  | none => exact gives_bind.mpr ⟨a, given, h⟩
  | some causes =>
    obtain ⟨fault, failed, among⟩ := h
    exact ⟨fault, (result_bind_of_gives given next).trans failed, among⟩

theorem Turns.before (h : x.Turns refused a) (given : (next a).Gives b) :
    (x >>= next).Turns refused b := by
  cases refused with
  | none => exact gives_bind.mpr ⟨a, h, given⟩
  | some causes =>
    obtain ⟨fault, failed, among⟩ := h
    exact ⟨fault, result_bind_of_fails failed next, among⟩

end

end Checked

end PlainC
