import PlainC.Checked
import PlainC.Proofs.Syntax.Parts

set_option autoImplicit false

/-!
What a check has to say about the gaps of a tree, and how this carries over from the checks of its
parts.
-/

namespace PlainC

/-- The program does not have the form that the grammar gives. -/
def Cause.IsSyntactic : Cause → Prop
  | unexpected _ _ | noTokens => True
  | literal _ | violation _ => False

namespace Checked

variable {α β : Type}

/-- A check of a tree with these parts passes only if there is no gap, and a syntax error it ends
with is about what was met at the first gap. -/
structure Reports (x : Checked α) (ps : Parts) : Prop where
  gapless : ∀ {a}, x.result = .ok a → Gapless ps
  firstGap : ∀ {fault : Fault}, x.result = .error fault → fault.cause.IsSyntactic →
    ∃ wanted lexeme, firstGap? ps = some lexeme ∧ fault = ⟨.unexpected wanted lexeme.value, lexeme.place⟩

theorem reports_congr {ps qs : Parts} (same : firstGap? ps = firstGap? qs) {x : Checked α} :
    Reports x ps ↔ Reports x qs := by
  constructor
  · rintro ⟨gapless, firstGap⟩
    exact ⟨fun h => same.symm.trans (gapless h), fun h => same ▸ firstGap h⟩
  · rintro ⟨gapless, firstGap⟩
    exact ⟨fun h => same.trans (gapless h), fun h => same ▸ firstGap h⟩

@[simp] theorem reports_found {x : Checked α} {t : Lexeme} {ps : Parts} :
    Reports x (.found t :: ps) ↔ Reports x ps := reports_congr firstGap?_found

@[simp] theorem reports_pure (a : α) : Reports (pure a) [] :=
  ⟨fun _ => rfl, nofun⟩

theorem reports_write (record : LogRecord) : Reports (Logged.write record : Checked Unit) [] :=
  ⟨fun _ => rfl, nofun⟩

theorem reports_refuse {cause : Cause} (other : ¬cause.IsSyntactic) (place : Place) (ps : Parts) :
    Reports (refuse cause place : Checked α) ps := by
  refine ⟨nofun, ?_⟩
  rintro fault ⟨⟩ syntactic
  exact absurd syntactic other

@[simp] theorem reports_violate (violation : Violation) (place : Place) (ps : Parts) :
    Reports (violate violation place : Checked α) ps := reports_refuse (by simp [Cause.IsSyntactic]) _ _

theorem reports_ofLiteral (place : Place) (decoded : Except LiteralError α) :
    Reports (ofLiteral place decoded) [] := by
  cases decoded with
  | ok value => exact reports_pure value
  | error error => exact reports_refuse (by simp [Cause.IsSyntactic]) _ _

theorem reports_unexpected (wanted : Wanted) (instead : Lexeme) (ps : Parts) :
    Reports (unexpected wanted instead : Checked α) (.missing instead :: ps) := by
  refine ⟨nofun, ?_⟩
  rintro fault ⟨⟩ _
  exact ⟨wanted, instead, rfl, rfl⟩

theorem Reports.bind {x : Checked α} {next : α → Checked β} {ps qs : Parts} (first : Reports x ps)
    (second : ∀ a, Reports (next a) qs) : Reports (x >>= next) (ps ++ qs) := by
  cases hx : x.result with
  | ok a =>
    have gapless : firstGap? ps = none := first.gapless hx
    have same : firstGap? (ps ++ qs) = firstGap? qs := by simp [gapless]
    rw [reports_congr same, Logged.bind_of_ok next hx]
    exact ⟨(second a).gapless, (second a).firstGap⟩
  | error fault =>
    rw [Logged.bind_of_error next hx]
    refine ⟨nofun, ?_⟩
    rintro fault' ⟨⟩ syntactic
    obtain ⟨wanted, lexeme, gap, same⟩ := first.firstGap hx syntactic
    exact ⟨wanted, lexeme, by simp [gap], same⟩

theorem Reports.withoutFirst {x : Checked α} {ps : Parts} (h : Reports x ps) :
    Reports x.withoutFirst ps := ⟨h.gapless, h.firstGap⟩

/-- Behind a check that meets no gap of its own. -/
theorem Reports.behind {x : Checked α} {next : α → Checked β} {ps : Parts} (first : Reports x [])
    (second : ∀ a, Reports (next a) ps) : Reports (x >>= next) ps :=
  first.bind second

theorem Reports.before {x : Checked α} {next : α → Checked β} {ps : Parts} (first : Reports x ps)
    (second : ∀ a, Reports (next a) []) : Reports (x >>= next) ps := by
  simpa using first.bind second

theorem Reports.require {view : α → Parts} {next : α → Checked β} {ps : Parts} (wanted : Wanted)
    (slot : Slot α) (found : ∀ a, Reports (next a) (view a ++ ps)) :
    Reports (Checked.require wanted slot >>= next) (slot.parts view ++ ps) := by
  cases slot with
  | found a => simpa [Checked.require] using found a
  | missing instead => exact reports_unexpected wanted instead ps

theorem reports_requireMark (mark : Delimiter) (slot : Slot Place) :
    Reports (requireMark mark slot) (slot.parts mark.part) := by
  cases slot with
  | found place => exact reports_found.mpr (reports_pure ())
  | missing instead => exact reports_unexpected _ instead []

/-- A rule that is checked in front of the rest. -/
theorem reports_unless {broken : Prop} [Decidable broken] {violation : Violation} {place : Place}
    {next : Unit → Checked β} {ps : Parts} (rest : Reports (next ()) ps) :
    Reports (if broken then violate violation place >>= next else next ()) ps := by
  split
  · exact reports_violate violation place ps
  · exact rest

theorem reports_foldlM {σ : Type} {step : σ → α → Checked σ} {view : α → Parts}
    (steps : ∀ s a, Reports (step s a) (view a)) (items : List α) (s : σ) :
    Reports (items.foldlM step s) (items.flatMap view) := by
  induction items generalizing s with
  | nil => exact reports_pure s
  | cons a items ih =>
    rw [List.foldlM_cons, List.flatMap_cons]
    exact (steps s a).bind ih

end Checked

end PlainC
