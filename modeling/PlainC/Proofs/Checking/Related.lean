import PlainC.Proofs.Checking.Gives

set_option autoImplicit false

/-!
Two checks side by side: both pass, with values that belong together, or both end with faults that
do. What holds of the steps in this way holds of the whole.
-/

namespace PlainC

namespace Checked

variable {α β γ δ : Type} {F : Fault → Fault → Prop} {R : α → β → Prop} {S : γ → δ → Prop}

/-- Both checks pass, with values in one relation, or both end with faults in another one. -/
def Related (F : Fault → Fault → Prop) (R : α → β → Prop) (x : Checked α) (y : Checked β) : Prop :=
  (∃ a b, x.Gives a ∧ y.Gives b ∧ R a b) ∨
    ∃ fault fault', x.result = .error fault ∧ y.result = .error fault' ∧ F fault fault'

theorem related_pure {a : α} {b : β} (related : R a b) : Related F R (pure a) (pure b) :=
  .inl ⟨a, b, rfl, rfl, related⟩

theorem related_refuse {cause cause' : Cause} {place place' : Place}
    (related : F ⟨cause, place⟩ ⟨cause', place'⟩) :
    Related F R (refuse cause place) (refuse cause' place') :=
  .inr ⟨_, _, rfl, rfl, related⟩

theorem related_write (record record' : LogRecord) :
    Related F Eq (Logged.write record) (Logged.write record') :=
  .inl ⟨(), (), rfl, rfl, rfl⟩

namespace Related

variable {x : Checked α} {y : Checked β}

/-- Where the first check passes, so does the second one. -/
theorem gives {a : α} (related : Related F R x y) (given : x.Gives a) : ∃ b, y.Gives b ∧ R a b := by
  rcases related with ⟨a', b, given', given'', related⟩ | ⟨fault, fault', failed, -, -⟩
  · obtain rfl := given.unique given'
    exact ⟨b, given'', related⟩
  · cases given.symm.trans failed

/-- Where the second check passes, so does the first one. -/
theorem gives' {b : β} (related : Related F R x y) (given : y.Gives b) :
    ∃ a, x.Gives a ∧ R a b := by
  rcases related with ⟨a, b', given', given'', related⟩ | ⟨fault, fault', -, failed, -⟩
  · obtain rfl := given.unique given''
    exact ⟨a, given', related⟩
  · cases given.symm.trans failed

theorem passes_iff (related : Related F R x y) : (∃ a, x.Gives a) ↔ ∃ b, y.Gives b := by
  constructor
  · rintro ⟨a, given⟩
    obtain ⟨b, given', -⟩ := related.gives given
    exact ⟨b, given'⟩
  · rintro ⟨b, given⟩
    obtain ⟨a, given', -⟩ := related.gives' given
    exact ⟨a, given'⟩

/-- What both checks give belongs together. -/
theorem of_gives {a : α} {b : β} (related : Related F R x y) (given : x.Gives a)
    (given' : y.Gives b) : R a b := by
  obtain ⟨other, given'', together⟩ := related.gives given
  obtain rfl := given'.unique given''
  exact together

theorem trans {G H : Fault → Fault → Prop} {T : α → γ → Prop} {S : β → γ → Prop} {z : Checked γ}
    (first : Related F R x y) (second : Related G S y z)
    (faults : ∀ f g h, F f g → G g h → H f h) (values : ∀ a b c, R a b → S b c → T a c) :
    Related H T x z := by
  rcases first with ⟨a, b, given, given', together⟩ | ⟨fault, middle, failed, failed', alike⟩
  · obtain ⟨c, given'', together'⟩ := second.gives given'
    exact .inl ⟨a, c, given, given'', values a b c together together'⟩
  · rcases second with ⟨_, _, given, -, -⟩ | ⟨same, last, failed'', failed_last, alike'⟩
    · cases failed'.symm.trans given
    · obtain rfl := Except.error.inj (failed'.symm.trans failed'')
      exact .inr ⟨fault, last, failed, failed_last, faults _ _ _ alike alike'⟩

/-- Checks that make something of what two checks give. -/
theorem of_result_map {x' : Checked γ} {y' : Checked δ} {f : α → γ} {g : β → δ}
    (related : Related F R x y) (made : x'.result = x.result.map f)
    (made' : y'.result = y.result.map g) (values : ∀ a b, R a b → S (f a) (g b)) :
    Related F S x' y' := by
  rcases related with ⟨a, b, given, given', together⟩ | ⟨fault, fault', failed, failed', alike⟩
  · refine .inl ⟨f a, g b, ?_, ?_, values a b together⟩
    · exact made.trans (result_map_eq_ok.mpr ⟨a, given, rfl⟩)
    · exact made'.trans (result_map_eq_ok.mpr ⟨b, given', rfl⟩)
  · exact .inr ⟨fault, fault', made.trans (result_map_eq_error.mpr failed),
      made'.trans (result_map_eq_error.mpr failed'), alike⟩

theorem bind {next : α → Checked γ} {next' : β → Checked δ} (first : Related F R x y)
    (second : ∀ a b, R a b → Related F S (next a) (next' b)) :
    Related F S (x >>= next) (y >>= next') := by
  rcases first with ⟨a, b, given, given', related⟩ | ⟨fault, fault', failed, failed', related⟩
  · rw [Logged.bind_of_ok next given, Logged.bind_of_ok next' given']
    exact second a b related
  · rw [Logged.bind_of_error next failed, Logged.bind_of_error next' failed']
    exact .inr ⟨fault, fault', rfl, rfl, related⟩

/-- Behind checks that give the same. -/
theorem behind {x y : Checked α} {next : α → Checked γ} {next' : α → Checked δ}
    (first : Related F Eq x y) (second : ∀ a, Related F S (next a) (next' a)) :
    Related F S (x >>= next) (y >>= next') := by
  apply first.bind
  rintro a _ rfl
  exact second a

theorem withoutFirst (related : Related F R x y) :
    Related F R x.withoutFirst y.withoutFirst := related

end Related

/-- Two checks of each of which the same condition decides. -/
theorem related_ite {condition : Prop} [Decidable condition] {x x' : Checked α} {y y' : Checked β}
    (holds : condition → Related F R x y) (fails : ¬condition → Related F R x' y') :
    Related F R (if condition then x else x') (if condition then y else y') := by
  split
  · exact holds ‹_›
  · exact fails ‹_›

theorem related_foldlM {ι : Type} {step : α → ι → Checked α} {step' : β → ι → Checked β}
    {items : List ι} (steps : ∀ item ∈ items, ∀ a b, R a b → Related F R (step a item) (step' b item))
    {a : α} {b : β} (related : R a b) :
    Related F R (items.foldlM step a) (items.foldlM step' b) := by
  induction items generalizing a b with
  | nil => exact related_pure related
  | cons item items ih =>
    rw [List.foldlM_cons, List.foldlM_cons]
    refine (steps item List.mem_cons_self a b related).bind fun a' b' related' => ?_
    exact ih (fun item' among => steps item' (List.mem_cons_of_mem item among)) related'

end Checked

end PlainC
