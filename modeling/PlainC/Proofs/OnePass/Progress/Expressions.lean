import PlainC.Proofs.OnePass.Keeping
import PlainC.Proofs.Reading.TypeName

set_option autoImplicit false

/-!
Progress of expressions. A production that finds something has taken lexemes, and one that declines
leaves the state as it was: so every turn of a loop takes a lexeme, and going back from a
parenthesis that begins no cast covers just the parenthesis.
-/

namespace PlainC

theorem BaseName.parts_length (base : BaseName) :
    1 ≤ (lexemesOf base.parts).length ∧ (lexemesOf base.parts).length ≤ 2 := by
  cases base with
  | int | double | char => simp [BaseName.parts]
  | struct word name => cases name <;> simp [BaseName.parts]

namespace OnePass

open Analysis Run

/-- In front of fewer lexemes than a bound, the runs are within the limit, and those that get to
their ends are further on there. -/
def Progresses {α : Type} (limit bound : Nat) (analysis : Analysis α) : Prop :=
  ∀ last s, s.ahead.length < bound → (analysis last s).Keeps limit fun _ s' => s.Advances s'

theorem progresses_zero {α : Type} {limit : Nat} {analysis : Analysis α} :
    Progresses limit 0 analysis :=
  fun _ _ below => absurd below (Nat.not_lt_zero _)

/-! ### Single lexemes -/

section

variable (limit : Nat) (last : Lexeme) (s : State)

theorem keeps_unexpected {α : Type} (wanted : Wanted) (post : α → State → Prop) :
    ((unexpected wanted : Analysis α) last s).Keeps limit post := by
  refine (keeps_look limit last s fun _ _ => rfl).bind ?_
  rintro next s' ⟨-, rfl⟩
  refine (keeps_check limit last s' _).mono ?_
  rintro a s'' ⟨found, -⟩
  cases found

theorem keeps_expect (mark : Delimiter) :
    (expect mark last s).Keeps limit fun _ s' => s.Takes 1 s' := by
  refine (keeps_read_of_reads limit last s (Parse.mark_reads mark)).bind ?_
  intro slot s' takes
  refine (keeps_check limit last s' _).mono ?_
  rintro a s'' ⟨found, rfl⟩
  cases slot with
  | found place => exact takes
  | missing => cases found

theorem keeps_expectName (wanted : Wanted) :
    (expectName wanted last s).Keeps limit fun _ s' => s.Takes 1 s' := by
  refine (keeps_read_of_reads limit last s Parse.name_reads).bind ?_
  intro slot s' takes
  refine (keeps_check limit last s' _).mono ?_
  rintro a s'' ⟨found, rfl⟩
  cases slot with
  | found place => exact takes
  | missing => cases found

/-! ### Types -/

/-- A base type is one word, or the word `struct` and a name. -/
theorem keeps_typeBase :
    (typeBase last s).Keeps limit fun found s' =>
      match found with
      | none => s' = s
      | some _ => ∃ count, 1 ≤ count ∧ count ≤ 2 ∧ s.Takes count s' := by
  refine (keeps_read limit last s _).bind ?_
  rintro found s' ⟨h, same⟩
  obtain ⟨base, rest, h', spans, -⟩ | ⟨-, h'⟩ := BaseName.parse?_cases last s.ahead
  · obtain ⟨rfl, rfl⟩ : some base = found ∧ rest = s'.ahead := by simpa [h'] using h
    have takes : s.Takes (lexemesOf base.parts).length s' :=
      ⟨_, rfl, by rw [same, ← spans.eq_append]⟩
    refine (keeps_check limit last s' _).bind ?_
    rintro resolved s'' ⟨-, rfl⟩
    exact keeps_pure ⟨_, base.parts_length.1, base.parts_length.2, takes⟩
  · obtain ⟨rfl, ahead⟩ : none = found ∧ s.ahead = s'.ahead := by simpa [h'] using h
    exact keeps_pure (by rw [same, ← ahead])

theorem keeps_arrayDecl :
    (arrayDecl last s).Keeps limit fun found s' => s.Moves found.isSome s' := by
  refine (keeps_read_of_reads limit last s ArrayPart.parse_reads).bind ?_
  rintro (_ | ⟨opening, closing⟩ | ⟨opening, size, closing⟩) s' takes
  · exact keeps_pure (State.moves_false.mpr takes.eq)
  all_goals
    refine (keeps_check limit last s' _).bind ?_
    rintro extent s'' ⟨-, rfl⟩
    exact keeps_pure (State.moves_true.mpr (takes.advances (by simp [ArrayPart.parts])))

theorem keeps_extent :
    (extent last s).Keeps limit fun _ s' => s'.ahead <:+ s.ahead := by
  refine (keeps_arrayDecl limit last s).bind ?_
  intro found s' moves
  exact keeps_pure moves.suffix

theorem keeps_typeName :
    (typeName last s).Keeps limit fun found s' => s.Moves found.isSome s' := by
  refine (keeps_typeBase limit last s).bind ?_
  rintro (_ | base) s' h
  · exact keeps_pure (State.moves_false.mpr h)
  · obtain ⟨count, some, -, takes⟩ := h
    refine (keeps_extent limit last s').bind ?_
    intro found s'' behind
    exact keeps_pure (State.moves_true.mpr ((takes.advances some).of_suffix behind))

end

/-! ### Arguments, names and parentheses -/

section

variable {limit n : Nat} {nested : Analysis Operand} (nests : Progresses limit n nested)

include nests

theorem keeps_arguments (accept : SymbolTable → Nat → Place → Ty → Checked Unit) (last : Lexeme) :
    ∀ fuel count s, s.ahead.length < fuel → s.ahead.length < n → count + s.ahead.length < limit →
      (arguments nested accept fuel count last s).Keeps limit fun _ s' => s.Advances s' := by
  intro fuel
  induction fuel with
  | zero => exact fun _ _ enough => absurd enough (Nat.not_lt_zero _)
  | succ fuel ih =>
    intro count s enough bound few
    refine (keeps_turned last s .arguments (by omega)).bind ?_
    rintro - s rfl
    refine (keeps_look limit last s fun _ _ => rfl).bind ?_
    rintro start s' ⟨-, rfl⟩
    refine (nests last s' bound).bind ?_
    intro value s₁ passed
    refine (keeps_check limit last s₁ _).bind ?_
    rintro - s₁ ⟨-, rfl⟩
    refine (keeps_token? limit last s₁ _).bind ?_
    rintro (_ | comma) s₂ takes
    · obtain rfl := State.Takes.eq takes
      exact keeps_pure passed
    · have shorter := passed.length
      have rest := takes.suffix.length_le
      refine (ih (count + 1) s₂ (by omega) (by omega) (by omega)).mono ?_
      intro _ s₃ further
      exact passed.of_suffix (further.suffix.trans takes.suffix)

/-- Behind a name nothing more needs to be taken. -/
theorem keeps_nameOrCall (within : n ≤ limit) (name : Name) (last : Lexeme) (s : State)
    (bound : s.ahead.length < n) :
    (nameOrCall nested name last s).Keeps limit fun _ s' => s'.ahead <:+ s.ahead := by
  refine (keeps_token? limit last s _).bind ?_
  rintro (_ | opening) s₁ takes
  · exact keeps_checked fun _ => takes.suffix
  · have opened := (takes.advances Nat.one_pos).length
    refine (keeps_check limit last s₁ _).bind ?_
    rintro symbol s₁ ⟨-, rfl⟩
    refine (keeps_token? limit last s₁ _).bind ?_
    rintro (_ | closing) s₂ takes'
    · obtain rfl := State.Takes.eq takes'
      refine (keeps_bounded (keeps_arguments nests _ last _ 0 s₂ (Nat.lt_succ_self _) (by omega)
        (by omega))).bind ?_
      intro given s₃ passed
      refine (keeps_expect limit last s₃ _).bind ?_
      intro _ s₄ closed
      exact keeps_checked fun _ => closed.suffix.trans (passed.suffix.trans takes.suffix)
    · exact keeps_checked fun _ => takes'.suffix.trans takes.suffix

theorem progresses_primary (within : n ≤ limit) : Progresses limit (n + 1) (primary nested) := by
  intro last s bound
  refine (keeps_accept? limit last s _).bind ?_
  rintro (_ | name) s₁ takes
  · obtain rfl := State.Takes.eq takes
    refine (keeps_accept? limit last s₁ _).bind ?_
    rintro (_ | ⟨⟨form, text⟩, place⟩) s₂ takes
    · obtain rfl := State.Takes.eq takes
      refine (keeps_token? limit last s₂ _).bind ?_
      rintro (_ | opening) s₃ takes
      · exact keeps_unexpected limit last s₃ _ _
      · have opened := takes.advances Nat.one_pos
        have shorter := opened.length
        refine (nests last s₃ (by omega)).bind ?_
        intro value s₄ passed
        refine (keeps_expect limit last s₄ _).bind ?_
        intro _ s₅ closed
        exact keeps_pure (opened.of_suffix (closed.suffix.trans passed.suffix))
    · exact keeps_checked fun _ => takes.advances Nat.one_pos
  · have named := takes.advances Nat.one_pos
    have shorter := named.length
    refine (keeps_nameOrCall nests within name last s₁ (by omega)).mono ?_
    exact fun _ _ behind => named.of_suffix behind

/-! ### Suffixes, signs and casts -/

omit nests in
theorem keeps_suffix? (limit : Nat) (last : Lexeme) (s : State) :
    (suffix? last s).Keeps limit fun found s' => s.Takes (if found.isSome then 1 else 0) s' := by
  refine (keeps_token? limit last s _).bind ?_
  rintro (_ | opening) s₁ takes
  · obtain rfl := State.Takes.eq takes
    refine (keeps_token? limit last s₁ _).bind ?_
    rintro (_ | dot) s₂ takes
    · exact keeps_pure takes
    · exact keeps_pure takes
  · exact keeps_pure takes

theorem keeps_suffix (base : Operand) (begun : Place ⊕ Place) (last : Lexeme) (s : State)
    (bound : s.ahead.length < n) :
    (suffix nested base begun last s).Keeps limit fun _ s' => s'.ahead <:+ s.ahead := by
  cases begun with
  | inl opening =>
    refine (keeps_check limit last s _).bind ?_
    rintro - s₁ ⟨-, rfl⟩
    refine (keeps_look limit last s₁ fun _ _ => rfl).bind ?_
    rintro start s₁ ⟨-, rfl⟩
    refine (nests last s₁ bound).bind ?_
    intro index s₂ passed
    refine (keeps_check limit last s₂ _).bind ?_
    rintro - s₂ ⟨-, rfl⟩
    refine (keeps_expect limit last s₂ _).bind ?_
    intro _ s₃ closed
    exact keeps_pure (closed.suffix.trans passed.suffix)
  | inr dot =>
    refine (keeps_expectName limit last s _).bind ?_
    intro name s₁ named
    exact keeps_checked fun _ => named.suffix

theorem progresses_suffixed (within : n ≤ limit) {fuel : Nat} (few : fuel ≤ n + 1) :
    Progresses limit fuel (suffixed nested fuel) := by
  intro last s bound
  refine (progresses_primary nests within last s (by omega)).bind ?_
  intro base s₁ passed
  have shorter := passed.length
  refine (keeps_turns limit last .suffixes s₁ ?_ (by omega) (by omega) base).mono ?_
  · intro s₂ behind
    refine (keeps_suffix? limit last s₂).mono ?_
    rintro (_ | begun) s₃ takes
    · exact takes.suffix
    · intro base
      have opened := takes.advances Nat.one_pos
      have rest := opened.length
      have rest' := behind.length_le
      refine (keeps_suffix nests base begun last s₃ (by omega)).mono ?_
      exact fun _ _ behind => opened.of_suffix behind
  · exact fun _ _ behind => passed.of_suffix behind

theorem progresses_unary (within : n ≤ limit) :
    ∀ fuel, fuel ≤ n + 1 → Progresses limit fuel (unary nested fuel) := by
  intro fuel
  induction fuel with
  | zero => exact fun _ => progresses_zero
  | succ fuel ih =>
    intro few last s bound
    refine (keeps_accept? limit last s _).bind ?_
    rintro (_ | op) s₁ takes
    · obtain rfl := State.Takes.eq takes
      exact progresses_suffixed nests within few last s₁ bound
    · have signed := takes.advances Nat.one_pos
      have shorter := signed.length
      refine (ih (by omega) last s₁ (by omega)).bind ?_
      intro value s₂ passed
      exact keeps_checked fun _ => signed.of_suffix passed.suffix

theorem progresses_cast (within : n ≤ limit) :
    ∀ fuel, fuel ≤ n + 1 → Progresses limit fuel (cast nested fuel) := by
  intro fuel
  induction fuel with
  | zero => exact fun _ => progresses_zero
  | succ fuel ih =>
    intro few last s bound
    refine (keeps_get limit last s).bind ?_
    rintro checkpoint s ⟨rfl, rfl⟩
    refine (keeps_token? limit last s _).bind ?_
    rintro (_ | opening) s₁ takes
    · obtain rfl := State.Takes.eq takes
      exact progresses_unary nests within (fuel + 1) few last s₁ bound
    · have opened := takes.advances Nat.one_pos
      have shorter := opened.length
      refine (keeps_typeName limit last s₁).bind ?_
      rintro (_ | target) s₂ moves
      · obtain rfl := State.moves_false.mp moves
        refine (keeps_restore limit last takes Nat.one_pos (by simp)).bind ?_
        rintro - s₃ rfl
        exact progresses_unary nests within (fuel + 1) few last s₃ bound
      · have named := (State.moves_true.mp moves).length
        refine (keeps_expect limit last s₂ _).bind ?_
        intro _ s₃ closed
        have rest := closed.length
        refine (keeps_look limit last s₃ fun _ _ => rfl).bind ?_
        rintro start s₃ ⟨-, rfl⟩
        refine (ih (by omega) last s₃ (by omega)).bind ?_
        intro value s₄ passed
        exact keeps_checked fun _ =>
          opened.of_suffix (passed.suffix.trans (closed.suffix.trans moves.suffix))

/-! ### Operators and assignments -/

omit nests in
theorem progresses_levels {operand : Analysis Operand} {fuel : Nat} (few : fuel ≤ limit + 1)
    (operands : Progresses limit fuel operand) :
    ∀ tighter, Progresses limit fuel (levels fuel operand tighter)
  | [] => operands
  | ops :: tighter => by
    have next := progresses_levels few operands tighter
    intro last s bound
    refine (next last s bound).bind ?_
    intro left s₁ passed
    have shorter := passed.length
    refine (keeps_turns limit last .operators s₁ ?_ (by omega) (by omega) left).mono ?_
    · intro s₂ behind
      refine (keeps_accept? limit last s₂ _).mono ?_
      rintro (_ | op) s₃ takes
      · exact takes.suffix
      · intro left
        have begun := takes.advances Nat.one_pos
        have rest := begun.length
        have rest' := behind.length_le
        refine (next last s₃ (by omega)).bind ?_
        intro right s₄ passed
        exact keeps_checked fun _ => begun.of_suffix passed.suffix
    · exact fun _ _ behind => passed.of_suffix behind

theorem progresses_assign (within : n ≤ limit) :
    ∀ fuel, fuel ≤ n + 1 → Progresses limit fuel (assign nested fuel) := by
  intro fuel
  induction fuel with
  | zero => exact fun _ => progresses_zero
  | succ fuel ih =>
    intro few last s bound
    have targets := progresses_levels (by omega) (progresses_cast nests within (fuel + 1) few)
      Expr.levels
    refine (keeps_look limit last s fun _ _ => rfl).bind ?_
    rintro start s ⟨-, rfl⟩
    refine (targets last s bound).bind ?_
    intro target s₁ passed
    refine (keeps_token? limit last s₁ _).bind ?_
    rintro (_ | op) s₂ takes
    · obtain rfl := State.Takes.eq takes
      exact keeps_pure passed
    · have shorter := passed.length
      have rest := takes.suffix.length_le
      refine (ih (by omega) last s₂ (by omega)).bind ?_
      intro value s₃ further
      exact keeps_checked fun _ => passed.of_suffix (further.suffix.trans takes.suffix)

end

theorem progresses_expressionWithin {limit : Nat} :
    ∀ fuel, fuel ≤ limit + 1 → Progresses limit fuel (expressionWithin fuel) := by
  intro fuel
  induction fuel with
  | zero => exact fun _ => progresses_zero
  | succ fuel ih =>
    intro few
    exact progresses_assign (ih (by omega)) (by omega) (fuel + 1) (Nat.le_refl _)

theorem progresses_expression {limit bound : Nat} (few : bound ≤ limit + 1) :
    Progresses limit bound expression := by
  intro last s below
  exact keeps_bounded (progresses_expressionWithin (s.ahead.length + 1) (by omega) last s
    (Nat.lt_succ_self _))

end OnePass

end PlainC
