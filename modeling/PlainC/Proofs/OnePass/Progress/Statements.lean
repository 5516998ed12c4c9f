import PlainC.Proofs.OnePass.Progress.Expressions

set_option autoImplicit false

/-!
Progress of the declarations of variables and of statements. Each item of a block takes lexemes, and
the brace in front of them leaves room for the turn in which the end of input is met.
-/

namespace PlainC

namespace OnePass

open Analysis Run

variable {limit n : Nat}

/-! ### Lists with commas and optional parts -/

theorem progresses_commas {item : Analysis Unit} (items : Progresses limit limit item) :
    Progresses limit limit (commas item) := by
  intro last s below
  refine (keeps_turned last s .commas (by omega)).bind ?_
  rintro - s rfl
  refine (items last _ below).bind ?_
  intro _ s₁ passed
  have shorter := passed.length
  refine (keeps_bounded (keeps_turns limit last .commas s₁ ?_ (Nat.lt_succ_self _) (by omega)
    ())).mono ?_
  · intro s₂ behind
    refine (keeps_token? limit last s₂ _).mono ?_
    rintro (_ | comma) s₃ takes
    · exact takes.suffix
    · intro _
      have rest := takes.suffix.length_le
      have rest' := behind.length_le
      refine (items last s₃ (by omega)).mono ?_
      intro _ s₄ further
      exact (takes.advances Nat.one_pos).of_suffix further.suffix
  · exact fun _ _ behind => passed.of_suffix behind

theorem keeps_unlessSeen (mark : Delimiter) {analysis : Analysis Unit} (last : Lexeme) (s : State)
    (otherwise : (analysis last s).Keeps limit fun _ s' => s'.ahead <:+ s.ahead) :
    (unlessSeen mark analysis last s).Keeps limit fun _ s' => s'.ahead <:+ s.ahead := by
  refine (keeps_look limit last s fun _ _ => rfl).bind ?_
  rintro seen s ⟨-, rfl⟩
  split
  · exact keeps_pure (List.suffix_refl _)
  · exact otherwise

/-! ### Variables -/

theorem keeps_initializer (ty : Ty) (last : Lexeme) (s : State) (few : s.ahead.length < limit) :
    (initializer ty last s).Keeps limit fun _ s' => s'.ahead <:+ s.ahead := by
  have expressions := progresses_expression (Nat.le_refl (limit + 1))
  refine (keeps_token? limit last s _).bind ?_
  rintro (_ | opening) s₁ takes
  · obtain rfl := State.Takes.eq takes
    refine (keeps_look limit last s₁ fun _ _ => rfl).bind ?_
    rintro start s₁ ⟨-, rfl⟩
    refine (expressions last s₁ (by omega)).bind ?_
    intro source s₂ passed
    exact keeps_checked fun _ => passed.suffix
  · have opened := takes.suffix.length_le
    refine (keeps_check limit last s₁ _).bind ?_
    rintro - s₁ ⟨-, rfl⟩
    refine (keeps_token? limit last s₁ _).bind ?_
    rintro (_ | closing) s₂ takes'
    · obtain rfl := State.Takes.eq takes'
      refine (keeps_bounded (keeps_arguments expressions _ last _ 0 s₂ (Nat.lt_succ_self _)
        (by omega) (by omega))).bind ?_
      intro given s₃ passed
      refine (keeps_expect limit last s₃ _).bind ?_
      intro _ s₄ closed
      exact keeps_checked fun _ => closed.suffix.trans (passed.suffix.trans takes.suffix)
    · exact keeps_checked fun _ => takes'.suffix.trans takes.suffix

theorem keeps_initialized (region : Region) (name : Name) (ty : Ty) (last : Lexeme) (s : State)
    (few : s.ahead.length ≤ limit) :
    (initialized region name ty last s).Keeps limit fun _ s' => s'.ahead <:+ s.ahead := by
  refine (keeps_token? limit last s _).bind ?_
  rintro (_ | op) s₁ takes
  · exact keeps_pure takes.suffix
  · have assigned := (takes.advances Nat.one_pos).length
    have few' : s₁.ahead.length < limit := by omega
    cases region with
    | members _ _ => exact keeps_checked fun _ => takes.suffix
    | topLevel | body _ =>
      exact (keeps_initializer ty last s₁ few').mono fun _ _ behind => behind.trans takes.suffix

theorem progresses_declarator (base : Base) : Progresses limit (limit + 1) (declarator base) := by
  intro last s below
  refine (keeps_expectName limit last s _).bind ?_
  intro name s₁ named
  refine (keeps_extent limit last s₁).bind ?_
  intro extent s₂ behind
  have shorter := (behind.trans named.suffix).length_le
  refine (keeps_get limit last s₂).bind ?_
  rintro found s₂ ⟨rfl, rfl⟩
  refine (keeps_initialized _ name _ last s₂ (by omega)).bind ?_
  intro ty s₃ behind'
  refine (keeps_store limit last s₃ _).mono ?_
  intro _ s₄ same
  exact (named.advances Nat.one_pos).of_suffix (same ▸ behind'.trans behind)

theorem keeps_varDeclaration (last : Lexeme) (s : State) (few : s.ahead.length ≤ limit) :
    (varDeclaration last s).Keeps limit fun found s' => s.Moves found s' := by
  refine (keeps_typeBase limit last s).bind ?_
  rintro (_ | base) s₁ h
  · exact keeps_pure (State.moves_false.mpr h)
  · obtain ⟨count, some, -, takes⟩ := h
    have shorter := takes.length
    refine (progresses_commas (fun last s below => progresses_declarator base last s (by omega))
      last s₁ (by omega)).bind ?_
    intro _ s₂ passed
    refine (keeps_expect limit last s₂ _).bind ?_
    intro _ s₃ closed
    exact keeps_pure (State.moves_true.mpr
      ((takes.advances some).of_suffix (closed.suffix.trans passed.suffix)))

/-! ### Parts of statements -/

theorem progresses_unused : Progresses limit (limit + 1) unused := by
  intro last s below
  refine (progresses_expression (Nat.le_refl _) last s below).bind ?_
  intro value s' passed
  exact keeps_pure passed

theorem progresses_tested : Progresses limit (limit + 1) tested := by
  intro last s below
  refine (keeps_look limit last s fun _ _ => rfl).bind ?_
  rintro start s ⟨-, rfl⟩
  refine (progresses_expression (Nat.le_refl _) last s below).bind ?_
  intro value s₁ passed
  exact keeps_checked fun _ => passed

theorem progresses_condition : Progresses limit (limit + 1) condition := by
  intro last s below
  refine (keeps_expect limit last s _).bind ?_
  intro _ s₁ opened
  have shorter := opened.length
  refine (progresses_tested last s₁ (by omega)).bind ?_
  intro _ s₂ passed
  refine (keeps_expect limit last s₂ _).mono ?_
  intro _ s₃ closed
  exact (opened.advances Nat.one_pos).of_suffix (closed.suffix.trans passed.suffix)

theorem progresses_forHeader : Progresses limit (limit + 1) forHeader := by
  intro last s below
  have part : ∀ (mark : Delimiter) {analysis : Analysis Unit} (s' : State),
      Progresses limit (limit + 1) analysis → s'.ahead <:+ s.ahead →
      (unlessSeen mark analysis last s').Keeps limit fun _ s'' => s''.ahead <:+ s'.ahead := by
    intro mark analysis s' progresses behind
    have shorter := behind.length_le
    exact keeps_unlessSeen mark last s' ((progresses last s' (by omega)).mono
      fun _ _ passed => passed.suffix)
  refine (keeps_expect limit last s _).bind ?_
  intro _ s₁ opened
  refine (part .semicolon s₁ progresses_unused opened.suffix).bind ?_
  intro _ s₂ behind₂
  refine (keeps_expect limit last s₂ _).bind ?_
  intro _ s₃ ended₃
  have behind₃ := ended₃.suffix.trans behind₂
  refine (part .semicolon s₃ progresses_tested (behind₃.trans opened.suffix)).bind ?_
  intro _ s₄ behind₄
  refine (keeps_expect limit last s₄ _).bind ?_
  intro _ s₅ ended₅
  have behind₅ := ended₅.suffix.trans (behind₄.trans behind₃)
  refine (part .rightParen s₅ progresses_unused (behind₅.trans opened.suffix)).bind ?_
  intro _ s₆ behind₆
  refine (keeps_expect limit last s₆ _).mono ?_
  intro _ s₇ closed
  exact (opened.advances Nat.one_pos).of_suffix (closed.suffix.trans (behind₆.trans behind₅))

theorem progresses_returnValue (scope : FunctionScope) (word : Place) :
    Progresses limit (limit + 1) (returnValue scope word) := by
  intro last s below
  refine (keeps_look limit last s fun _ _ => rfl).bind ?_
  rintro seen s ⟨-, rfl⟩
  split
  · refine (keeps_check limit last s _).bind ?_
    rintro _ s ⟨-, rfl⟩
    refine (keeps_expect limit last s _).mono ?_
    exact fun _ _ ended => ended.advances Nat.one_pos
  · refine (progresses_expression (Nat.le_refl _) last s below).bind ?_
    intro value s₁ passed
    refine (keeps_check limit last s₁ _).bind ?_
    rintro _ s₁ ⟨-, rfl⟩
    refine (keeps_expect limit last s₁ _).mono ?_
    exact fun _ _ ended => passed.of_suffix ended.suffix

theorem keeps_breakLoop (word : Place) (last : Lexeme) (s : State) :
    (breakLoop word last s).Keeps limit fun _ s' => s.Advances s' := by
  refine (keeps_get limit last s).bind ?_
  rintro found s ⟨rfl, rfl⟩
  refine (keeps_check limit last s _).bind ?_
  rintro _ s ⟨-, rfl⟩
  refine (keeps_expect limit last s _).mono ?_
  exact fun _ _ ended => ended.advances Nat.one_pos

theorem progresses_expressionStatement : Progresses limit (limit + 1) expressionStatement := by
  intro last s below
  refine (keeps_look limit last s fun _ _ => rfl).bind ?_
  rintro next s ⟨-, rfl⟩
  split
  · refine (progresses_unused last s below).bind ?_
    intro _ s₁ passed
    refine (keeps_expect limit last s₁ _).mono ?_
    exact fun _ _ ended => passed.of_suffix ended.suffix
  · exact keeps_unexpected limit last s _ _

/-! ### Blocks and loops -/

section

variable {nested : Analysis Unit} (nests : Progresses limit n nested)

include nests

theorem progresses_item (within : n ≤ limit) : Progresses limit n (item nested) := by
  intro last s below
  refine (keeps_look limit last s fun _ _ => rfl).bind ?_
  rintro ended s ⟨-, rfl⟩
  split
  · exact keeps_unexpected limit last s _ _
  · refine (keeps_varDeclaration last s (by omega)).bind ?_
    rintro (_ | _) s₁ moves
    · obtain rfl := State.moves_false.mp moves
      exact nests last s₁ below
    · exact keeps_pure (State.moves_true.mp moves)

theorem keeps_items (within : n ≤ limit) (last : Lexeme) (s : State) (below : s.ahead.length < n) :
    (items nested last s).Keeps limit fun _ s' => s'.ahead <:+ s.ahead := by
  refine keeps_bounded (keeps_turns limit last .items s ?_ (Nat.lt_succ_self _) (by omega) ())
  intro s₁ behind
  refine (keeps_look limit last s₁ fun _ _ => rfl).bind ?_
  rintro ended s₁ ⟨-, rfl⟩
  split
  · exact keeps_pure (List.suffix_refl _)
  · refine keeps_pure ?_
    intro _
    have shorter := behind.length_le
    exact progresses_item nests within last s₁ (by omega)

theorem keeps_compound (within : n ≤ limit) (last : Lexeme) (s : State)
    (below : s.ahead.length < n + 1) :
    (compound nested last s).Keeps limit fun found s' => s.Moves found s' := by
  refine (keeps_token? limit last s _).bind ?_
  rintro (_ | opening) s₁ takes
  · exact keeps_pure (State.moves_false.mpr (State.Takes.eq takes))
  · have opened := takes.advances Nat.one_pos
    have shorter := opened.length
    refine (keeps_items nests within last s₁ (by omega)).bind ?_
    intro _ s₂ behind
    refine (keeps_expect limit last s₂ _).bind ?_
    intro _ s₃ closed
    exact keeps_pure (State.moves_true.mpr (opened.of_suffix (closed.suffix.trans behind)))

theorem progresses_loopBody : Progresses limit n (loopBody nested) := by
  intro last s below
  refine (keeps_update limit last s _).bind ?_
  rintro _ s₁ rfl
  refine (nests last { s with loops := s.loops + 1 } below).bind ?_
  intro _ s₂ passed
  refine (keeps_update limit last s₂ _).mono ?_
  rintro _ s₃ rfl
  exact passed

theorem progresses_ifStatement (within : n ≤ limit + 1) :
    Progresses limit n (ifStatement nested) := by
  intro last s below
  refine (progresses_condition last s (by omega)).bind ?_
  intro _ s₁ passed
  have shorter := passed.length
  refine (nests last s₁ (by omega)).bind ?_
  intro _ s₂ passed₂
  have shorter₂ := passed₂.length
  refine (keeps_token? limit last s₂ _).bind ?_
  rintro (_ | word) s₃ takes
  · exact keeps_pure (passed.of_suffix (takes.suffix.trans passed₂.suffix))
  · have rest := takes.suffix.length_le
    refine (nests last s₃ (by omega)).mono ?_
    intro _ s₄ passed₄
    exact passed.of_suffix (passed₄.suffix.trans (takes.suffix.trans passed₂.suffix))

theorem progresses_whileStatement (within : n ≤ limit + 1) :
    Progresses limit n (whileStatement nested) := by
  intro last s below
  refine (progresses_condition last s (by omega)).bind ?_
  intro _ s₁ passed
  have shorter := passed.length
  refine (progresses_loopBody nests last s₁ (by omega)).mono ?_
  exact fun _ _ passed' => passed.of_suffix passed'.suffix

theorem progresses_forStatement (within : n ≤ limit + 1) :
    Progresses limit n (forStatement nested) := by
  intro last s below
  refine (progresses_forHeader last s (by omega)).bind ?_
  intro _ s₁ passed
  have shorter := passed.length
  refine (progresses_loopBody nests last s₁ (by omega)).mono ?_
  exact fun _ _ passed' => passed.of_suffix passed'.suffix

end

/-! ### Statements -/

/-- A statement that begins with a word takes the word. -/
theorem keeps_keyword {word : Keyword} {last : Lexeme} {s : State} {behind : Place → Analysis Unit}
    {otherwise : Analysis Unit} (few : s.ahead.length < n + 1)
    (found : ∀ place, Progresses limit n (behind place))
    (other : (otherwise last s).Keeps limit fun _ s' => s.Advances s') :
    ((do
      match ← read (Parse.keyword? word) with
      | some place => behind place
      | _ => otherwise) last s).Keeps limit fun _ s' => s.Advances s' := by
  refine (keeps_token? limit last s _).bind ?_
  rintro (_ | place) s₁ takes
  · obtain rfl := State.Takes.eq takes
    exact other
  · have taken := takes.advances Nat.one_pos
    have shorter := taken.length
    refine (found place last s₁ (by omega)).mono ?_
    exact fun _ _ passed => taken.of_suffix passed.suffix

theorem progresses_statementWithin (scope : FunctionScope) :
    ∀ fuel, fuel ≤ limit + 1 → Progresses limit fuel (statementWithin scope fuel) := by
  intro fuel
  induction fuel with
  | zero => exact fun _ => progresses_zero
  | succ fuel ih =>
    intro few last s below
    have nests := ih (by omega)
    have wider : ∀ {analysis : Analysis Unit}, Progresses limit (limit + 1) analysis →
        Progresses limit fuel analysis := fun progresses last s below =>
      progresses last s (by omega)
    rw [statementWithin]
    refine (keeps_compound nests (by omega) last s below).bind ?_
    rintro (_ | _) s₁ moves
    case true => exact keeps_pure (State.moves_true.mp moves)
    obtain rfl := State.moves_false.mp moves
    refine keeps_keyword below (fun _ => progresses_ifStatement nests (by omega)) ?_
    refine keeps_keyword below (fun _ => progresses_whileStatement nests (by omega)) ?_
    refine keeps_keyword below (fun _ => progresses_forStatement nests (by omega)) ?_
    refine keeps_keyword below (fun word => fun last s _ => keeps_breakLoop word last s) ?_
    refine keeps_keyword below (fun word => wider (progresses_returnValue scope word)) ?_
    refine (keeps_token? limit last s₁ _).bind ?_
    rintro (_ | semicolon) s₂ takes
    · obtain rfl := State.Takes.eq takes
      exact progresses_expressionStatement last s₂ (by omega)
    · exact keeps_pure (takes.advances Nat.one_pos)

theorem progresses_statement (scope : FunctionScope) :
    Progresses limit (limit + 1) (statement scope) := by
  intro last s below
  exact keeps_bounded (progresses_statementWithin scope (s.ahead.length + 1) (by omega) last s
    (Nat.lt_succ_self _))

theorem keeps_compoundStatement (scope : FunctionScope) (last : Lexeme) (s : State)
    (few : s.ahead.length ≤ limit) :
    (compoundStatement scope last s).Keeps limit fun found s' => s.Moves found s' :=
  keeps_compound (fun last s below => progresses_statement scope last s (by omega))
    (Nat.le_refl limit) last s (by omega)

end OnePass

end PlainC
