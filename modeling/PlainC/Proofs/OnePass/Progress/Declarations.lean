import PlainC.Proofs.OnePass.Progress.Statements

set_option autoImplicit false

/-!
Progress of the top-level declarations. What is tried as a struct and as a function is undone before
anything is added to the table, and what is left then takes at least one lexeme.
-/

namespace PlainC

namespace OnePass

open Analysis Run

section

variable {limit : Nat} (last : Lexeme) (s : State)

/-- Behind one to four lexemes of a production, going back and declining undoes it. -/
theorem keeps_undone {checkpoint : State} {count : Nat} (takes : checkpoint.Takes count s)
    (some : 1 ≤ count) (few : count ≤ 4) :
    ((do
      restore checkpoint
      return false) last s).Keeps limit fun found s' => checkpoint.Moves found s' := by
  refine (keeps_restore limit last takes some few).bind ?_
  rintro _ s' rfl
  exact keeps_pure (State.moves_false.mpr rfl)

/-! ### Structs -/

theorem keeps_members (few : s.ahead.length < limit) :
    (members last s).Keeps limit fun _ s' => s'.ahead <:+ s.ahead := by
  refine keeps_bounded (keeps_turns limit last .members s ?_ (Nat.lt_succ_self _) (by omega) ())
  intro s₁ behind
  have shorter := behind.length_le
  refine (keeps_varDeclaration last s₁ (by omega)).bind ?_
  rintro (_ | _) s₂ moves
  · obtain rfl := State.moves_false.mp moves
    exact keeps_pure (List.suffix_refl _)
  · exact keeps_pure fun _ => keeps_pure (State.moves_true.mp moves)

theorem keeps_structBody (name : Name) (few : s.ahead.length < limit) :
    (structBody name last s).Keeps limit fun _ s' => s'.ahead <:+ s.ahead := by
  refine (keeps_get limit last s).bind ?_
  rintro outer s ⟨rfl, rfl⟩
  refine (keeps_store limit last s _).bind ?_
  intro _ s₁ same
  refine (keeps_update limit last s₁ _).bind ?_
  rintro _ s₂ rfl
  refine (keeps_members last { s₁ with region := _ } (by simpa [same] using few)).bind ?_
  intro _ s₃ behind
  refine (keeps_update limit last s₃ _).bind ?_
  rintro _ s₄ rfl
  refine (keeps_expect limit last { s₃ with region := _ } _).bind ?_
  intro _ s₅ closed
  refine (keeps_expect limit last s₅ _).bind ?_
  intro _ s₆ ended
  exact keeps_checked fun _ => same ▸ ended.suffix.trans (closed.suffix.trans behind)

theorem keeps_structDeclaration (few : s.ahead.length ≤ limit) :
    (structDeclaration last s).Keeps limit fun found s' => s.Moves found s' := by
  refine (keeps_get limit last s).bind ?_
  rintro checkpoint s ⟨rfl, rfl⟩
  refine (keeps_token? limit last s _).bind ?_
  rintro (_ | word) s₁ takes
  · exact keeps_pure (State.moves_false.mpr (State.Takes.eq takes))
  · refine (keeps_expectName limit last s₁ _).bind ?_
    intro name s₂ named
    have begun : s.Takes 2 s₂ := takes.trans named
    have shorter := begun.length
    refine (keeps_token? limit last s₂ _).bind ?_
    rintro (_ | opening) s₃ opened
    · obtain rfl := State.Takes.eq opened
      exact keeps_undone last s₃ begun (by omega) (by omega)
    · have rest := opened.suffix.length_le
      refine (keeps_structBody last s₃ name (by omega)).bind ?_
      intro _ s₄ behind
      exact keeps_pure (State.moves_true.mpr
        ((begun.advances (by omega)).of_suffix (behind.trans opened.suffix)))

/-! ### Functions -/

/-- A result type is one word, or one or two of a base type, and perhaps a star. -/
theorem keeps_resultType :
    (resultType last s).Keeps limit fun found s' =>
      match found with
      | none => s' = s
      | some _ => ∃ count, 1 ≤ count ∧ count ≤ 3 ∧ s.Takes count s' := by
  refine (keeps_token? limit last s _).bind ?_
  rintro (_ | word) s₁ takes
  · obtain rfl := State.Takes.eq takes
    refine (keeps_typeBase limit last s₁).bind ?_
    rintro (_ | base) s₂ h
    · exact keeps_pure h
    · obtain ⟨count, some, few, takes⟩ := h
      refine (keeps_token? limit last s₂ _).bind ?_
      rintro (_ | star) s₃ starred
      · exact keeps_pure ⟨count + 0, by omega, by omega, takes.trans starred⟩
      · exact keeps_pure ⟨count + 1, by omega, by omega, takes.trans starred⟩
  · exact keeps_pure ⟨1, by simp, by simp, takes⟩

theorem keeps_param (index depth : Nat) :
    (param index depth last s).Keeps limit fun _ s' => s.Advances s' := by
  refine (keeps_typeBase limit last s).bind ?_
  rintro (_ | base) s₁ h
  · exact keeps_unexpected limit last s₁ _ _
  · obtain ⟨count, some, -, takes⟩ := h
    refine (keeps_expectName limit last s₁ _).bind ?_
    intro name s₂ named
    refine (keeps_extent limit last s₂).bind ?_
    intro extent s₃ behind
    refine (keeps_store limit last s₃ _).bind ?_
    intro _ s₄ same
    refine (keeps_update limit last s₄ _).mono ?_
    rintro _ s₅ rfl
    exact (takes.advances some).of_suffix (same ▸ behind.trans named.suffix)

theorem keeps_behindParams (outer : State) (ty : Ty) (name : Name) (few : s.ahead.length ≤ limit) :
    (behindParams outer ty name last s).Keeps limit fun _ s' => s'.ahead <:+ s.ahead := by
  refine (keeps_expect limit last s _).bind ?_
  intro _ s₁ closed
  have shorter := closed.suffix.length_le
  refine (keeps_compoundStatement _ last s₁ (by omega)).bind ?_
  rintro (_ | _) s₂ moves
  · exact keeps_unexpected limit last s₂ _ _
  · have passed := State.moves_true.mp moves
    refine (keeps_check limit last s₂ _).bind ?_
    rintro _ s₂ ⟨-, rfl⟩
    refine (keeps_update limit last s₂ _).mono ?_
    rintro _ s₃ rfl
    exact passed.suffix.trans closed.suffix

theorem keeps_functionBody (ty : Ty) (name : Name) (few : s.ahead.length < limit) :
    (functionBody ty name last s).Keeps limit fun _ s' => s'.ahead <:+ s.ahead := by
  refine (keeps_get limit last s).bind ?_
  rintro outer s ⟨rfl, rfl⟩
  refine (keeps_store limit last s _).bind ?_
  intro _ s₁ same
  refine (keeps_update limit last s₁ _).bind ?_
  rintro _ s₂ rfl
  have params : Progresses limit limit (commas (param s.table.size (s.functions + 1))) :=
    progresses_commas fun last s _ => keeps_param last s _ _
  refine (keeps_unlessSeen .rightParen last
    { s₁ with region := .body (s.functions + 1), functions := s.functions + 1 }
    ((params last _ (by simpa [same] using few)).mono fun _ _ passed => passed.suffix)).bind ?_
  intro _ s₃ behind
  have shorter := behind.length_le
  simp only [same] at behind shorter
  refine (keeps_behindParams last s₃ _ ty name (by omega)).mono ?_
  exact fun _ _ behind' => behind'.trans behind

theorem keeps_functionDeclaration (few : s.ahead.length ≤ limit) :
    (functionDeclaration last s).Keeps limit fun found s' => s.Moves found s' := by
  refine (keeps_get limit last s).bind ?_
  rintro checkpoint s ⟨rfl, rfl⟩
  refine (keeps_resultType last s).bind ?_
  rintro (_ | ty) s₁ h
  · exact keeps_pure (State.moves_false.mpr h)
  · obtain ⟨count, some, three, takes⟩ := h
    refine (keeps_accept? limit last s₁ _).bind ?_
    rintro (_ | name) s₂ named
    · obtain rfl := State.Takes.eq named
      exact keeps_undone last s₂ takes some (by omega)
    · have begun : s.Takes (count + 1) s₂ := takes.trans named
      have shorter := begun.length
      refine (keeps_token? limit last s₂ _).bind ?_
      rintro (_ | opening) s₃ opened
      · obtain rfl := State.Takes.eq opened
        exact keeps_undone last s₃ begun (by omega) (by omega)
      · have rest := opened.suffix.length_le
        refine (keeps_functionBody last s₃ ty name (by omega)).bind ?_
        intro _ s₄ behind
        exact keeps_pure (State.moves_true.mpr
          ((begun.advances (by omega)).of_suffix (behind.trans opened.suffix)))

/-! ### Whole programs -/

theorem keeps_functionOrVariables (few : s.ahead.length ≤ limit) :
    (functionOrVariables last s).Keeps limit fun _ s' => s.Advances s' := by
  refine (keeps_functionDeclaration last s few).bind ?_
  rintro (_ | _) s₁ moves
  · obtain rfl := State.moves_false.mp moves
    refine (keeps_varDeclaration last s₁ few).bind ?_
    rintro (_ | _) s₂ moves
    · exact keeps_unexpected limit last s₂ _ _
    · exact keeps_pure (State.moves_true.mp moves)
  · exact keeps_pure (State.moves_true.mp moves)

theorem keeps_declaration (few : s.ahead.length ≤ limit) :
    (declaration last s).Keeps limit fun _ s' => s.Advances s' := by
  refine (keeps_structDeclaration last s few).bind ?_
  rintro (_ | _) s₁ moves
  · obtain rfl := State.moves_false.mp moves
    exact keeps_functionOrVariables last s₁ few
  · exact keeps_pure (State.moves_true.mp moves)

/-- A turn is begun only in front of a lexeme, so that the turns are no more than the lexemes; and
where they end there is no lexeme left. -/
theorem keeps_declarations (few : s.ahead.length ≤ limit) :
    (declarations last s).Keeps limit fun _ s' => s'.ahead = [] := by
  refine keeps_bounded (keeps_repeating limit last .declarations
    (fun count s => count + s.ahead.length ≤ limit) (fun s' => s'.ahead = []) ?_ _ 0 () s
    (Nat.lt_succ_self _) (by omega))
  intro count s few
  refine (keeps_look limit last s fun _ _ => rfl).bind ?_
  rintro ended s' ⟨rfl, rfl⟩
  split
  case isTrue ended => exact keeps_pure (List.isEmpty_iff.mp ended)
  case isFalse ended =>
    have left : 0 < s'.ahead.length :=
      List.length_pos_iff.mpr fun empty => ended (List.isEmpty_iff.mpr empty)
    refine keeps_pure ⟨by omega, fun _ => (keeps_declaration last s' (by omega)).mono ?_⟩
    intro _ s₁ passed
    have shorter := passed.length
    exact ⟨shorter, by omega⟩

end

end OnePass

end PlainC
