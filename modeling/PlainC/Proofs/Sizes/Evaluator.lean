import PlainC.Proofs.Cursor.Evaluator
import PlainC.Proofs.Reading.TypeName
import PlainC.Proofs.Sizes.Arithmetic

set_option autoImplicit false

/-!
The evaluator in front of a size. Whatever the tokens behind the size are, as long as no operator
comes next, the evaluator goes over the size and ends as its check does.
-/

namespace PlainC

namespace Cursor

/-- The walk ends as a check does, and in a state if the check passes. -/
def Run.Ends {σ α : Type} (run : Run σ α) (rule : Checked α) (s : σ) : Prop :=
  run.result = match rule.result with
    | .ok a => .ok (a, s)
    | .error fault => .error (.fault fault)

namespace Walk

variable {σ α β : Type} {tape : List Lexeme} {s s' s'' : σ}

theorem ends_pure (a : α) : ((pure a : Walk σ α) tape s).Ends (pure a) s := rfl

theorem ends_settle (rule : Checked α) : ((settle rule : Walk σ α) tape s).Ends rule s := by
  unfold Run.Ends settle
  cases rule.result <;> rfl

theorem ends_bind {walk : Walk σ α} {next : α → Walk σ β} {rule : Checked α}
    {behind : α → Checked β} (first : (walk tape s).Ends rule s')
    (second : ∀ a, rule.Gives a → (next a tape s').Ends (behind a) s'') :
    ((walk >>= next) tape s).Ends (rule >>= behind) s'' := by
  change ((walk tape s).andThen fun a s' => next a tape s').Ends _ _
  rw [Run.Ends] at first
  cases gives : rule.result with
  | error fault =>
    rw [gives] at first
    rw [Run.Ends, Run.andThen, first, Checked.result_bind_of_fails gives]
  | ok a =>
    rw [gives] at first
    rw [Run.Ends, Run.andThen, first, Checked.result_bind_of_gives gives]
    exact second a gives

/-- Behind a part of the walk that only looks around. -/
theorem ends_behind {walk : Walk σ α} {next : α → Walk σ β} {rule : Checked β} {a : α}
    (first : (walk tape s).result = .ok (a, s')) (second : (next a tape s').Ends rule s'') :
    ((walk >>= next) tape s).Ends rule s'' := by
  change ((walk tape s).andThen fun a s' => next a tape s').Ends _ _
  rw [Run.Ends, Run.andThen, first]
  exact second

end Walk

namespace Evaluator

open Walk

variable {tape rest : List Lexeme} {index n : Nat} {t : Lexeme} {evaluator : Evaluator Int}

theorem getElem?_of_drop (here : tape.drop index = t :: rest) : tape[index]? = some t := by
  have first := congrArg (·[0]?) here
  simpa [List.getElem?_drop] using first

theorem drop_succ (here : tape.drop index = t :: rest) : tape.drop (index + 1) = rest := by
  have behind := congrArg List.tail here
  rwa [List.tail_drop] at behind

theorem drop_add {parts : Parts} (here : tape.drop index = lexemesOf parts ++ rest) :
    tape.drop (index + (lexemesOf parts).length) = rest := by
  rw [← List.drop_drop, here, List.drop_left]

theorem result_current (here : tape.drop index = t :: rest) :
    (current tape index).result = .ok (t, index) := by
  rw [current, getElem?_of_drop here]

theorem result_operator? {ops : List Operator} {op : At Operator} (among : op.value ∈ ops)
    (here : tape.drop index = ⟨.operator op.value, op.place⟩ :: rest) :
    (operator? ops tape index).result = .ok (some op, index + 1) := by
  have found := getElem?_of_drop here
  simp [operator?, peek, current, skip, bind, Run.andThen, found, Parse.operatorAmong, among, pure]

theorem result_operator?_none {ops : List Operator}
    (other : ∀ t ∈ (tape.drop index).head?, ∀ op ∈ ops, t.value ≠ .operator op) :
    (operator? ops tape index).result = .ok (none, index) := by
  have none : (tape[index]?.map At.value).bind (Parse.operatorAmong ops) = none := by
    rw [List.head?_drop] at other
    cases found : tape[index]? with
    | none => rfl
    | some t =>
      cases kind : t.value with
      | operator op => simpa [Parse.operatorAmong, kind] using fun among => other t found op among kind
      | _ => simp [Parse.operatorAmong, kind]
  simp [operator?, peek, bind, Run.andThen, none, pure]

/-- Goes over every size at a level that stands in front of a rest, fewer than `n` tokens in all. -/
def GoesOver (level n : Nat) (evaluator : Evaluator Int) : Prop :=
  ∀ tape index (size : Size) rest, tape.drop index = lexemesOf size.parts ++ rest →
    (lexemesOf size.parts ++ rest).length < n → size.Formed → level ≤ size.tightness →
    Gapless size.parts → Size.Stops level rest →
    (evaluator tape index).Ends size.value (index + (lexemesOf size.parts).length)

theorem goesOver_primary (nested : GoesOver 5 n evaluator) :
    GoesOver 8 (n + 1) (primary evaluator) := by
  intro tape index size rest here short formed tight gapless stops
  cases size with
  | literal text =>
    simp only [Size.parts, Kind.part, lexemesOf_found, lexemesOf_nil, List.cons_append] at here
    refine ends_behind (result_current here) (ends_behind rfl ?_)
    exact ends_settle _
  | paren opening inner closing =>
    cases closing with
    | missing instead => simp [Size.parts] at gapless
    | found closing =>
      simp only [Size.parts, Delimiter.part, Kind.part, Slot.parts, gapless_append, gapless_found,
        gapless_nil, and_true, true_and] at gapless
      simp only [Size.parts, Delimiter.part, Kind.part, Slot.parts, lexemesOf_append,
        lexemesOf_found, lexemesOf_nil, List.cons_append, List.nil_append, List.append_assoc,
        List.length_cons, List.length_append, List.length_nil] at here short ⊢
      have behind := drop_succ here
      refine ends_behind (result_current here) (ends_behind rfl ?_)
      refine ends_bind (nested tape (index + 1) inner _ behind (by simpa using by omega) formed
        (Size.five_le_tightness formed) gapless (by simp [Size.Stops])) fun value gives => ?_
      refine ends_behind (result_current (drop_add behind)) ?_
      rw [show index + ((lexemesOf inner.parts).length + (0 + 1) + 1) =
        index + 1 + (lexemesOf inner.parts).length + 1 by omega]
      rfl
  | missing instead => simp [Size.parts] at gapless
  | signed sign operand => simp [Size.tightness] at tight
  | binary op left right =>
    simp only [Size.tightness] at tight
    cases h : op.value <;> simp [h, Operator.level] at tight

/-- A number or a parenthesis does not begin with an operator. -/
theorem head_ne_operator {size : Size} (tight : 8 ≤ size.tightness) (gapless : Gapless size.parts)
    (rest : List Lexeme) :
    ∀ t ∈ (lexemesOf size.parts ++ rest).head?, ∀ op, t.value ≠ .operator op := by
  cases size with
  | literal | paren => simp [Size.parts]
  | missing => simp [Size.parts] at gapless
  | signed => simp [Size.tightness] at tight
  | binary op =>
    simp only [Size.tightness] at tight
    cases h : op.value <;> simp [h, Operator.level] at tight

theorem goesOver_unary (nested : GoesOver 5 n evaluator) :
    ∀ {fuel}, fuel ≤ n + 1 → GoesOver 7 fuel (unary evaluator fuel) := by
  intro fuel
  induction fuel with
  | zero => intro _ tape index size rest here short; simp at short
  | succ fuel ih =>
    intro bound tape index size rest here short formed tight gapless stops
    by_cases isPrimary : 8 ≤ size.tightness
    · refine ends_behind (result_operator?_none ?_) ?_
      · rw [here]
        exact fun t first op _ => head_ne_operator isPrimary gapless rest t first op
      · exact goesOver_primary nested tape index size rest here (by omega) formed isPrimary gapless
          fun t first op same => Nat.lt_succ_of_lt (stops t first op same)
    · cases size with
      | signed sign operand =>
        obtain ⟨among, formed, tight⟩ := formed
        simp only [Size.parts, operatorPart, Kind.part, List.cons_append, List.nil_append,
          lexemesOf_found, gapless_found, List.length_cons] at here short gapless ⊢
        rw [← Nat.add_assoc, Nat.add_right_comm]
        refine ends_behind (result_operator? among here) ?_
        have ended := ih (by omega) tape (index + 1) operand rest (drop_succ here) (by omega) formed
          tight gapless stops
        exact ends_bind ended fun value gives => ends_settle _
      | literal | paren | missing => simp [Size.tightness] at isPrimary
      | binary op left right =>
        simp only [Size.tightness] at tight
        cases h : op.value <;> simp [h, Operator.level] at tight

/-! ### Operators -/

/-- An operator behind its left operand, and the right one. -/
theorem ends_applied {level : Nat} (reads : GoesOver level n evaluator) {right : Size} (left : Int)
    (op : At Operator) (here : tape.drop index = lexemesOf right.parts ++ rest)
    (short : (lexemesOf right.parts ++ rest).length < n) (formed : right.Formed)
    (tight : level ≤ right.tightness) (gapless : Gapless right.parts)
    (stops : Size.Stops level rest) :
    (applied evaluator left op tape index).Ends
      (right.value >>= fun r => Size.atOperator op.place (Size.apply op.value left r))
      (index + (lexemesOf right.parts).length) :=
  ends_bind (reads tape index right rest here short formed tight gapless stops) fun _ _ =>
    ends_settle _

/-- The operands at a level from the first one on, if the loop goes on to end as `behind` does. The
induction is on the left operands, which the loop has put together in front of each operator. -/
theorem ends_chain {ops : List Operator} {level : Nat} (mem : ∀ op, op ∈ ops ↔ op.level = level)
    (below : level < 7) (reads : GoesOver (level + 1) n evaluator) {stop : Nat} (size : Size) :
    ∀ {rest fuel} {behind : Int → Checked Int}, tape.drop index = lexemesOf size.parts ++ rest →
      (lexemesOf size.parts ++ rest).length < n → (lexemesOf size.parts).length < fuel →
      size.Formed → level ≤ size.tightness → Gapless size.parts → Size.Stops (level + 1) rest →
      (∀ value fuel', size.value.Gives value → fuel ≤ fuel' + (lexemesOf size.parts).length →
        (repeating (operator? ops) (applied evaluator) fuel' value tape
          (index + (lexemesOf size.parts).length)).Ends (behind value) stop) →
      (chain ops fuel evaluator tape index).Ends (size.value >>= behind) stop := by
  have single {size : Size} {rest : List Lexeme} {fuel : Nat} {behind : Int → Checked Int}
      (tight : level + 1 ≤ size.tightness) (here : tape.drop index = lexemesOf size.parts ++ rest)
      (short : (lexemesOf size.parts ++ rest).length < n) (formed : size.Formed)
      (gapless : Gapless size.parts) (stops : Size.Stops (level + 1) rest)
      (more : ∀ value fuel', size.value.Gives value →
        fuel ≤ fuel' + (lexemesOf size.parts).length →
        (repeating (operator? ops) (applied evaluator) fuel' value tape
          (index + (lexemesOf size.parts).length)).Ends (behind value) stop) :
      (chain ops fuel evaluator tape index).Ends (size.value >>= behind) stop :=
    ends_bind (reads tape index size rest here short formed tight gapless stops)
      fun value gives => more value fuel gives (Nat.le_add_right _ _)
  induction size with
  | literal | signed | paren | missing =>
    intro rest fuel behind here short _ formed _ gapless stops more
    exact single (by simp only [Size.tightness]; omega) here short formed gapless stops more
  | binary op left right ih =>
    intro rest fuel behind here short enough formed tight gapless stops more
    by_cases tighter : level + 1 ≤ op.value.level
    · exact single tighter here short formed gapless stops more
    have same : op.value.level = level := Nat.le_antisymm (by omega) tight
    obtain ⟨-, formedLeft, tightLeft, formedRight, tightRight⟩ := formed
    rw [same] at tightLeft tightRight
    simp only [Size.parts, gapless_append] at gapless
    simp only [Size.parts, operatorPart, Kind.part, lexemesOf_append, lexemesOf_found,
      List.append_assoc, List.cons_append, List.nil_append, List.length_append, List.length_cons]
      at here short enough more
    -- the loop has the left operand as its value when it comes to the operator
    have value_eq : (Size.binary op left right).value >>= behind = left.value >>= fun l =>
        (right.value >>= fun r => Size.atOperator op.place (Size.apply op.value l r)) >>= behind := by
      simp only [Size.value, bind_assoc]
    rw [value_eq]
    refine ih here (by simpa using short) (by omega) formedLeft tightLeft gapless.1.1
      (by simp [Size.Stops, same]) fun l fuel' givesLeft enough' => ?_
    obtain ⟨fuel', rfl⟩ : ∃ less, fuel' = less + 1 := Nat.exists_eq_add_one_of_ne_zero (by omega)
    have atOp := drop_add here
    have atRight := drop_succ atOp
    refine ends_behind (result_operator? ((mem _).mpr same) atOp) ?_
    refine ends_bind (ends_applied reads l op atRight (by simp; omega) formedRight
      tightRight gapless.2 stops) fun value givesOp => ?_
    have gives : (Size.binary op left right).value.Gives value :=
      Checked.gives_bind.mpr ⟨l, givesLeft, givesOp⟩
    have more' := more value fuel' gives (by omega)
    rwa [show index + ((lexemesOf left.parts).length + ((lexemesOf right.parts).length + 1)) =
      index + (lexemesOf left.parts).length + 1 + (lexemesOf right.parts).length by omega] at more'

/-- The loop ends where no more operator of the level comes. -/
theorem goesOver_chain {ops : List Operator} {level fuel : Nat}
    (mem : ∀ op, op ∈ ops ↔ op.level = level) (below : level < 7)
    (reads : GoesOver (level + 1) n evaluator) (enough : n ≤ fuel) :
    GoesOver level n (chain ops fuel evaluator) := by
  intro tape index size rest here short formed tight gapless stops
  have lengths : (lexemesOf size.parts).length + rest.length < n := by simpa using short
  rw [← bind_pure size.value]
  refine ends_chain mem below reads size here short (by omega) formed tight gapless
    (fun t first op same => Nat.lt_succ_of_lt (stops t first op same)) fun value fuel' _ enough' => ?_
  obtain ⟨fuel', rfl⟩ : ∃ less, fuel' = less + 1 := Nat.exists_eq_add_one_of_ne_zero (by omega)
  refine ends_behind (result_operator?_none ?_) (ends_pure value)
  rw [drop_add here]
  intro t first op among same
  have small := stops t first op same
  rw [(mem op).mp among] at small
  omega

theorem goesOver_sizeWithin (fuel : Nat) : GoesOver 5 fuel (sizeWithin fuel) := by
  induction fuel with
  | zero => intro tape index size rest here short; simp at short
  | succ fuel ih =>
    have factor := goesOver_unary ih (Nat.le_refl (fuel + 1))
    have term := goesOver_chain Operator.mem_multiplicative_iff (by omega) factor
      (Nat.le_refl (fuel + 1))
    exact goesOver_chain Operator.mem_additive_iff (by omega) term (Nat.le_refl (fuel + 1))

theorem ends_size {size : Size} (formed : size.Formed) (gapless : Gapless size.parts)
    (stops : Size.Stops 5 rest) :
    (Evaluator.size (lexemesOf size.parts ++ rest) 0).Ends size.value
      (lexemesOf size.parts).length := by
  have ended := goesOver_sizeWithin ((lexemesOf size.parts ++ rest).length + 1)
    (lexemesOf size.parts ++ rest) 0 size rest rfl (Nat.lt_succ_self _) formed
    (Size.five_le_tightness formed) gapless stops
  rwa [Nat.zero_add] at ended

end Evaluator

end Cursor

end PlainC
