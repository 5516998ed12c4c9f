import PlainC.Proofs.Cursor.Barrier
import PlainC.Proofs.Reading.Repetition

set_option autoImplicit false

/-!
The evaluator of sizes in front of the first end of input. It computes what a size comes to that is
read as a whole, with the same faults, and goes over the tokens of this size only.
-/

namespace PlainC

/-! ### Reading -/

namespace Size

variable (nested : Parse Size) (last : Lexeme) {t : Lexeme} {ts : List Lexeme}

theorem parsePrimary_of_integer {text : String} (read : integerText t.value = some text) :
    parsePrimary nested last (t :: ts) = (.literal ⟨text, t.place⟩, ts) := by
  simp [parsePrimary, Parse.accept?, read]

theorem parsePrimary_of_paren (opening : t.value = .delimiter .leftParen) :
    parsePrimary nested last (t :: ts) =
      (.paren t.place (nested last ts).1 (Parse.mark .rightParen last (nested last ts).2).1,
        (Parse.mark .rightParen last (nested last ts).2).2) := by
  simp [parsePrimary, Parse.accept?, Parse.mark?, Parse.token?, integerText, opening]

theorem parsePrimary_of_other
    (other : ∀ t ∈ ts.head?, integerText t.value = none ∧ t.value ≠ .delimiter .leftParen) :
    parsePrimary nested last ts = (.missing (ts.headD last), ts) := by
  cases ts with
  | nil => rfl
  | cons t ts =>
    obtain ⟨noInteger, noParen⟩ := other t rfl
    simp [parsePrimary, Parse.accept?, Parse.mark?, Parse.token?, noInteger, noParen, gap]

/-- Whatever lexemes come next, the size begins at the first of them. -/
def Begins (parse : Parse Size) : Prop :=
  ∀ last ts, (parse last ts).1.start = (ts.headD last).place

theorem parsePrimary_begins (nested : Parse Size) : Begins (parsePrimary nested) := by
  intro last ts
  rcases Parse.accept?_cases integerText last ts with ⟨t, behind, text, rfl, read, -⟩ | ⟨other, -⟩
  · rw [parsePrimary_of_integer nested last read]
    rfl
  · rcases Parse.token?_cases (.delimiter .leftParen) last ts with
        ⟨opening, behind, rfl, -⟩ | ⟨other', -⟩
    · rw [parsePrimary_of_paren nested last rfl]
      rfl
    · rw [parsePrimary_of_other nested last fun t first => ⟨other t first, other' t first⟩]
      rfl

theorem parseSigned_begins (nested : Parse Size) : ∀ fuel, Begins (parseSigned nested fuel)
  | 0 => fun _ _ => rfl
  | fuel + 1 => by
    intro last ts
    rcases Parse.operator?_cases [.minus, .plus] last ts with ⟨op, behind, -, rfl, hop⟩ | ⟨-, hop⟩
    · simp [parseSigned, hop, start]
    · simp [parseSigned, hop, parsePrimary_begins nested last ts]

/-- An operator and its right operand stand behind the left one. -/
theorem start_appendOperand {ops : List Operator} {operand : Parse Size} {last : Lexeme}
    {left longer : Size} {ts : List Lexeme}
    (h : (Parse.appendOperand .binary ops operand left last ts).1 = some longer) :
    longer.start = left.start := by
  rcases hop : Parse.operator? ops last ts with ⟨_ | op, behind⟩
  · simp [Parse.appendOperand, hop] at h
  · obtain rfl : _ = longer := by simpa [Parse.appendOperand, hop] using h
    rfl

theorem leftAssociative_begins {operand : Parse Size} (begins : Begins operand)
    (ops : List Operator) (fuel : Nat) : Begins (Parse.leftAssociative .binary ops fuel operand) := by
  intro last ts
  refine Eq.trans ?_ (begins last ts)
  rw [Parse.leftAssociative_apply]
  exact Parse.extend_keeps start (fun _ _ _ h => start_appendOperand h) fuel _ _

theorem parseWithin_begins : ∀ fuel, Begins (parseWithin fuel)
  | 0 => fun _ _ => rfl
  | fuel + 1 => leftAssociative_begins
      (leftAssociative_begins (parseSigned_begins (parseWithin fuel) (fuel + 1)) _ fuel) _ fuel

end Size

namespace Cursor

namespace Evaluator

open Run Walk

/-- The evaluation of a size that has been read: it fails as the value of the size does, or gives this
value and leaves the index where the reading has got to. -/
def Computes (tape : List Lexeme) (k index : Nat) (run : Run Nat Int)
    (found : Size × List Lexeme) : Prop :=
  run.Meets tape (Stop.IsFaultOf found.1.value) fun value i =>
    found.1.value.Gives value ∧ index ≤ i ∧ Clear tape i ∧ found.2 = ahead tape k i

/-- In front of fewer than `n` tokens, the evaluator computes what is read. -/
def Evaluates (tape : List Lexeme) (k : Nat) (last : Lexeme) (n : Nat) (evaluator : Evaluator Int)
    (parse : Parse Size) : Prop :=
  ∀ index, Clear tape index → k - index < n →
    Computes tape k index (evaluator tape index) (parse last (ahead tape k index))

/-! ### Tokens -/

section

variable {tape : List Lexeme} {k index : Nat} {last : Lexeme} {stopped : Stop → Prop}

theorem meets_current (barrier : Barrier tape k last) (clear : Clear tape index) :
    (current tape index).Meets tape stopped fun token i =>
      token = (ahead tape k index).headD last ∧ i = index := by
  have here := clear.getElem? barrier
  simp only [current, here]
  exact meets_ok (List.forall_mem_singleton.mpr clear) ⟨rfl, rfl⟩

theorem meets_peek (barrier : Barrier tape k last) (clear : Clear tape index) :
    (peek tape index).Meets tape stopped fun kind i =>
      kind = some ((ahead tape k index).headD last).value ∧ i = index := by
  have here := clear.getElem? barrier
  simp only [peek, here]
  exact meets_ok (List.forall_mem_singleton.mpr clear) ⟨rfl, rfl⟩

theorem meets_skip (clear : Clear tape (index + 1)) :
    (skip tape index).Meets tape stopped fun _ i => i = index + 1 :=
  meets_ok (List.forall_mem_singleton.mpr clear) rfl

/-- An operator is gone over just if it is read. -/
theorem meets_operator? (barrier : Barrier tape k last) (clear : Clear tape index)
    (ops : List Operator) :
    (operator? ops tape index).Meets tape stopped fun found i =>
      match found with
      | none => i = index ∧
          Parse.operator? ops last (ahead tape k index) = (none, ahead tape k index)
      | some op => i = index + 1 ∧ index < k ∧ Clear tape i ∧
          (ahead tape k index).headD last = ⟨.operator op.value, op.place⟩ ∧
          Parse.operator? ops last (ahead tape k index) = (some op, ahead tape k i) := by
  refine (meets_peek barrier clear).bind ?_
  rintro _ index ⟨rfl, rfl⟩
  rw [Option.bind_some]
  obtain ⟨token, lt, here, notEnd, front⟩ | ⟨rfl, -, front⟩ := clear.cases barrier
  · rw [front, List.headD_cons]
    cases read : Parse.operatorAmong ops token.value with
    | none =>
      refine meets_pure ⟨rfl, ?_⟩
      simp [Parse.operator?, Parse.accept?, read]
    | some op =>
      have isOperator : token.value = .operator op := by
        cases kind : token.value <;> simp [Parse.operatorAmong, kind] at read
        rw [read.2]
      have further := clear.succ here (by simp [isOperator]) notEnd
      refine (meets_current barrier clear).bind ?_
      rintro _ index ⟨rfl, rfl⟩
      refine (meets_skip further).bind ?_
      rintro _ _ rfl
      rw [front, List.headD_cons]
      refine meets_pure ⟨rfl, lt, further, ?_, ?_⟩
      · rw [← isOperator]
      · simp [Parse.operator?, Parse.accept?, read]
  · rw [front, List.headD_nil, barrier.isEnd]
    exact meets_pure ⟨rfl, rfl⟩

/-! ### Operands -/

variable {n : Nat} {evaluator : Evaluator Int} {parse : Parse Size}

theorem computes_closed (barrier : Barrier tape k last) {place : Place} {found : Size × List Lexeme}
    (nested : Computes tape k index (evaluator tape index) found) :
    Computes tape k index (closed evaluator tape index)
      (.paren place found.1 (Parse.mark .rightParen last found.2).1,
        (Parse.mark .rightParen last found.2).2) := by
  have value_eq (closing : Slot Place) : (Size.paren place found.1 closing).value =
      found.1.value >>= fun value => Checked.requireMark .rightParen closing >>= fun _ =>
        pure value := rfl
  rw [Computes, value_eq]
  refine (nested.mono (fun _ isFault => isFault.bind _) fun _ _ => id).bind ?_
  rintro value i ⟨gives, le, clear, rest⟩
  rw [rest]
  refine (meets_current barrier clear).bind ?_
  rintro _ i ⟨rfl, rfl⟩
  by_cases closing : ((ahead tape k i).headD last).value = .delimiter .rightParen
  · obtain ⟨⟨_, place'⟩, lt, here, notEnd, front⟩ | ⟨rfl, -, front⟩ := clear.cases barrier
    · rw [front, List.headD_cons] at closing
      obtain rfl := closing
      have further := clear.succ here nofun notEnd
      rw [front, List.headD_cons, if_pos rfl, Parse.mark_of_head]
      refine (meets_skip further).bind ?_
      rintro _ _ rfl
      refine meets_pure ⟨?_, Nat.le_succ_of_le le, further, rfl⟩
      simpa [Checked.requireMark, Checked.require] using gives
    · rw [front, List.headD_nil, barrier.isEnd] at closing
      cases closing
  · rw [if_neg closing, Parse.mark, Parse.token_of_ne]
    · refine (meets_settle _).mono (fun _ isFault => .behind gives isFault) ?_
      rintro _ _ ⟨⟨⟩, -⟩
    · intro t first same
      rw [List.headD_eq_head?_getD, first] at closing
      exact closing same

/-- What is no operand of a size is reported where it stands. -/
theorem computes_other (barrier : Barrier tape k last) (clear : Clear tape index)
    (noInteger : Size.integerText ((ahead tape k index).headD last).value = none)
    (noParen : ((ahead tape k index).headD last).value ≠ .delimiter .leftParen) :
    Computes tape k index (primary evaluator tape index)
      (Size.parsePrimary parse last (ahead tape k index)) := by
  rw [Size.parsePrimary_of_other]
  · refine (meets_current barrier clear).bind ?_
    rintro _ index ⟨rfl, rfl⟩
    rw [noInteger]
    simp only [if_neg noParen]
    refine (meets_settle _).mono (fun _ => id) ?_
    rintro _ _ ⟨⟨⟩, -⟩
  · intro t first
    rw [List.headD_eq_head?_getD, first] at noInteger noParen
    exact ⟨noInteger, noParen⟩

theorem evaluates_primary (barrier : Barrier tape k last)
    (nested : Evaluates tape k last n evaluator parse) :
    Evaluates tape k last (n + 1) (primary evaluator) (Size.parsePrimary parse) := by
  intro index clear few
  obtain ⟨token, lt, here, notEnd, front⟩ | ⟨rfl, -, front⟩ := clear.cases barrier
  · cases read : Size.integerText token.value with
    | some text =>
      have further := clear.succ here (by rintro same; rw [same] at read; cases read) notEnd
      rw [front, Size.parsePrimary_of_integer parse last read]
      refine (meets_current barrier clear).bind ?_
      rintro _ index ⟨rfl, rfl⟩
      rw [front, List.headD_cons, read]
      refine (meets_skip further).bind ?_
      rintro _ _ rfl
      refine (meets_settle _).mono (fun _ => id) ?_
      rintro value _ ⟨gives, rfl⟩
      exact ⟨gives, Nat.le_succ _, further, rfl⟩
    | none =>
      by_cases opening : token.value = .delimiter .leftParen
      · have further := clear.succ here (by simp [opening]) notEnd
        rw [front, Size.parsePrimary_of_paren parse last opening]
        refine (meets_current barrier clear).bind ?_
        rintro _ index ⟨rfl, rfl⟩
        rw [front, List.headD_cons, read]
        simp only [opening, if_true]
        refine (meets_skip further).bind ?_
        rintro _ _ rfl
        refine (computes_closed barrier (nested (index + 1) further (by omega))).mono (fun _ => id) ?_
        rintro value i ⟨gives, le, clear, rest⟩
        exact ⟨gives, Nat.le_of_succ_le le, clear, rest⟩
      · refine computes_other barrier clear ?_ ?_ <;> rwa [front, List.headD_cons]
  · refine computes_other barrier clear ?_ ?_ <;> rw [front, List.headD_nil, barrier.isEnd]
    · rfl
    · nofun

theorem evaluates_unary (barrier : Barrier tape k last)
    (operand : Evaluates tape k last n (primary evaluator) (Size.parsePrimary parse)) :
    ∀ m ≤ n, ∀ fuel fuel', m ≤ fuel → m ≤ fuel' →
      Evaluates tape k last m (unary evaluator fuel') (Size.parseSigned parse fuel) := by
  intro m
  induction m with
  | zero => exact fun _ _ _ _ _ _ _ none => absurd none (Nat.not_lt_zero _)
  | succ m ih =>
    rintro le (_ | fuel) (_ | fuel') enough enough' index clear few
    all_goals try omega
    have value_eq (sign : At Operator) (operand : Size) : (Size.signed sign operand).value =
        operand.value >>= fun value =>
          Size.atOperator sign.place (Size.negateIf sign.value value) := rfl
    refine (meets_operator? barrier clear _).bind ?_
    rintro (_ | sign) i found
    · obtain ⟨rfl, read⟩ := found
      have same : Size.parseSigned parse (fuel + 1) last (ahead tape k i) =
          Size.parsePrimary parse last (ahead tape k i) := by
        simp [Size.parseSigned, read]
      rw [same]
      exact operand i clear (by omega)
    · obtain ⟨rfl, lt, further, -, read⟩ := found
      have computes := ih (by omega) fuel fuel' (by omega) (by omega) (index + 1) further (by omega)
      simp only [Size.parseSigned, Parse.bind_apply, Parse.pure_apply, read]
      rw [value_eq]
      refine (computes.mono (fun _ isFault => isFault.bind _) fun _ _ => id).bind ?_
      rintro value i ⟨gives, le, clear, rest⟩
      refine (meets_settle _).mono (fun _ isFault => .behind gives isFault) ?_
      rintro value' _ ⟨gives', rfl⟩
      exact ⟨Checked.gives_bind.mpr ⟨value, gives, gives'⟩, Nat.le_of_succ_le le, clear, rest⟩

/-! ### Operators -/

theorem value_binary (op : At Operator) (left right : Size) : (Size.binary op left right).value =
    left.value >>= fun l => right.value >>= fun r =>
      Size.atOperator op.place (Size.apply op.value l r) := rfl

/-- A chain fails where its first operand does. -/
theorem isFaultOf_extend {ops : List Operator} {left : Size} {stop : Stop}
    (isFault : stop.IsFaultOf left.value) (fuel : Nat) (ts : List Lexeme) :
    stop.IsFaultOf
      (Parse.extend (Parse.appendOperand .binary ops parse) fuel left last ts).1.value := by
  refine Parse.extend_inv (fun size => stop.IsFaultOf size.value) ?_ fuel left ts isFault
  intro left ts longer isFault h
  rcases hop : Parse.operator? ops last ts with ⟨_ | op, behind⟩
  · simp [Parse.appendOperand, hop] at h
  · obtain rfl : _ = longer := by simpa [Parse.appendOperand, hop] using h
    exact isFault.bind _

theorem computes_applied {left : Size} {value : Int} {found : Size × List Lexeme} (op : At Operator)
    (gives : left.value.Gives value) (right : Computes tape k index (evaluator tape index) found) :
    Computes tape k index (applied evaluator value op tape index)
      (.binary op left found.1, found.2) := by
  rw [Computes, value_binary]
  refine (right.mono (fun _ isFault => .behind gives (isFault.bind _)) fun _ _ => id).bind ?_
  rintro value' i ⟨gives', le, clear, rest⟩
  refine (meets_settle _).mono (fun _ isFault => .behind gives (.behind gives' isFault)) ?_
  rintro value'' _ ⟨gives'', rfl⟩
  refine ⟨Checked.gives_bind.mpr ⟨value, gives, ?_⟩, le, clear, rest⟩
  exact Checked.gives_bind.mpr ⟨value', gives', gives''⟩

/-- The rest of a chain, behind an operand whose value is there. -/
theorem computes_rest (barrier : Barrier tape k last) (ops : List Operator)
    (operand : Evaluates tape k last n evaluator parse) :
    ∀ fuel fuel' index left value, Clear tape index → k - index ≤ fuel → k - index < fuel' →
      k - index ≤ n → left.value.Gives value →
      Computes tape k index
        (repeating (operator? ops) (applied evaluator) fuel' value tape index)
        (Parse.extend (Parse.appendOperand .binary ops parse) fuel left last
          (ahead tape k index)) := by
  intro fuel fuel'
  induction fuel' generalizing fuel with
  | zero => exact fun _ _ _ _ _ none => absurd none (Nat.not_lt_zero _)
  | succ fuel' ih =>
    intro index left value clear enough enough' few gives
    refine (meets_operator? barrier clear ops).bind ?_
    rintro (_ | op) i found
    · obtain ⟨rfl, read⟩ := found
      rw [Parse.extend_of_none (by simp [Parse.appendOperand, read])]
      exact meets_pure ⟨gives, Nat.le_refl _, clear, rfl⟩
    · obtain ⟨rfl, lt, further, -, read⟩ := found
      obtain ⟨fuel, rfl⟩ : ∃ rest, fuel = rest + 1 := Nat.exists_eq_add_one_of_ne_zero (by omega)
      have step : Parse.extend (Parse.appendOperand .binary ops parse) (fuel + 1) left last
            (ahead tape k index) =
          Parse.extend (Parse.appendOperand .binary ops parse) fuel
            (.binary op left (parse last (ahead tape k (index + 1))).1) last
            (parse last (ahead tape k (index + 1))).2 := by
        simp [Parse.extend, Parse.appendOperand, read]
      rw [step]
      have computes := computes_applied op gives (operand (index + 1) further (by omega))
      refine (computes.mono (fun _ isFault => isFaultOf_extend isFault _ _) fun _ _ => id).bind ?_
      rintro value' i ⟨gives', le, clear', rest⟩
      rw [show (parse last (ahead tape k (index + 1))).2 = ahead tape k i from rest]
      refine (ih fuel i _ value' clear' (by omega) (by omega) (by omega) gives').mono
        (fun _ => id) ?_
      rintro value'' i' ⟨gives'', le', clear'', rest'⟩
      exact ⟨gives'', by omega, clear'', rest'⟩

theorem evaluates_chain (barrier : Barrier tape k last) (ops : List Operator)
    (operand : Evaluates tape k last (n + 1) evaluator parse) {fuel fuel' : Nat}
    (enough : n ≤ fuel) (enough' : n < fuel') :
    Evaluates tape k last (n + 1) (chain ops fuel' evaluator)
      (Parse.leftAssociative .binary ops fuel parse) := by
  intro index clear few
  rw [Parse.leftAssociative_apply]
  refine ((operand index clear few).mono (fun _ isFault => isFaultOf_extend isFault _ _)
    fun _ _ => id).bind ?_
  rintro value i ⟨gives, le, clear, rest⟩
  rw [rest]
  refine (computes_rest barrier ops operand fuel fuel' i _ value clear (by omega) (by omega)
    (by omega) gives).mono (fun _ => id) ?_
  rintro value i' ⟨gives, le', clear, rest⟩
  exact ⟨gives, Nat.le_trans le le', clear, rest⟩

theorem evaluates_sizeWithin (barrier : Barrier tape k last) :
    ∀ n fuel fuel', n ≤ fuel → n ≤ fuel' →
      Evaluates tape k last n (sizeWithin fuel') (Size.parseWithin fuel) := by
  intro n
  induction n with
  | zero => exact fun _ _ _ _ _ _ none => absurd none (Nat.not_lt_zero _)
  | succ n ih =>
    intro fuel fuel' enough enough'
    obtain ⟨fuel, rfl⟩ := Nat.exists_eq_add_one_of_ne_zero (Nat.ne_of_gt (Nat.zero_lt_of_lt enough))
    obtain ⟨fuel', rfl⟩ :=
      Nat.exists_eq_add_one_of_ne_zero (Nat.ne_of_gt (Nat.zero_lt_of_lt enough'))
    have le := Nat.le_of_succ_le_succ enough
    have le' := Nat.le_of_succ_le_succ enough'
    have factor := evaluates_unary barrier (evaluates_primary barrier (ih fuel fuel' le le'))
      (n + 1) (Nat.le_refl _) (fuel + 1) (fuel' + 1) enough enough'
    have term := evaluates_chain barrier [.star, .slash, .percent] factor le enough'
    exact evaluates_chain barrier [.plus, .minus] term le enough'

end

end Evaluator

theorem Event.IsClear.behind {tape : List Lexeme} {index : Nat} (clear : Clear tape index)
    {event : Event} (further : event.IsClear (tape.drop index)) :
    (event.behind index).IsClear tape := by
  cases event with
  | asked i | moved i => exact clear.behind further
  | fellBack => exact further

/-- The value of a size, with the number of its tokens, and no token behind it is asked for. -/
theorem Parser.meets_evaluate {tape : List Lexeme} {k : Nat} {last : Lexeme}
    (barrier : Barrier tape k last) (s : State) (clear : Clear tape s.position)
    {found : Size × List Lexeme} (read : Size.parse last (ahead tape k s.position) = found) :
    (evaluate tape s).Meets tape
      (Stop.IsFaultOf found.1.value) fun (value, consumed) s' => s' = s ∧ found.1.value.Gives value ∧
        Clear tape (s.position + consumed) ∧ found.2 = ahead tape k (s.position + consumed) := by
  have le := clear.le barrier
  have length := barrier.length
  have whole : ahead (tape.drop s.position) (k - s.position) 0 = ahead tape k s.position :=
    ahead_drop le 0
  have computes := Evaluator.evaluates_sizeWithin (barrier.drop le) (k - s.position + 1)
    (k - s.position + 1) ((tape.drop s.position).length + 1) (Nat.le_refl _)
    (by rw [List.length_drop]; omega) 0 (clear_zero _) (by omega)
  rw [whole] at computes
  rw [Size.parse, Parse.bounded, barrier.length_ahead] at read
  rw [read] at computes
  rcases run : Evaluator.size (tape.drop s.position) 0 with ⟨events, result⟩
  rw [show Evaluator.sizeWithin _ _ _ = _ from run] at computes
  have clears : ∀ event ∈ events.map (Event.behind s.position), event.IsClear tape := by
    simp only [List.mem_map, forall_exists_index, and_imp, forall_apply_eq_imp_iff₂]
    exact fun event among => (computes.events event among).behind clear
  simp only [evaluate, run]
  cases result with
  | error stop => exact Run.meets_error clears (computes.stops stop rfl)
  | ok found =>
    obtain ⟨gives, -, further, rest⟩ := computes.result found.1 found.2 rfl
    refine Run.meets_ok clears ⟨rfl, gives, clear.behind further, ?_⟩
    rw [rest, ahead_drop le]

/-! ### The first token of a size -/

theorem Run.mem_events_andThen {σ α β : Type} {run : Run σ α} {event : Event}
    (among : event ∈ run.events) (next : α → σ → Run σ β) : event ∈ (run.andThen next).events := by
  unfold andThen
  split
  · exact among
  · exact List.mem_append_left _ among

/-- The evaluator looks for a sign before anything else. -/
theorem Evaluator.asks_size (tape : List Lexeme) (index : Nat) :
    .asked index ∈ (size tape index).events := by
  have peeks : .asked index ∈ (peek tape index).events := List.mem_singleton_self _
  have looks : ∀ ops, .asked index ∈ (operator? ops tape index).events :=
    fun ops => Run.mem_events_andThen peeks _
  have signed : ∀ nested fuel, .asked index ∈ (unary nested (fuel + 1) tape index).events :=
    fun nested fuel => Run.mem_events_andThen (looks _) _
  exact Run.mem_events_andThen (Run.mem_events_andThen (signed _ _) _) _

/-- What is left of the tape where the evaluator begins is asked for its first token. -/
theorem Parser.asks_evaluate (tape : List Lexeme) (s : State) :
    .asked s.position ∈ (evaluate tape s).events :=
  List.mem_map.mpr ⟨.asked 0, Evaluator.asks_size _ 0, rfl⟩

end Cursor

end PlainC
