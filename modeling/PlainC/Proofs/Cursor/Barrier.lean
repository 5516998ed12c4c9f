import PlainC.Proofs.Checking.Gives
import PlainC.Proofs.Cursor.Evaluator
import PlainC.Proofs.Reading.Basic

set_option autoImplicit false

/-!
The first end of input on a tape. An index is clear of it if no token in front of the index is an end
of input, or trivia; and so an index that a walk gets to by going over other tokens is none behind it.
-/

namespace PlainC

namespace Cursor

/-- No token in front of the index is trivia or an end of input. -/
def Clear (tape : List Lexeme) (index : Nat) : Prop :=
  ∀ i < index, ∀ token, tape[i]? = some token →
    token.value ≠ .trivia ∧ token.value ≠ .endOfInput

/-- The first end of input is `last`, at the index `k`. -/
structure Barrier (tape : List Lexeme) (k : Nat) (last : Lexeme) : Prop where
  at_end : tape[k]? = some last
  isEnd : last.value = .endOfInput
  others : ∀ i < k, ∀ token, tape[i]? = some token → token.value ≠ .endOfInput

/-- The tokens from an index on in front of the token of index `k`. -/
def ahead (tape : List Lexeme) (k index : Nat) : List Lexeme := (tape.take k).drop index

/-- An event that does not get over an end of input, or trivia, and does not miss a token. -/
def Event.IsClear (tape : List Lexeme) : Event → Prop
  | asked index | moved index => Clear tape index
  | fellBack => False

/-- All events of the run are clear, and what comes of it satisfies one of the postconditions. -/
structure Run.Meets {σ α : Type} (tape : List Lexeme) (run : Run σ α) (stopped : Stop → Prop)
    (post : α → σ → Prop) : Prop where
  events : ∀ event ∈ run.events, event.IsClear tape
  stops : ∀ stop, run.result = .error stop → stopped stop
  result : ∀ a s, run.result = .ok (a, s) → post a s

/-- The check fails, and its fault is what stops the walk. -/
def Stop.IsFaultOf {α : Type} (rule : Checked α) (stop : Stop) : Prop :=
  ∃ fault, rule.result = .error fault ∧ stop = .fault fault

/-! ### Indices -/

section

variable {tape : List Lexeme} {index i k : Nat} {last token : Lexeme}

theorem clear_zero (tape : List Lexeme) : Clear tape 0 := nofun

theorem Clear.succ (clear : Clear tape index) (here : tape[index]? = some token)
    (noTrivia : token.value ≠ .trivia) (notEnd : token.value ≠ .endOfInput) :
    Clear tape (index + 1) := by
  intro i lt other found
  rcases Nat.lt_succ_iff_lt_or_eq.mp lt with before | rfl
  · exact clear i before other found
  · obtain rfl := Option.some.inj (here.symm.trans found)
    exact ⟨noTrivia, notEnd⟩

theorem Clear.le (barrier : Barrier tape k last) (clear : Clear tape index) : index ≤ k :=
  Nat.le_of_not_lt fun behind => (clear k behind last barrier.at_end).2 barrier.isEnd

/-- Clear indices on what is left of the tape are clear on the whole tape. -/
theorem Clear.behind (clear : Clear tape index) (further : Clear (tape.drop index) i) :
    Clear tape (index + i) := by
  intro j lt token found
  by_cases before : j < index
  · exact clear j before token found
  · have same : index + (j - index) = j := by omega
    refine further (j - index) (by omega) token ?_
    rwa [List.getElem?_drop, same]

theorem Barrier.length (barrier : Barrier tape k last) : k < tape.length := by
  obtain ⟨lt, -⟩ := List.getElem?_eq_some_iff.mp barrier.at_end
  exact lt

/-- What is left of the tape has the same first end of input. -/
theorem Barrier.drop (barrier : Barrier tape k last) (le : index ≤ k) :
    Barrier (tape.drop index) (k - index) last where
  at_end := by
    rw [List.getElem?_drop, Nat.add_sub_cancel' le]
    exact barrier.at_end
  isEnd := barrier.isEnd
  others i lt token found := by
    rw [List.getElem?_drop] at found
    exact barrier.others (index + i) (by omega) token found

theorem ahead_drop (le : index ≤ k) (i : Nat) :
    ahead (tape.drop index) (k - index) i = ahead tape k (index + i) := by
  rw [ahead, ahead, List.take_drop, Nat.add_sub_cancel' le, List.drop_drop]

theorem Barrier.length_ahead (barrier : Barrier tape k last) (index : Nat) :
    (ahead tape k index).length = k - index := by
  rw [ahead, List.length_drop, List.length_take, Nat.min_eq_left (Nat.le_of_lt barrier.length)]

/-- At a clear index there is a token in front of the end of input, or there is the end of input. -/
theorem Clear.cases (barrier : Barrier tape k last) (clear : Clear tape index) :
    (∃ token, index < k ∧ tape[index]? = some token ∧ token.value ≠ .endOfInput ∧
      ahead tape k index = token :: ahead tape k (index + 1)) ∨
    (index = k ∧ tape[index]? = some last ∧ ahead tape k index = []) := by
  have length := barrier.length
  rcases Nat.lt_or_eq_of_le (clear.le barrier) with lt | rfl
  · have inside : index < tape.length := by omega
    have here : tape[index]? = some tape[index] := List.getElem?_eq_getElem inside
    refine .inl ⟨tape[index], lt, here, barrier.others index lt _ here, ?_⟩
    have short : index < (tape.take k).length := by
      rw [List.length_take]
      omega
    rw [ahead, ahead, List.drop_eq_getElem_cons short, List.getElem_take]
  · refine .inr ⟨rfl, barrier.at_end, ?_⟩
    rw [ahead, List.drop_eq_nil_of_le (List.length_take_le _ _)]

/-- The token at a clear index is the next one in front of the end of input, or this itself. -/
theorem Clear.getElem? (barrier : Barrier tape k last) (clear : Clear tape index) :
    tape[index]? = some ((ahead tape k index).headD last) := by
  obtain ⟨token, -, here, -, front⟩ | ⟨-, here, front⟩ := clear.cases barrier
  · rw [here, front, List.headD_cons]
  · rw [here, front, List.headD_nil]

end

/-! ### Runs -/

namespace Stop.IsFaultOf

variable {α β : Type} {rule : Checked α} {stop : Stop}

theorem bind (isFault : stop.IsFaultOf rule) (next : α → Checked β) :
    stop.IsFaultOf (rule >>= next) := by
  obtain ⟨fault, fails, rfl⟩ := isFault
  exact ⟨fault, Checked.result_bind_of_fails fails next, rfl⟩

theorem behind {a : α} (gives : rule.Gives a) {next : α → Checked β}
    (isFault : stop.IsFaultOf (next a)) : stop.IsFaultOf (rule >>= next) := by
  obtain ⟨fault, fails, rfl⟩ := isFault
  exact ⟨fault, (Checked.result_bind_of_gives gives next).trans fails, rfl⟩

end Stop.IsFaultOf

namespace Run

variable {σ α β : Type} {tape : List Lexeme} {s : σ} {stopped stopped' : Stop → Prop}
  {post post' : α → σ → Prop}

theorem Meets.mono {run : Run σ α} (meets : run.Meets tape stopped post)
    (stops : ∀ stop, stopped stop → stopped' stop) (weaker : ∀ a s, post a s → post' a s) :
    run.Meets tape stopped' post' :=
  ⟨meets.events, fun stop h => stops stop (meets.stops stop h),
    fun a s h => weaker a s (meets.result a s h)⟩

theorem meets_ok {events : List Event} {a : α} (clear : ∀ event ∈ events, event.IsClear tape)
    (holds : post a s) : (⟨events, .ok (a, s)⟩ : Run σ α).Meets tape stopped post := by
  refine ⟨clear, ?_, ?_⟩
  · rintro _ ⟨⟩
  · rintro _ _ ⟨⟩
    exact holds

theorem meets_error {events : List Event} {stop : Stop}
    (clear : ∀ event ∈ events, event.IsClear tape) (stops : stopped stop) :
    (⟨events, .error stop⟩ : Run σ α).Meets tape stopped post := by
  refine ⟨clear, ?_, ?_⟩
  · rintro _ ⟨⟩
    exact stops
  · rintro _ _ ⟨⟩

theorem meets_pure {a : α} (holds : post a s) :
    ((pure a : Walk σ α) tape s).Meets tape stopped post :=
  meets_ok (List.forall_mem_nil _) holds

theorem Meets.bind {walk : Walk σ α} {next : α → Walk σ β} {behind : β → σ → Prop}
    (first : (walk tape s).Meets tape stopped post)
    (second : ∀ a s', post a s' → (next a tape s').Meets tape stopped behind) :
    ((walk >>= next) tape s).Meets tape stopped behind := by
  change ((walk tape s).andThen fun a s' => next a tape s').Meets tape stopped behind
  rcases h : walk tape s with ⟨events, stop | ⟨a, s'⟩⟩
  · rw [h] at first
    exact meets_error first.events (first.stops stop rfl)
  · rw [h] at first
    have meets := second a s' (first.result a s' rfl)
    refine ⟨?_, meets.stops, meets.result⟩
    intro event among
    rcases List.mem_append.mp among with among | among
    · exact first.events event among
    · exact meets.events event among

end Run

namespace Walk

open Run

variable {σ α : Type} {tape : List Lexeme} {s : σ} {stopped : Stop → Prop}

theorem meets_get : ((get : Walk σ σ) tape s).Meets tape stopped fun a s' => a = s ∧ s' = s :=
  meets_ok (List.forall_mem_nil _) ⟨rfl, rfl⟩

theorem meets_settle (rule : Checked α) :
    ((settle rule : Walk σ α) tape s).Meets tape (Stop.IsFaultOf rule) fun a s' =>
      rule.Gives a ∧ s' = s := by
  unfold settle
  cases h : rule.result with
  | error fault => exact meets_error (List.forall_mem_nil _) ⟨fault, h, rfl⟩
  | ok a => exact meets_ok (List.forall_mem_nil _) ⟨h, rfl⟩

end Walk

end Cursor

end PlainC
