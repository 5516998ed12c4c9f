import PlainC.Proofs.OnePass.Productions
import PlainC.Proofs.Reading.Basic

set_option autoImplicit false

/-!
What the runs of an analysis keep to. No run goes back by more than four lexemes, or to a state that
is another in anything but its place; no loop takes more turns than a limit allows; no bound of a
recursion is used up; and a run that gets to its end leaves a state that is known from its result.
-/

namespace PlainC

namespace OnePass

/-- The second state is the first with a number of lexemes taken. -/
def State.Takes (s : State) (count : Nat) (s' : State) : Prop :=
  ∃ taken : List Lexeme, taken.length = count ∧ s = { s' with ahead := taken ++ s'.ahead }

/-- The second state is further on, whatever has become of the table. -/
def State.Advances (s s' : State) : Prop :=
  s'.ahead <:+ s.ahead ∧ s'.ahead.length < s.ahead.length

/-- Where something was found, the state is further on; where nothing was, it is the one before. -/
def State.Moves (s : State) (found : Bool) (s' : State) : Prop :=
  if found then s.Advances s' else s' = s

/-- An event is as it should be: a going back covers one to four lexemes and finds everything but the
place unchanged, the turns of a loop are within a limit, and no bound is used up. -/
def Event.Within (limit : Nat) : Event → Prop
  | noted _ => True
  | restored checkpoint reached => ∃ count, 1 ≤ count ∧ count ≤ 4 ∧ checkpoint.Takes count reached
  | turned _ count => count ≤ limit
  | cutOff => False

/-- All events of the run are within the limit, and what comes of it satisfies the postcondition. -/
structure Run.Keeps {α : Type} (limit : Nat) (run : Run α) (post : α → State → Prop) : Prop where
  events : ∀ event ∈ run.events, event.Within limit
  result : ∀ a s, run.result = .ok (a, s) → post a s

/-! ### States -/

namespace State

variable {s s' s'' : State} {m n : Nat}

theorem Takes.trans (first : s.Takes m s') (second : s'.Takes n s'') : s.Takes (m + n) s'' := by
  obtain ⟨taken, rfl, rfl⟩ := first
  obtain ⟨taken', rfl, rfl⟩ := second
  exact ⟨taken ++ taken', by simp, by simp⟩

theorem Takes.suffix (takes : s.Takes n s') : s'.ahead <:+ s.ahead := by
  obtain ⟨taken, -, rfl⟩ := takes
  exact List.suffix_append _ _

theorem Takes.length (takes : s.Takes n s') : s.ahead.length = n + s'.ahead.length := by
  obtain ⟨taken, rfl, rfl⟩ := takes
  simp

theorem Takes.advances (takes : s.Takes n s') (some : 1 ≤ n) : s.Advances s' :=
  ⟨takes.suffix, by have := takes.length; omega⟩

theorem Takes.eq (takes : s.Takes 0 s') : s' = s := by
  obtain ⟨taken, none, rfl⟩ := takes
  obtain rfl := List.length_eq_zero_iff.mp none
  rfl

theorem Advances.suffix (advances : s.Advances s') : s'.ahead <:+ s.ahead := advances.1

theorem Advances.length (advances : s.Advances s') : s'.ahead.length < s.ahead.length := advances.2

theorem Advances.of_suffix (advances : s.Advances s') (behind : s''.ahead <:+ s'.ahead) :
    s.Advances s'' :=
  ⟨behind.trans advances.1, Nat.lt_of_le_of_lt behind.length_le advances.2⟩

@[simp] theorem moves_true : s.Moves true s' ↔ s.Advances s' := by simp [Moves]

@[simp] theorem moves_false : s.Moves false s' ↔ s' = s := by simp [Moves]

theorem Moves.suffix {found : Bool} (moves : s.Moves found s') : s'.ahead <:+ s.ahead := by
  cases found with
  | true => exact (moves_true.mp moves).suffix
  | false => exact moves_false.mp moves ▸ List.suffix_refl _

end State

/-! ### Runs -/

namespace Run

variable {α β : Type} {limit : Nat} {last : Lexeme} {s : State} {post post' : α → State → Prop}

theorem Keeps.mono {run : Run α} (keeps : run.Keeps limit post)
    (weaker : ∀ a s, post a s → post' a s) : run.Keeps limit post' :=
  ⟨keeps.events, fun a s h => weaker a s (keeps.result a s h)⟩

theorem Keeps.bind {analysis : Analysis α} {next : α → Analysis β} {behind : β → State → Prop}
    (first : (analysis last s).Keeps limit post)
    (second : ∀ a s', post a s' → (next a last s').Keeps limit behind) :
    ((analysis >>= next) last s).Keeps limit behind := by
  change ((analysis last s).andThen fun a s' => next a last s').Keeps limit behind
  rcases h : analysis last s with ⟨events, fault | ⟨a, s'⟩⟩
  · exact ⟨by simpa [andThen, h] using first.events, by simp [andThen]⟩
  · have keeps := second a s' (first.result a s' (by rw [h]))
    refine ⟨?_, keeps.result⟩
    intro event among
    rcases List.mem_append.mp among with among | among
    · exact first.events event (by rw [h]; exact among)
    · exact keeps.events event among

theorem keeps_pure {a : α} (holds : post a s) :
    ((pure a : Analysis α) last s).Keeps limit post :=
  ⟨by simp [pure], fun _ _ h => by obtain ⟨rfl, rfl⟩ : a = _ ∧ s = _ := by simpa [pure] using h
                                   exact holds⟩

end Run

namespace Analysis

open Run

variable {α β : Type} (limit : Nat) (last : Lexeme) (s : State)

theorem keeps_get : (get last s).Keeps limit fun found s' => found = s ∧ s' = s :=
  ⟨by simp [get], fun _ _ h => by simpa [get, eq_comm] using h⟩

theorem keeps_update (change : State → State) :
    (update change last s).Keeps limit fun _ s' => s' = change s :=
  ⟨by simp [update], fun _ _ h => by simpa [update, eq_comm] using h⟩

theorem keeps_turned {limit : Nat} (loop : Loop) {count : Nat} (few : count ≤ limit) :
    (emit (.turned loop count) last s).Keeps limit fun _ s' => s' = s :=
  ⟨by simpa [emit, Event.Within] using few, fun _ _ h => by simpa [emit, eq_comm] using h⟩

theorem keeps_check (rule : SymbolTable → Checked α) :
    (check rule last s).Keeps limit fun a s' => (rule s.table).result = .ok a ∧ s' = s := by
  refine ⟨?_, ?_⟩
  · simp only [check, List.mem_map, forall_exists_index, and_imp, forall_apply_eq_imp_iff₂]
    exact fun _ _ => trivial
  · intro a s' h
    cases found : (rule s.table).result <;> simp_all [check, Except.map]

theorem keeps_checked {limit : Nat} {last : Lexeme} {s : State} {rule : SymbolTable → Checked α}
    {post : α → State → Prop} (holds : ∀ a, post a s) : (check rule last s).Keeps limit post :=
  (keeps_check limit last s rule).mono fun a _ h => h.2 ▸ holds a

theorem keeps_store (rule : SymbolTable → Checked SymbolTable) :
    (store rule last s).Keeps limit fun _ s' => s'.ahead = s.ahead := by
  refine (keeps_check limit last s rule).bind ?_
  rintro table s' ⟨-, rfl⟩
  exact (keeps_update limit last s' _).mono fun _ _ h => by rw [h]

/-- Behind a checkpoint with one to four lexemes taken, going back gives its state. -/
theorem keeps_restore {checkpoint s : State} {count : Nat} (takes : checkpoint.Takes count s)
    (some : 1 ≤ count) (few : count ≤ 4) :
    (restore checkpoint last s).Keeps limit fun _ s' => s' = checkpoint := by
  refine ⟨?_, ?_⟩
  · simp only [restore, List.mem_singleton, forall_eq]
    exact ⟨count, some, few, takes⟩
  · obtain ⟨taken, -, rfl⟩ := takes
    exact fun _ _ h => by simpa [restore, eq_comm] using h

theorem keeps_read (parse : Parse α) :
    (read parse last s).Keeps limit fun a s' =>
      parse last s.ahead = (a, s'.ahead) ∧ s' = { s with ahead := s'.ahead } := by
  refine ⟨by simp [read], ?_⟩
  intro a s' h
  obtain ⟨rfl, rfl⟩ : (parse last s.ahead).1 = a ∧ _ = s' := by simpa [read] using h
  exact ⟨rfl, rfl⟩

/-- What a parser reads is taken. -/
theorem keeps_read_of_reads {parse : Parse α} {view : α → Parts} {good : α → Prop}
    (reads : Parse.Reads parse view good) :
    (read parse last s).Keeps limit fun a s' => s.Takes (lexemesOf (view a)).length s' := by
  refine (keeps_read limit last s parse).mono ?_
  rintro a s' ⟨h, same⟩
  obtain ⟨a', rest, h', spans, -⟩ := reads last s.ahead
  obtain ⟨rfl, rfl⟩ : a = a' ∧ s'.ahead = rest := by simpa [h] using h'
  have split := spans.eq_append
  refine ⟨_, rfl, ?_⟩
  rw [same, ← split]

theorem keeps_accept? (read? : Kind → Option α) :
    (read (Parse.accept? read?) last s).Keeps limit fun found s' =>
      s.Takes (if found.isSome then 1 else 0) s' := by
  refine (keeps_read limit last s _).mono ?_
  rintro found s' ⟨h, same⟩
  rw [same]
  rcases Parse.accept?_cases read? last s.ahead with ⟨t, behind, a, first, -, h'⟩ | ⟨-, h'⟩
  · obtain ⟨rfl, rfl⟩ : some ⟨a, t.place⟩ = found ∧ behind = s'.ahead := by simpa [h'] using h
    exact ⟨[t], rfl, by simp [← first]⟩
  · obtain ⟨rfl, ahead⟩ : none = found ∧ s.ahead = s'.ahead := by simpa [h'] using h
    exact ⟨[], rfl, by simp [← ahead]⟩

theorem keeps_token? (kind : Kind) :
    (read (Parse.token? kind) last s).Keeps limit fun found s' =>
      s.Takes (if found.isSome then 1 else 0) s' := by
  refine (keeps_read limit last s _).mono ?_
  rintro found s' ⟨h, same⟩
  rw [same]
  rcases Parse.token?_cases kind last s.ahead with ⟨place, behind, first, h'⟩ | ⟨-, h'⟩
  · obtain ⟨rfl, rfl⟩ : some place = found ∧ behind = s'.ahead := by simpa [h'] using h
    exact ⟨[⟨kind, place⟩], rfl, by simp [← first]⟩
  · obtain ⟨rfl, ahead⟩ : none = found ∧ s.ahead = s'.ahead := by simpa [h'] using h
    exact ⟨[], rfl, by simp [← ahead]⟩

theorem keeps_bounded {limit : Nat} {last : Lexeme} {s : State} {analysis : Nat → Analysis α}
    {post : α → State → Prop}
    (keeps : (analysis (s.ahead.length + 1) last s).Keeps limit post) :
    (bounded analysis last s).Keeps limit post := keeps

/-- What only looks ahead takes nothing. -/
theorem keeps_look {parse : Parse α} (looks : ∀ last ts, (parse last ts).2 = ts) :
    (read parse last s).Keeps limit fun a s' => a = (parse last s.ahead).1 ∧ s' = s := by
  refine (keeps_read limit last s _).mono ?_
  rintro a s' ⟨h, same⟩
  have ahead := looks last s.ahead
  rw [h] at ahead ⊢
  exact ⟨rfl, by rw [same]; simp only at ahead; rw [ahead]⟩

/-- A turn begins within the limit and takes lexemes, and with them the invariant is kept: then all
turns end, and what holds where none begins holds of what is left. -/
theorem keeps_repeating (loop : Loop) (inv : Nat → State → Prop) (post : State → Prop)
    {test : Analysis (Option β)} {body : α → β → Analysis α}
    (turns : ∀ count s, inv count s → (test last s).Keeps limit fun found s' =>
      match found with
      | none => post s'
      | some b => count + 1 ≤ limit ∧ ∀ a, (body a b last s').Keeps limit fun _ s'' =>
          s''.ahead.length < s.ahead.length ∧ inv (count + 1) s'') :
    ∀ fuel count a s, s.ahead.length < fuel → inv count s →
      (repeating loop test body fuel count a last s).Keeps limit fun _ s' => post s' := by
  intro fuel
  induction fuel with
  | zero => exact fun _ _ _ enough => absurd enough (Nat.not_lt_zero _)
  | succ fuel ih =>
    intro count a s enough holds
    refine (turns count s holds).bind ?_
    rintro (_ | b) s' h
    · exact keeps_pure h
    · refine (keeps_turned last s' loop h.1).bind ?_
      rintro - s' rfl
      refine (h.2 a).bind ?_
      rintro a' s'' ⟨shorter, holds'⟩
      exact ih (count + 1) a' s'' (by omega) holds'

/-- A loop in front of which lexemes have been taken, and of which each turn takes lexemes. -/
theorem keeps_turns (loop : Loop) (outer : State) {test : Analysis (Option β)}
    {body : α → β → Analysis α}
    (turns : ∀ s, s.ahead <:+ outer.ahead → (test last s).Keeps limit fun found s' =>
      match found with
      | none => s'.ahead <:+ s.ahead
      | some b => ∀ a, (body a b last s').Keeps limit fun _ s'' => s.Advances s'')
    {fuel count : Nat} (enough : outer.ahead.length < fuel)
    (few : count + outer.ahead.length < limit) (a : α) :
    (repeating loop test body fuel count a last outer).Keeps limit fun _ s' =>
      s'.ahead <:+ outer.ahead := by
  refine keeps_repeating limit last loop
    (fun count s => s.ahead <:+ outer.ahead ∧ count + s.ahead.length < limit)
    (fun s' => s'.ahead <:+ outer.ahead) ?_ fuel count a outer enough ⟨List.suffix_refl _, few⟩
  rintro count s ⟨behind, few⟩
  refine (turns s behind).mono ?_
  rintro (_ | b) s' h
  · exact List.IsSuffix.trans h behind
  · refine ⟨by omega, fun a => (h a).mono ?_⟩
    intro _ s'' further
    have shorter := further.length
    exact ⟨shorter, further.suffix.trans behind, by omega⟩

end Analysis

end OnePass

end PlainC
