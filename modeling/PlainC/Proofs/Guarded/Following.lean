import PlainC.Proofs.Cursor.Steady
import PlainC.Proofs.Guarded.Productions
import PlainC.Proofs.Table.Changing

set_option autoImplicit false

/-!
The parser with its guards follows the one with a cursor. In a fit state, on a short tape, it is not
trapped, fails as the other one does, or comes to the same value and is in a fit state again.
-/

namespace PlainC

/-- A symbol without its arguments and members. -/
def Symbol.head (symbol : Symbol) : Symbol := { symbol with args := [], members := [] }

/-- The symbols without their arguments and members, which never change in their places. -/
def SymbolTable.heads (table : SymbolTable) : List Symbol := table.symbols.map Symbol.head

namespace Guarded

open Cursor (Barrier Clear Steady)

/-- What is open stands in the table where it was declared. -/
def Context.Open (table : SymbolTable) : Context → Prop
  | global => True
  | struct index opened => table.heads[index]? = some opened ∧ opened.cls = .struct
  | function index _ opened => table.heads[index]? = some opened ∧ opened.cls = .function

/-- The state is in front of an end of input, its counters are no larger than the position of the
cursor, and what is open is in the table. -/
structure State.Fit (tape : List Lexeme) (loops : Nat) (s : State) : Prop where
  clear : Clear tape s.position
  opened : s.context.Open s.table
  functions : s.lastDepth ≤ s.position
  loopDepth : s.loopDepth = loops
  enough : loops ≤ s.position

/-- The second state is fit, some tokens further on, in the same context, and all symbols of the
first one are in their places. -/
structure State.Reaches (tape : List Lexeme) (loops : Nat) (s : State) (count : Nat) (s' : State) :
    Prop where
  fit : s'.Fit tape loops
  far : s.position + count ≤ s'.position
  context : s'.context = s.context
  functions : s'.lastDepth = s.lastDepth
  heads : s.table.heads <+: s'.table.heads

/-- It is a fault that stops the walk, if it is stopped. -/
def Settles {α : Type} (run : Cursor.Run Cursor.State α) : Prop :=
  ∀ stop, run.result = .error stop → stop.IsFault

/-- All states on the way are fit. The run fails as the other one does, with the number of loops
that it began with, or it comes to the same value in the same state. -/
structure Run.Agrees {α : Type} (tape : List Lexeme) (loops : Nat) (run : Run α)
    (other : Cursor.Run Cursor.State α) (post : α → State → Prop) : Prop where
  visited : ∀ s ∈ run.visited, s.Fit tape s.loopDepth
  result :
    (∃ fault s, run.result = .ok (.error fault, s) ∧ other.result = .error (.fault fault) ∧
      s.Fit tape loops) ∨
    ∃ a s, run.result = .ok (.ok a, s) ∧ other.result = .ok (a, s.cursor) ∧ post a s

/-- The run agrees with the other one, if this is stopped by nothing but a fault. -/
def Follows {α : Type} (tape : List Lexeme) (loops : Nat) (run : Run α)
    (other : Cursor.Run Cursor.State α) (post : α → State → Prop) : Prop :=
  Settles other → run.Agrees tape loops other post

variable {tape : List Lexeme} {loops : Nat} {s s' s'' : State} {α β : Type}

/-! ### States -/

theorem Context.Open.mono {table table' : SymbolTable} {context : Context}
    (opened : context.Open table) (more : table.heads <+: table'.heads) : context.Open table' := by
  have kept : ∀ {index : Nat} {symbol : Symbol}, table.heads[index]? = some symbol →
      table'.heads[index]? = some symbol := by
    intro index symbol found
    obtain ⟨behind, same⟩ := more
    obtain ⟨inside, -⟩ := List.getElem?_eq_some_iff.mp found
    rw [← same, List.getElem?_append_left inside, found]
  cases context with
  | global => trivial
  | struct index symbol => exact ⟨kept opened.1, opened.2⟩
  | function index depth symbol => exact ⟨kept opened.1, opened.2⟩

namespace State

theorem Fit.self (fit : s.Fit tape loops) : s.Fit tape s.loopDepth := fit.loopDepth.symm ▸ fit

theorem Reaches.refl (fit : s.Fit tape loops) : s.Reaches tape loops 0 s :=
  ⟨fit, Nat.le_refl _, rfl, rfl, List.prefix_rfl⟩

theorem Reaches.trans {m n : Nat} (first : s.Reaches tape loops m s')
    (next : s'.Reaches tape loops n s'') : s.Reaches tape loops (m + n) s'' where
  fit := next.fit
  far := by
    have := first.far
    have := next.far
    omega
  context := next.context.trans first.context
  functions := next.functions.trans first.functions
  heads := first.heads.trans next.heads

theorem Reaches.mono {m n : Nat} (reaches : s.Reaches tape loops m s') (less : n ≤ m) :
    s.Reaches tape loops n s' :=
  { reaches with
    far := by
      have := reaches.far
      omega }

/-- It does not matter how far. -/
theorem Reaches.forget {n : Nat} (reaches : s.Reaches tape loops n s') :
    s.Reaches tape loops 0 s' :=
  reaches.mono (Nat.zero_le n)

/-- Nothing but the cursor has been moved. -/
theorem Fit.moved (fit : s.Fit tape loops) {position count : Nat} (clear : Clear tape position)
    (far : s.position + count ≤ position) :
    s.Reaches tape loops count { s with position } where
  fit :=
    { fit with
      clear
      functions := by
        have := fit.functions
        simp only
        omega
      enough := by
        have := fit.enough
        simp only
        omega }
  far := far
  context := rfl
  functions := rfl
  heads := List.prefix_rfl

/-- Nothing but the table has been changed, and all symbols are in their places. -/
theorem Fit.changed (fit : s.Fit tape loops) {table : SymbolTable}
    (more : s.table.heads <+: table.heads) : s.Reaches tape loops 0 { s with table } where
  fit := { fit with opened := fit.opened.mono more }
  far := Nat.le_refl _
  context := rfl
  functions := rfl
  heads := more

end State

/-! ### Runs -/

namespace Parser

variable {parser : Parser α} {next : α → Parser β} {visited : List State}

theorem bind_of_fault {fault : Fault} (fails : parser tape s = ⟨visited, .ok (.error fault, s')⟩) :
    (parser >>= next) tape s = ⟨visited, .ok (.error fault, s')⟩ := by
  simp only [Bind.bind, fails]

theorem bind_of_value {a : α} (passes : parser tape s = ⟨visited, .ok (.ok a, s')⟩) :
    (parser >>= next) tape s =
      ⟨visited ++ (next a tape s').visited, (next a tape s').result⟩ := by
  simp only [Bind.bind, passes]

theorem ending_apply {last : State → Except Trap State} {outcome : Except Fault α}
    (ends : parser tape s = ⟨visited, .ok (outcome, s')⟩) (left : last s' = .ok s'') :
    ending parser last tape s = ⟨visited ++ [s''], .ok (outcome, s'')⟩ := by
  simp only [ending, ends, left]

end Parser

variable {post post' : α → State → Prop}

theorem Follows.mono {run : Run α} {other : Cursor.Run Cursor.State α}
    (follows : Follows tape loops run other post) (weaker : ∀ a s, post a s → post' a s) :
    Follows tape loops run other post' := by
  intro settles
  obtain ⟨visited, fails | ⟨a, s, passes, same, holds⟩⟩ := follows settles
  · exact ⟨visited, .inl fails⟩
  · exact ⟨visited, .inr ⟨a, s, passes, same, weaker a s holds⟩⟩

theorem follows_pure {a : α} (holds : post a s) :
    Follows tape loops ((pure a : Parser α) tape s) ((pure a : Cursor.Parser α) tape s.cursor)
      post :=
  fun _ => ⟨List.forall_mem_nil _, .inr ⟨a, s, rfl, rfl, holds⟩⟩

theorem Settles.first {run : Cursor.Run Cursor.State α}
    {next : α → Cursor.State → Cursor.Run Cursor.State β} (settles : Settles (run.andThen next)) :
    Settles run := by
  intro stop stopped
  exact settles stop (by rw [Cursor.Run.andThen, stopped])

theorem Follows.bind {parser : Parser α} {other : Cursor.Parser α} {c : Cursor.State}
    {next : α → Parser β} {next' : α → Cursor.Parser β} {behind : β → State → Prop}
    (first : Follows tape loops (parser tape s) (other tape c) post)
    (second : ∀ a s', post a s' →
      Follows tape loops (next a tape s') (next' a tape s'.cursor) behind) :
    Follows tape loops ((parser >>= next) tape s) ((other >>= next') tape c) behind := by
  intro settles
  change Settles ((other tape c).andThen fun a s' => next' a tape s') at settles
  change Run.Agrees tape loops _ ((other tape c).andThen fun a s' => next' a tape s') behind
  obtain ⟨visited, ⟨fault, s', fails, fails', fit⟩ | ⟨a, s', passes, passes', holds⟩⟩ :=
    first settles.first
  · rw [Parser.bind_of_fault (congrArg (Run.mk _) fails), Cursor.Run.andThen, fails']
    exact ⟨visited, .inl ⟨fault, s', rfl, rfl, fit⟩⟩
  · rw [Cursor.Run.andThen, passes'] at settles ⊢
    obtain ⟨visited', result⟩ := second a s' holds settles
    rw [Parser.bind_of_value (congrArg (Run.mk _) passes)]
    refine ⟨?_, result⟩
    intro other among
    rcases List.mem_append.mp among with among | among
    · exact visited other among
    · exact visited' other among

/-- Where the other run cannot settle there is nothing to follow. -/
theorem follows_cutOff {parser : Parser α} {c : Cursor.State} :
    Follows tape loops (parser tape s) ((Cursor.Walk.cutOff : Cursor.Parser α) tape c) post := by
  intro settles
  obtain ⟨fault, same⟩ := settles .cutOff rfl
  cases same

theorem follows_bounded {parser : Nat → Parser α} {other : Nat → Cursor.Parser α}
    (follows : ∀ fuel, Follows tape loops (parser fuel tape s) (other fuel tape s.cursor) post) :
    Follows tape loops (Parser.bounded parser tape s) (Cursor.Walk.bounded other tape s.cursor)
      post :=
  follows (tape.length + 1)

/-- Each turn begins where the invariant holds and keeps it. -/
theorem follows_repeating {test : Parser (Option β)} {test' : Cursor.Parser (Option β)}
    {body : α → β → Parser α} {body' : α → β → Cursor.Parser α} (inv : State → Prop)
    (tests : ∀ s, inv s → Follows tape loops (test tape s) (test' tape s.cursor) fun _ s' => inv s')
    (turns : ∀ a b s, inv s →
      Follows tape loops (body a b tape s) (body' a b tape s.cursor) fun _ s' => inv s') :
    ∀ fuel a s, inv s →
      Follows tape loops (Parser.repeating test body fuel a tape s)
        (Cursor.Walk.repeating test' body' fuel a tape s.cursor) fun _ s' => inv s' := by
  intro fuel
  induction fuel with
  | zero => exact fun _ _ _ => follows_cutOff
  | succ fuel ih =>
    intro a s holds
    refine (tests s holds).bind ?_
    rintro (_ | b) s' holds'
    · exact follows_pure holds'
    · refine (turns a b s' holds').bind ?_
      intro a' s'' holds''
      exact ih a' s'' holds''

/-- What only looks at the state is looked at on both sides. -/
theorem follows_get {next : State → Parser α} {next' : Cursor.State → Cursor.Parser α}
    (follows : Follows tape loops (next s tape s) (next' s.cursor tape s.cursor) post) :
    Follows tape loops ((Parser.get >>= next) tape s) ((Cursor.Walk.get >>= next') tape s.cursor)
      post :=
  follows

/-- What only the parser with guards looks at. -/
theorem follows_look {next : State → Parser α} {other : Cursor.Run Cursor.State α}
    (follows : Follows tape loops (next s tape s) other post) :
    Follows tape loops ((Parser.get >>= next) tape s) other post :=
  follows

/-- What only the other parser looks at. -/
theorem follows_looked {run : Run α} {next' : Cursor.State → Cursor.Parser α}
    (follows : Follows tape loops run (next' s.cursor tape s.cursor) post) :
    Follows tape loops run ((Cursor.Walk.get >>= next') tape s.cursor) post :=
  follows

theorem follows_update {change : State → State} {change' : Cursor.Memory → Cursor.Memory}
    {post : Unit → State → Prop}
    (same : (change s).cursor = { s.cursor with memory := change' s.cursor.memory })
    (fit : (change s).Fit tape (change s).loopDepth) (holds : post () (change s)) :
    Follows tape loops (Parser.update change tape s) (Cursor.Parser.update change' tape s.cursor)
      post := by
  intro _
  refine ⟨List.forall_mem_singleton.mpr fit, .inr ⟨(), change s, rfl, ?_, holds⟩⟩
  rw [same]
  rfl

/-- A change behind which more is done. -/
theorem follows_updated {change : State → State} {change' : Cursor.Memory → Cursor.Memory}
    {next : Unit → Parser α} {next' : Unit → Cursor.Parser α}
    (same : (change s).cursor = { s.cursor with memory := change' s.cursor.memory })
    (fit : (change s).Fit tape (change s).loopDepth)
    (second : Follows tape loops (next () tape (change s)) (next' () tape (change s).cursor) post) :
    Follows tape loops ((Parser.update change >>= next) tape s)
      ((Cursor.Parser.update change' >>= next') tape s.cursor) post := by
  have changed : Follows tape loops (Parser.update change tape s)
      (Cursor.Parser.update change' tape s.cursor) fun _ s' => s' = change s :=
    follows_update same fit rfl
  refine changed.bind ?_
  rintro _ _ rfl
  exact second

/-- A counter that is below the position of the cursor does not get to its bound. -/
theorem countUp_eq {count : Nat} (few : count + 1 < counterBound) :
    Parser.countUp count = pure (count + 1) :=
  if_pos few

theorem follows_countUp {count : Nat} {next : Nat → Parser α} {other : Cursor.Run Cursor.State α}
    (few : count + 1 < counterBound)
    (follows : Follows tape loops (next (count + 1) tape s) other post) :
    Follows tape loops ((Parser.countUp count >>= next) tape s) other post := by
  rw [countUp_eq few]
  exact follows

variable {k : Nat} {last : Lexeme} (barrier : Barrier tape k last)

/-! ### The parser with a cursor -/

/-- Where all tokens that are asked for are in front of the end of input, none is off the tape. -/
theorem firstOff_eq_none {events : List Cursor.Event} (barrier : Barrier tape k last)
    (clear : ∀ event ∈ events, event.IsClear tape) : Parser.firstOff tape events = none := by
  refine List.findSome?_eq_none_iff.mpr fun event among => ?_
  cases event with
  | moved | fellBack => rfl
  | asked index =>
    have inside := Nat.lt_of_le_of_lt (Clear.le barrier (clear _ among)) barrier.length
    exact if_pos inside

include barrier

/-- A part of the parser with a cursor that changes nothing but the cursor. -/
theorem follows_lift_of_meets {parser : Cursor.Parser α} (fit : s.Fit tape loops)
    (meets : (parser tape s.cursor).Meets tape Cursor.Stop.IsFault fun a c =>
      c.memory = s.cursor.memory ∧ State.Fit tape loops { s with position := c.position } ∧
        post a { s with position := c.position }) :
    Follows tape loops (Parser.lift parser tape s) (parser tape s.cursor) post := by
  intro _
  have onTape := firstOff_eq_none barrier meets.events
  cases h : (parser tape s.cursor).result with
  | error stop =>
    obtain ⟨fault, rfl⟩ := meets.stops stop h
    have run : Parser.lift parser tape s = ⟨[], .ok (.error fault, s)⟩ := by
      simp only [Parser.lift, onTape, h]
    rw [run]
    exact ⟨List.forall_mem_nil _, .inl ⟨fault, s, rfl, h, fit⟩⟩
  | ok found =>
    obtain ⟨a, position, memory⟩ := found
    obtain ⟨rfl, fit', holds⟩ := meets.result a _ h
    have run : Parser.lift parser tape s =
        ⟨[{ s with position }], .ok (.ok a, { s with position })⟩ := by
      simp only [Parser.lift, onTape, h]
    rw [run]
    exact ⟨List.forall_mem_singleton.mpr fit'.self, .inr ⟨a, _, rfl, h, holds⟩⟩

/-- From a state that has been reached, the parser with a cursor gets further. -/
theorem follows_lift {parser : Cursor.Parser α} {least : α → Nat}
    (steady : Steady barrier least parser) {count : Nat}
    (reached : s.Reaches tape loops count s') :
    Follows tape loops (Parser.lift parser tape s') (parser tape s'.cursor)
      fun a s'' => s.Reaches tape loops (count + least a) s'' := by
  refine follows_lift_of_meets barrier reached.fit ?_
  refine (steady s'.cursor reached.fit.clear).mono (fun _ => id) ?_
  rintro a c ⟨clear, same, far⟩
  have further := reached.fit.moved clear far
  exact ⟨same, further.fit, reached.trans further⟩

/-- Behind the last part it does not matter how far the parser has got. -/
theorem follows_lift_last {parser : Cursor.Parser α} {least : α → Nat}
    (steady : Steady barrier least parser) {count : Nat}
    (reached : s.Reaches tape loops count s') :
    Follows tape loops (Parser.lift parser tape s') (parser tape s'.cursor)
      fun _ s'' => s.Reaches tape loops 0 s'' :=
  (follows_lift barrier steady reached).mono fun _ _ => State.Reaches.forget

/-- What must come next is missing. -/
theorem follows_unexpected (wanted : Wanted) (fit : s.Fit tape loops) :
    Follows tape loops (Parser.lift (Cursor.Parser.unexpected wanted) tape s)
      (Cursor.Parser.unexpected wanted tape s.cursor) post := by
  refine follows_lift_of_meets barrier fit ?_
  refine (Cursor.meets_current barrier s.cursor fit.clear).bind ?_
  rintro next _ ⟨-, rfl⟩
  exact Cursor.Run.meets_error (List.forall_mem_nil _) ⟨_, rfl⟩

/-- The cursor is set back to where it was. -/
theorem follows_restore {count : Nat} (fit : s.Fit tape loops)
    (reached : s.Reaches tape loops count s') :
    Follows tape loops (Parser.lift (Cursor.Parser.restore s.position) tape s')
      (Cursor.Parser.restore s.position tape s'.cursor)
      fun _ s'' => s.Reaches tape loops 0 s'' := by
  refine follows_lift_of_meets barrier reached.fit ?_
  have back : s.Reaches tape loops 0 { s' with position := s.position } := {
    fit := {
      clear := fit.clear
      opened := reached.fit.opened
      functions := reached.functions ▸ fit.functions
      loopDepth := reached.fit.loopDepth
      enough := fit.enough }
    far := Nat.le_refl _
    context := reached.context
    functions := reached.functions
    heads := reached.heads }
  refine (Cursor.meets_token barrier fit.clear s'.cursor).bind ?_
  rintro _ c ⟨-, rfl⟩
  refine (Cursor.meets_moveTo fit.clear s'.cursor).mono (fun _ => id) ?_
  rintro _ _ rfl
  exact ⟨rfl, back.fit, back⟩

end Guarded

end PlainC
