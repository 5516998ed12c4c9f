import PlainC.Decl.Check
import PlainC.Decl.Parse

set_option autoImplicit false

/-!
The analysis in one pass. It builds no tree: each part of a program is checked as soon as it has
been read, in a state that it shares with all other parts, and where the reading has taken a wrong
way it goes back to a checkpoint. What it does on the way stands among its events.
-/

namespace PlainC

namespace Checked

variable {α β : Type}

@[simp] theorem violate_bind (violation : Violation) (place : Place) (next : α → Checked β) :
    (violate violation place >>= next) = violate violation place := rfl

@[simp] theorem unexpected_bind (wanted : Wanted) (instead : Lexeme) (next : α → Checked β) :
    (unexpected wanted instead >>= next) = unexpected wanted instead := rfl

@[simp] theorem map_violate (violation : Violation) (place : Place) (f : α → β) :
    f <$> (violate violation place : Checked α) = violate violation place := rfl

@[simp] theorem map_unexpected (wanted : Wanted) (instead : Lexeme) (f : α → β) :
    f <$> (unexpected wanted instead : Checked α) = unexpected wanted instead := rfl

end Checked

namespace OnePass

/-- Where the analysis is. -/
structure State where
  /-- The lexemes in front of the end of input that have not been taken. -/
  ahead : List Lexeme
  /-- The symbols, and the names that were met. -/
  table : SymbolTable
  /-- Where variables are declared. -/
  region : Region
  /-- The number of functions so far, of which the last one has it as its depth. -/
  functions : Nat
  /-- The number of loops around the statement that comes next. -/
  loops : Nat

/-- The loops of the analysis itself. -/
inductive Loop where
  | declarations | members | items | operators | suffixes | arguments | commas
  deriving DecidableEq

/-- What the analysis does beside changing its state. -/
inductive Event where
  | noted (record : LogRecord)
  /-- It goes back from a state to the place of a checkpoint. -/
  | restored (checkpoint reached : State)
  /-- It begins another turn of a loop; the turns are counted from one. -/
  | turned (loop : Loop) (count : Nat)
  /-- The bound of a recursion has been used up. -/
  | cutOff

/-- What a going back writes to the log: the number of the token it comes from, and the number and
the line of the token it goes to. -/
def Event.record? : Event → Option LogRecord
  | noted record => some record
  | restored checkpoint reached =>
    checkpoint.ahead.head?.map fun target =>
      .backtracked (target.place.index + (checkpoint.ahead.length - reached.ahead.length))
        target.place.index target.place.line
  | turned _ _ | cutOff => none

/-- What a part of the analysis does and what comes of it. -/
structure Run (α : Type) where
  events : List Event
  result : Except Fault (α × State)

/-- A part of the analysis, in front of the end of input `last`. -/
def Analysis (α : Type) : Type := (last : Lexeme) → State → Run α

namespace Run

variable {α β : Type}

/-- The run, and behind it another one, if it gets to its end. -/
def andThen (run : Run α) (next : α → State → Run β) : Run β :=
  match run.result with
  | .error fault => ⟨run.events, .error fault⟩
  | .ok (a, s) => ⟨run.events ++ (next a s).events, (next a s).result⟩

/-- The run as a check, which writes to the log. -/
def trace (run : Run α) : Checked (α × State) :=
  ⟨run.events.filterMap Event.record?, run.result⟩

theorem trace_andThen (run : Run α) (next : α → State → Run β) :
    (run.andThen next).trace = run.trace >>= fun found => (next found.1 found.2).trace := by
  obtain ⟨events, _ | ⟨a, s⟩⟩ := run
  · rfl
  · simp [andThen, trace, bind]

end Run

namespace Analysis

variable {α β : Type}

instance : Monad Analysis where
  pure a := fun _ s => ⟨[], .ok (a, s)⟩
  bind analysis next := fun last s => (analysis last s).andThen fun a s' => next a last s'

/-- The state, which can be kept as a checkpoint. -/
def get : Analysis State := fun _ s => ⟨[], .ok (s, s)⟩

def update (change : State → State) : Analysis Unit := fun _ s => ⟨[], .ok ((), change s)⟩

def emit (event : Event) : Analysis Unit := fun _ s => ⟨[event], .ok ((), s)⟩

/-- Takes lexemes as a parser does. -/
def read (parse : Parse α) : Analysis α := fun last s =>
  ⟨[], .ok ((parse last s.ahead).1, { s with ahead := (parse last s.ahead).2 })⟩

/-- Checks what has been read against the table. -/
def check (rule : SymbolTable → Checked α) : Analysis α := fun _ s =>
  ⟨(rule s.table).records.map .noted, (rule s.table).result.map (·, s)⟩

/-- Checks what has been read and keeps what it adds to the table. -/
def store (rule : SymbolTable → Checked SymbolTable) : Analysis Unit := do
  let table ← check rule
  update fun s => { s with table }

/-- Goes back to the place of a checkpoint. Nothing but the place is restored. -/
def restore (checkpoint : State) : Analysis Unit := fun _ s =>
  ⟨[.restored checkpoint s], .ok ((), { s with ahead := checkpoint.ahead })⟩

/-- Runs an analysis whose recursion is bounded with a bound above the number of lexemes. -/
def bounded (analysis : Nat → Analysis α) : Analysis α := fun last s =>
  analysis (s.ahead.length + 1) last s

/-- Takes turns of a loop as long as a test gives something to begin one with; `fuel` bounds the
turns, of which `count` lie behind. -/
def repeating (loop : Loop) (test : Analysis (Option β)) (body : α → β → Analysis α) :
    Nat → Nat → α → Analysis α
  | 0, _, a => do
    emit .cutOff
    return a
  | fuel + 1, count, a => do
    match ← test with
    | none => return a
    | some b =>
      emit (.turned loop (count + 1))
      repeating loop test body fuel (count + 1) (← body a b)

section

variable (last : Lexeme) (s : State)

@[simp] theorem trace_pure (a : α) : ((pure a : Analysis α) last s).trace = pure (a, s) := rfl

@[simp] theorem trace_bind (analysis : Analysis α) (next : α → Analysis β) :
    ((analysis >>= next) last s).trace =
      (analysis last s).trace >>= fun found => (next found.1 last found.2).trace :=
  Run.trace_andThen _ _

@[simp] theorem trace_get : (get last s).trace = pure (s, s) := rfl

@[simp] theorem trace_update (change : State → State) :
    (update change last s).trace = pure ((), change s) := rfl

@[simp] theorem trace_turned (loop : Loop) (count : Nat) :
    (emit (.turned loop count) last s).trace = pure ((), s) := rfl

@[simp] theorem trace_cutOff : (emit .cutOff last s).trace = pure ((), s) := rfl

@[simp] theorem trace_read (parse : Parse α) :
    (read parse last s).trace =
      pure ((parse last s.ahead).1, { s with ahead := (parse last s.ahead).2 }) := rfl

@[simp] theorem trace_check (rule : SymbolTable → Checked α) :
    (check rule last s).trace = rule s.table >>= fun a => pure (a, s) := by
  have notes : ∀ records : List LogRecord,
      (records.map Event.noted).filterMap Event.record? = records := fun records => by
    simp [List.filterMap_map, Function.comp_def, Event.record?]
  cases found : rule s.table with
  | mk records result =>
    cases result <;> simp [check, Run.trace, found, bind, pure, notes, Except.map]

@[simp] theorem trace_store (rule : SymbolTable → Checked SymbolTable) :
    (store rule last s).trace =
      rule s.table >>= fun table => pure ((), { s with table }) := by
  simp [store]

/-- Going back over some lexemes is what the log calls it. -/
theorem trace_restore (count : Nat) {checkpoint : State} {t : Lexeme} {ts : List Lexeme}
    (first : checkpoint.ahead = t :: ts)
    (taken : checkpoint.ahead.length = s.ahead.length + count) :
    (restore checkpoint last s).trace =
      Checked.backtracked count t.place >>= fun _ =>
        pure ((), { s with ahead := checkpoint.ahead }) := by
  have back : checkpoint.ahead.length - s.ahead.length = count := by omega
  simpa [restore, Run.trace, Event.record?, first, Checked.backtracked, Logged.write, bind, pure]
    using back

@[simp] theorem trace_bounded (analysis : Nat → Analysis α) :
    (bounded analysis last s).trace = (analysis (s.ahead.length + 1) last s).trace := rfl

end

section

variable {β : Type} {test : Analysis (Option β)} {last : Lexeme} {s s' : State}

theorem trace_repeating_of_none (ended : (test last s).trace = pure (none, s')) (loop : Loop)
    (body : α → β → Analysis α) (fuel count : Nat) (a : α) :
    (repeating loop test body (fuel + 1) count a last s).trace = pure (a, s') := by
  simp [repeating, ended]

theorem trace_repeating_of_some {b : β} (begun : (test last s).trace = pure (some b, s'))
    (loop : Loop) (body : α → β → Analysis α) (fuel count : Nat) (a : α) :
    (repeating loop test body (fuel + 1) count a last s).trace =
      (body a b last s').trace >>= fun found =>
        (repeating loop test body fuel (count + 1) found.1 last found.2).trace := by
  simp [repeating, begun]

end

end Analysis

end OnePass

end PlainC
