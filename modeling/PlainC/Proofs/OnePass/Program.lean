import PlainC.Proofs.OnePass.Progress.Declarations
import PlainC.Proofs.OnePass.Tracing.Declarations
import PlainC.Proofs.Program.Front

set_option autoImplicit false

/-!
Whole programs in one pass. The analysis is the one of reading everything and checking it behind
that; and from any state on, its productions are undone where they decline and get further where
they do not, so that it takes no more turns in any of its loops than there are tokens in front of the
first end of input.
-/

namespace PlainC

/-- What follows a check needs to be the same only behind what the check gives. -/
theorem Logged.bind_congr {ε α β : Type} {x : Logged ε α} {f g : α → Logged ε β}
    (same : ∀ a, x.result = .ok a → f a = g a) : x >>= f = x >>= g := by
  cases given : x.result with
  | error fault => rw [bind_of_error f given, bind_of_error g given]
  | ok a => rw [bind_of_ok f given, bind_of_ok g given, same a given]

namespace OnePass

open Analysis

/-- The state in front of the lexemes of a program. -/
def State.outset (ahead : List Lexeme) : State := ⟨ahead, .initial, .topLevel, 0, 0⟩

/-- The declarations of a program of some number of tokens. -/
def program (count : Nat) : Analysis Program := do
  let outset ← get
  declarations
  let reached ← get
  let position := outset.ahead.length - reached.ahead.length
  check fun _ => Logged.write (.finished position count)
  return ⟨reached.table, position⟩

/-- The analysis of tokens, which must end with the end of input. -/
def ofTokens (tokens : List Token) : Run Program :=
  let lexemes := Lexeme.number 0 tokens
  match lexemes.getLast? with
  | none =>
    let start : Place := ⟨0, ⟨0, 0⟩, 1⟩
    check (fun _ => Checked.refuse .noTokens start) ⟨.endOfInput, start⟩ (.outset [])
  | some final =>
    let front := lexemes.takeWhile fun lexeme => lexeme.value ≠ .endOfInput
    let last := lexemes[front.length]?.getD final
    if final.value ≠ .endOfInput then
      check (fun _ => Checked.unexpected .endOfInput final) last (.outset front)
    else
      program tokens.length last (.outset front)

/-- Declarations that pass the check leave nothing unread. -/
theorem eq_nil_of_checked {last : Lexeme} {front : List Lexeme} {declared : Declared}
    (passed : ((Decl.parseAll last front).1.foldlM Decl.check ⟨.initial, 0⟩).result = .ok declared) :
    (Decl.parseAll last front).2 = [] := by
  have traced := congrArg Logged.result (trace_declarations last (.outset front) rfl rfl)
  rw [Logged.result_bind, State.outset, passed] at traced
  exact (keeps_declarations last (.outset front) (Nat.le_refl _)).result _ _ traced

theorem trace_program (count : Nat) (last : Lexeme) (front : List Lexeme) :
    Prod.fst <$> (program count last (.outset front)).trace =
      Program.tableOfDecls (Decl.parseAll last front).1 >>= fun table =>
        Logged.write (.finished front.length count) >>= fun _ => pure ⟨table, front.length⟩ := by
  have declared := trace_declarations last (.outset front) rfl rfl
  simp only [program, trace_bind, trace_get, trace_check, trace_pure, declared, pure_bind,
    bind_assoc, map_bind, map_pure, Program.tableOfDecls]
  refine Logged.bind_congr ?_
  intro declared passed
  have left : (Decl.parseAll last front).2 = [] := eq_nil_of_checked passed
  simp [State.outset, left]

/-- The analysis in one pass comes to the same as the one in two, with the same log. -/
theorem trace_ofTokens (tokens : List Token) :
    Prod.fst <$> (ofTokens tokens).trace = Program.ofTokens tokens := by
  cases found : (Lexeme.number 0 tokens).getLast? with
  | none => simp [ofTokens, Program.ofTokens, found, Checked.refuse]
  | some final =>
    by_cases ended : final.value = .endOfInput
    · simp [ofTokens, Program.ofTokens, found, ended, trace_program]
    · simp [ofTokens, Program.ofTokens, found, ended]

/-- Where the declarations of a program end, there is nothing left of it. -/
theorem program_result (count : Nat) (last : Lexeme) (front : List Lexeme) :
    (program count last (.outset front)).result =
      (declarations last (.outset front)).result.map fun found =>
        (⟨found.2.table, front.length⟩, found.2) := by
  have left := (keeps_declarations last (.outset front) (Nat.le_refl _)).result
  change ((declarations last (.outset front)).andThen _).result = _
  rcases h : declarations last (.outset front) with
    ⟨events, fault | ⟨⟨⟩, ahead, table, region, functions, loops⟩⟩
  · rfl
  · rw [h] at left
    obtain rfl : ahead = [] := left () _ rfl
    rfl

theorem keeps_program (count : Nat) (last : Lexeme) (front : List Lexeme) :
    (program count last (.outset front)).Keeps front.length fun _ _ => True := by
  refine (keeps_get _ last _).bind ?_
  rintro outset s ⟨rfl, rfl⟩
  refine (keeps_declarations last (.outset front) (Nat.le_refl _)).bind ?_
  intro _ s₁ _
  refine (keeps_get _ last s₁).bind ?_
  rintro reached s₁ ⟨rfl, rfl⟩
  refine (keeps_check _ last s₁ _).bind ?_
  intro _ s₂ _
  exact Run.keeps_pure trivial

theorem within_ofTokens (tokens : List Token) :
    ∀ event ∈ (ofTokens tokens).events, event.Within (Program.front tokens).length := by
  cases found : (Lexeme.number 0 tokens).getLast? with
  | none =>
    simp only [ofTokens, found]
    exact (keeps_check _ _ _ _).events
  | some final =>
    by_cases ended : final.value = .endOfInput
    · simp only [ofTokens, found, ended, ne_eq, not_true_eq_false, if_false]
      exact (keeps_program _ _ _).events
    · simp only [ofTokens, found, ended, ne_eq, not_false_eq_true, if_true]
      exact (keeps_check _ _ _ _).events

/-- A production that can decline leaves the state as it was where it does, and is further on where
it does not. Meanwhile its events are within the number of the lexemes ahead. -/
def Recovers {α : Type} (production : Analysis α) (found : α → Bool) : Prop :=
  ∀ last s, (production last s).Keeps s.ahead.length fun a s' => s.Moves (found a) s'

/-- In whatever state: the productions that can decline change nothing when they do, and take lexemes
when they do not, as statements and expressions always do. The analysis of a program is made of
these; it never goes back by more than four lexemes, always to a state that differs in nothing but
its place, and each of its loops takes at most as many turns as there are lexemes in front of the
first end of input. -/
theorem productions_recover_or_advance :
    (Recovers typeBase Option.isSome ∧ Recovers arrayDecl Option.isSome ∧
      Recovers typeName Option.isSome ∧ Recovers structDeclaration id ∧
      Recovers functionDeclaration id ∧ Recovers varDeclaration id ∧
      ∀ scope, Recovers (compoundStatement scope) id) ∧
    (∀ scope last s, (statement scope last s).Keeps s.ahead.length fun _ s' => s.Advances s') ∧
    (∀ last s, (expression last s).Keeps s.ahead.length fun _ s' => s.Advances s') ∧
    ∀ tokens, Prod.fst <$> (ofTokens tokens).trace = Program.ofTokens tokens ∧
      ∀ event ∈ (ofTokens tokens).events, event.Within (Program.front tokens).length := by
  refine ⟨⟨?typeBase, fun last s => keeps_arrayDecl _ last s, fun last s => keeps_typeName _ last s,
    ?struct, ?function, ?vars, ?compound⟩, ?statement, ?expression,
    fun tokens => ⟨trace_ofTokens tokens, within_ofTokens tokens⟩⟩
  case typeBase =>
    intro last s
    refine (keeps_typeBase _ last s).mono ?_
    rintro (_ | base) s' h
    · exact State.moves_false.mpr h
    · obtain ⟨count, some, -, takes⟩ := h
      exact State.moves_true.mpr (takes.advances some)
  case struct => exact fun last s => keeps_structDeclaration last s (Nat.le_refl _)
  case function => exact fun last s => keeps_functionDeclaration last s (Nat.le_refl _)
  case vars => exact fun last s => keeps_varDeclaration last s (Nat.le_refl _)
  case compound => exact fun scope last s => keeps_compoundStatement scope last s (Nat.le_refl _)
  case statement => exact fun scope last s => progresses_statement scope last s (Nat.lt_succ_self _)
  case expression =>
    exact fun last s => progresses_expression (Nat.le_refl _) last s (Nat.lt_succ_self _)

end OnePass

end PlainC
