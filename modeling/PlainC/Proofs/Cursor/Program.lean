import PlainC.Proofs.Anchoring.Source
import PlainC.Proofs.Cursor.Refining.Declarations
import PlainC.Proofs.OnePass.Program

set_option autoImplicit false

/-!
Whole programs with a cursor. The analysis comes to the same as the one that has nothing but the
lexemes in front of the first end of input, although the tokens behind it are on the tape as well:
the cursor does not get over it, and the evaluator of sizes, to which all that is left of the tape is
given, asks for none of them.
-/

namespace PlainC

namespace Cursor

open Run Walk

/-! ### The tape of a program -/

/-- The index of the first end of input. -/
def firstEnd (tokens : List Token) : Nat := tokens.findIdx fun token => token.kind = .endOfInput

theorem length_front (tokens : List Token) : (Program.front tokens).length = firstEnd tokens := by
  have kinds := congrArg List.length (Program.map_value_front tokens)
  rw [List.length_map, List.length_map, List.takeWhile_eq_take_findIdx_not, List.length_take,
    Nat.min_eq_left List.findIdx_le_length] at kinds
  simpa [firstEnd] using kinds

/-- The tape of a program has its first end of input behind the front. -/
theorem exists_barrier {tokens : List Token} (ends : Program.Ends tokens) :
    ∃ last, Barrier (Lexeme.number 0 tokens) (Program.front tokens).length last ∧
      ahead (Lexeme.number 0 tokens) (Program.front tokens).length 0 = Program.front tokens := by
  obtain ⟨before, final, behind, rfl, isEnd, others⟩ := Program.exists_end ends
  rw [Program.front_eq isEnd others, Lexeme.length_number]
  refine ⟨⟨final.kind, ⟨before.length, final.span, final.line⟩⟩, ⟨?_, isEnd, ?_⟩, ?_⟩
  · simp [Lexeme.getElem?_number]
  · intro i lt lexeme found
    rw [Lexeme.getElem?_number, List.getElem?_append_left lt, Option.map_eq_some_iff] at found
    obtain ⟨token, found, rfl⟩ := found
    exact others token (List.mem_of_getElem? found)
  · rw [ahead, List.drop_zero, Lexeme.number_append, List.take_left' (Lexeme.length_number 0 before)]

/-- In front of a clear index there is no trivia among the tokens. -/
theorem Clear.not_trivia {tokens : List Token} {index : Nat}
    (clear : Clear (Lexeme.number 0 tokens) index) :
    ∀ token ∈ tokens.take index, token.kind ≠ .trivia := by
  intro token among
  obtain ⟨i, lt, rfl⟩ := List.mem_take_iff_getElem.mp among
  obtain ⟨lt, inside⟩ := Nat.lt_min.mp lt
  exact (clear i lt _ (by rw [Lexeme.getElem?_number, List.getElem?_eq_getElem inside]; rfl)).1

/-! ### The analysis of a program -/

/-- Where the declarations of a program end, the cursor is at the first end of input. -/
theorem meets_program {tape : List Lexeme} {k : Nat} {last : Lexeme} (barrier : Barrier tape k last)
    (count : Nat) :
    (Parser.program tape .outset).Meets tape
      (fun stop => ∃ fault, (OnePass.program count last (.outset (ahead tape k 0))).result =
        .error fault ∧ stop = .fault fault)
      fun program s => Clear tape s.position ∧ s.position = k ∧
        ∃ s', (OnePass.program count last (.outset (ahead tape k 0))).result = .ok (program, s') := by
  have keeps := OnePass.keeps_declarations last (.outset (ahead tape k 0)) (Nat.le_refl _)
  have uncut : .cutOff ∉ (OnePass.declarations last (.outset (ahead tape k 0))).events :=
    fun among => keeps.events _ among
  have refines : Refines barrier Eq Parser.declarations OnePass.declarations :=
    Parser.refines_declarations
  have outset : State.outset.view tape k = .outset (ahead tape k 0) := rfl
  have declares := refines .outset (clear_zero tape) uncut
  rw [outset] at declares
  refine (declares.mono ?_ fun _ _ => id).bind ?_
  · rintro _ ⟨fault, fails, rfl⟩
    exact ⟨fault, by rw [OnePass.program_result, fails]; rfl, rfl⟩
  · rintro _ s ⟨clear, _, passes, -⟩
    have none : ahead tape k s.position = [] := keeps.result _ _ passes
    have reached : s.position = k := by
      have length := barrier.length_ahead s.position
      have le := clear.le barrier
      rw [none, List.length_nil] at length
      omega
    refine meets_get.bind ?_
    rintro _ s ⟨rfl, rfl⟩
    refine meets_pure ⟨clear, reached, s.view tape k, ?_⟩
    rw [OnePass.program_result, passes, barrier.length_ahead, Nat.sub_zero, ← reached]
    rfl

/-- On all tokens the parser comes to what the analysis does. -/
theorem meets_ofTokens {tokens : List Token} (ends : Program.Ends tokens) :
    (ofTokens tokens).Meets (Lexeme.number 0 tokens)
      (fun stop => ∃ fault, (Program.ofTokens tokens).result = .error fault ∧ stop = .fault fault)
      fun program s => Clear (Lexeme.number 0 tokens) s.position ∧
        s.position = (Program.front tokens).length ∧
          (Program.ofTokens tokens).result = .ok program := by
  obtain ⟨last, barrier, front⟩ := exists_barrier ends
  obtain ⟨final, found, isEnd⟩ := Program.ends_iff.mp ends
  have cursor : ofTokens tokens = Parser.program (Lexeme.number 0 tokens) .outset := by
    simp only [ofTokens, found, isEnd, ne_eq, not_true_eq_false, if_false]
  have analysis : OnePass.ofTokens tokens =
      OnePass.program tokens.length last (.outset (Program.front tokens)) := by
    have here := barrier.at_end
    rw [Program.front] at here
    simp only [OnePass.ofTokens, found, here, isEnd, ne_eq, not_true_eq_false, if_false,
      Option.getD_some]
    rfl
  have traced : (Program.ofTokens tokens).result =
      (OnePass.program tokens.length last (.outset (Program.front tokens))).result.map Prod.fst := by
    rw [← OnePass.trace_ofTokens, analysis]
    exact Checked.result_map _ _
  have meets := meets_program barrier tokens.length
  rw [front] at meets
  rw [cursor]
  refine meets.mono ?_ ?_
  · rintro _ ⟨fault, fails, rfl⟩
    exact ⟨fault, by rw [traced, fails]; rfl, rfl⟩
  · rintro program s ⟨clear, reached, s', passes⟩
    exact ⟨clear, reached, by rw [traced, passes]; rfl⟩

/-- The parser with a cursor comes to the same program, or the same fault, as the analysis that reads
everything in front of the first end of input and checks it behind that. -/
theorem ofTokens_result (tokens : List Token) :
    (ofTokens tokens).result.map Prod.fst = (Program.ofTokens tokens).result.mapError .fault := by
  by_cases ends : Program.Ends tokens
  · have meets := meets_ofTokens ends
    cases h : (ofTokens tokens).result with
    | error stop =>
      obtain ⟨fault, refused, rfl⟩ := meets.stops stop h
      rw [refused]
      rfl
    | ok found =>
      obtain ⟨-, -, accepted⟩ := meets.result found.1 found.2 h
      rw [accepted]
      rfl
  · cases found : (Lexeme.number 0 tokens).getLast? with
    | none => simp only [ofTokens, Program.ofTokens, found]; rfl
    | some final =>
      have other : final.value ≠ .endOfInput :=
        fun isEnd => ends (Program.ends_iff.mpr ⟨final, found, isEnd⟩)
      simp only [ofTokens, Program.ofTokens, found, ne_eq, other, not_false_eq_true, if_true]
      rfl

/-! ### The first end of input -/

/-- No token behind the index has anything to do with what the event does. -/
def Event.Within (k : Nat) : Event → Prop
  | asked index | moved index => index ≤ k
  | fellBack => False

theorem Event.IsClear.within {tape : List Lexeme} {k : Nat} {last : Lexeme}
    (barrier : Barrier tape k last) {event : Event} (isClear : event.IsClear tape) :
    event.Within k := by
  cases event with
  | asked | moved => exact Clear.le barrier isClear
  | fellBack => exact isClear

/-- The token of index `k` is an end of input, and the last one that the tokens are read up to. -/
structure StopsAt (tokens : List Token) (k : Nat) : Prop where
  isEnd : tokens[k]?.map Token.kind = some .endOfInput
  /-- The cursor is not set, and no token asked for, behind the end of input; and the evaluator of
  sizes never is without a token. -/
  events : ∀ event ∈ (ofTokens tokens).events, event.Within k
  /-- What is accepted is read up to the end of input, and has no trivia in it. -/
  accepted : ∀ program s, (ofTokens tokens).result = .ok (program, s) →
    s.position = k ∧ program.position = k ∧ ∀ token ∈ tokens.take k, token.kind ≠ .trivia
  /-- Otherwise it is refused with a fault, in front of the end of input or there. -/
  refused : ∀ stop, (ofTokens tokens).result = .error stop → ∃ fault, stop = .fault fault ∧
    ∃ token ∈ tokens.take (k + 1),
      fault.diagnostic.span = token.span ∧ fault.diagnostic.line = token.line
  /-- The tokens behind the end of input make no difference. -/
  cut : (ofTokens (tokens.take (k + 1))).result.map Prod.fst = (ofTokens tokens).result.map Prod.fst

/-- The parser with a cursor has all tokens on its tape, but neither it nor its evaluator of sizes
gets behind the first end of input; and it comes to what the analysis of the tokens is. -/
theorem ofTokens_stopsAt {tokens : List Token} (ends : Program.Ends tokens) :
    StopsAt tokens (firstEnd tokens) ∧
      (ofTokens tokens).result.map Prod.fst = (Program.ofTokens tokens).result.mapError .fault := by
  have meets := meets_ofTokens ends
  obtain ⟨last, barrier, -⟩ := exists_barrier ends
  obtain ⟨ends', same⟩ := Program.ofTokens_take ends
  rw [← length_front]
  refine ⟨?stops, ofTokens_result tokens⟩
  constructor
  case isEnd => exact (Program.front_spelled ends).2
  case events => exact fun event among => (meets.events event among).within barrier
  case accepted =>
    intro program s passes
    obtain ⟨clear, reached, accepted⟩ := meets.result program s passes
    rw [reached] at clear
    exact ⟨reached, Program.position_of_accepted accepted, clear.not_trivia⟩
  case refused =>
    intro stop fails
    obtain ⟨fault, refused, rfl⟩ := meets.stops stop fails
    rw [← same] at refused
    obtain ⟨token, among, about⟩ := Program.exists_token_of_fault ends' refused
    exact ⟨fault, rfl, token, among, congrArg Place.span about.1, congrArg Place.line about.1⟩
  case cut => rw [ofTokens_result, ofTokens_result, same]

/-- `int v[2+`, an end of input, and `1];` behind it: the size has no second operand. -/
theorem ofTokens_stopsAt_brackets :
    let kinds : List Kind :=
      [.keyword .intKw, .identifier "v", .delimiter .leftBracket, .literal .integer "2",
        .operator .plus, .endOfInput,
        .literal .integer "1", .delimiter .rightBracket, .delimiter .semicolon, .endOfInput]
    let tokens : List Token := kinds.map fun kind => ⟨kind, ⟨0, 1⟩, 1⟩
    Program.Ends tokens ∧ StopsAt tokens 5 ∧
      (ofTokens tokens).result =
        .error (.fault ⟨.violation (.sizeOperandNotConstant .endOfInput), ⟨5, ⟨0, 1⟩, 1⟩⟩) := by
  intro kinds tokens
  have ends : Program.Ends tokens := by decide
  have first : firstEnd tokens = 5 := by decide
  have stops := (ofTokens_stopsAt ends).1
  rw [first] at stops
  exact ⟨ends, stops, rfl⟩

end Cursor

end PlainC
