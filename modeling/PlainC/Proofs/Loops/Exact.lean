import PlainC.Proofs.Loops.Placed
import PlainC.Proofs.Visits.Accepted
import PlainC.Proofs.Visits.Breaks

set_option autoImplicit false

/-!
The checks of statements are exact: the counter of the parser is that of the loops around what it
enters, a `break` is refused just where there are none, and in an accepted program whatever is
tested or given back can be.
-/

namespace PlainC

namespace Guarded

/-- The function stands in the program: all statements of its body are come to in a scope that has
its result type, and what they test and give back is sound. -/
def SoundFunction (tokens : List Token) (before : List Decl) (result : ResultType) (name : Name)
    (body : Slot Block) : Prop :=
  ∃ declared ty block, (before.foldlM Decl.check ⟨.initial, 0⟩).Gives declared ∧
    (result.resolve declared.table).Gives ty ∧ body = .found block ∧
    ∀ loops stmt, (loops, .stmt stmt) ∈ block.items.items 0 →
      ∃ table,
        .stmt ⟨name.value, ty, declared.depth + 1⟩ loops table stmt ∈ Program.visits tokens ∧
          stmt.HeadIsSound ⟨name.value, ty, declared.depth + 1⟩ table

/-- The checks of statements are exact. -/
structure StatementsExact (tokens : List Token) : Prop where
  /-- The parser comes to what the analysis of the tokens does. -/
  result : ∃ s, (ofTokens tokens).result = .ok ((Program.ofTokens tokens).result, s)
  /-- In front of every declaration and every statement that the parser enters, the counter is the
  number of loops whose bodies they are in. -/
  counted : ∀ entry ∈ entries tokens, entry.entered.loopDepth = entry.frames.count .loop
  /-- Outside of all functions it is zero. -/
  outside : ∀ entry ∈ entries tokens,
    (∀ index depth opened, entry.entered.context ≠ .function index depth opened) →
      entry.frames = [] ∧ entry.entered.loopDepth = 0
  /-- The parser gets behind each of them, and the counter is what it was in front of it. -/
  restored : ∀ entry ∈ entries tokens,
    ∃ s, entry.left = .ok s ∧ s.loopDepth = entry.entered.loopDepth
  /-- Whatever of a function it enters, the check comes to it as well, inside of as many loops. -/
  placed : ∀ entry ∈ entries tokens, entry.entered.context.IsFunction →
    ∃ visit ∈ Program.visits tokens, entry.entered.IsAt (Lexeme.number 0 tokens) visit
  /-- A `break` that the parser comes to in a function is refused just if it is in the body of no
  loop. -/
  breaks : ∀ entry ∈ entries tokens, entry.entered.context.IsFunction →
    ∀ token, tokens[entry.entered.position]? = some token → token.kind = .keyword .breakKw →
      ((Program.ofTokens tokens).result = .error
          ⟨.violation .breakOutsideLoop, ⟨entry.entered.position, token.span, token.line⟩⟩ ↔
        .loop ∉ entry.frames)
  /-- So is one that the check comes to. -/
  visited : ∀ scope loops table word semicolon,
    .stmt scope loops table (.breakLoop word semicolon) ∈ Program.visits tokens →
      ((Program.ofTokens tokens).result = .error ⟨.violation .breakOutsideLoop, word⟩ ↔ loops = 0)
  /-- What is tested and given back in an accepted program is sound. -/
  accepted : ∀ program, (Program.ofTokens tokens).result = .ok program →
    ∀ before behind result name opening params closing body,
      Program.decls tokens =
          before ++ .function result name opening params closing body :: behind →
        SoundFunction tokens before result name body

theorem statementsExact {tokens : List Token} (few : tokens.length < counterBound) :
    StatementsExact tokens := by
  have unharmed : Unharmed tokens := by
    by_cases ends : Program.Ends tokens
    · exact unharmed_of_ends few ends
    · exact unharmed_of_not_ends ends
  have counted := counted_of_mem_entries unharmed
  constructor
  case result => exact unharmed.result
  case counted => exact fun entry among => (counted entry among).1.entered.loops
  case outside =>
    intro entry among outside
    have stands := (counted entry among).1.entered
    have none : entry.frames = [] := by
      by_contra some
      obtain ⟨index, depth, opened, inside⟩ := stands.inside some
      exact outside index depth opened inside
    exact ⟨none, by rw [stands.loops, none, List.count_nil]⟩
  case restored =>
    intro entry among
    obtain ⟨isCounted, s, left⟩ := counted entry among
    exact ⟨s, left, isCounted.left s left⟩
  case placed => exact exists_visit few
  case breaks =>
    rintro entry among inside ⟨_, span, line⟩ here rfl
    have lexeme : (Lexeme.number 0 tokens)[entry.entered.position]? =
        some ⟨.keyword .breakKw, ⟨entry.entered.position, span, line⟩⟩ := by
      rw [Lexeme.getElem?_number, here, Option.map_some, Nat.zero_add]
    obtain ⟨visit, among', isAt⟩ := exists_visit few entry among inside
    obtain ⟨scope, semicolon, rfl⟩ := isAt.breaks _ lexeme
    rw [Program.refused_break_iff among', (counted entry among).1.entered.loops, List.count_eq_zero]
  case visited => exact fun _ _ _ _ _ reached => Program.refused_break_iff reached
  case accepted =>
    intro program accepted before behind result name opening params closing body written
    exact Program.sound_of_accepted accepted written

/-- `void f(){for(;;)if(1)while(1){break;}else break;break;}` and the end of input: only the last
`break` is in no loop. -/
theorem statementsExact_nested :
    let kinds : List Kind :=
      [.keyword .voidKw, .identifier "f", .delimiter .leftParen, .delimiter .rightParen,
        .delimiter .leftBrace,
        .keyword .forKw, .delimiter .leftParen, .delimiter .semicolon, .delimiter .semicolon,
        .delimiter .rightParen,
        .keyword .ifKw, .delimiter .leftParen, .literal .integer "1", .delimiter .rightParen,
        .keyword .whileKw, .delimiter .leftParen, .literal .integer "1", .delimiter .rightParen,
        .delimiter .leftBrace, .keyword .breakKw, .delimiter .semicolon, .delimiter .rightBrace,
        .keyword .elseKw, .keyword .breakKw, .delimiter .semicolon,
        .keyword .breakKw, .delimiter .semicolon, .delimiter .rightBrace, .endOfInput]
    let tokens : List Token := kinds.map fun kind => ⟨kind, ⟨0, 1⟩, 1⟩
    tokens.length < counterBound ∧ StatementsExact tokens ∧
      ((entries tokens).filter fun entry =>
          kinds[entry.entered.position]? = some (.keyword .breakKw)).map
        (fun entry => (entry.entered.position, entry.entered.loopDepth, entry.frames)) =
        -- in braces a declaration is tried in front of a statement
        [(19, 2, [.block, .loop, .branch, .loop, .block]),
          (19, 2, [.block, .loop, .branch, .loop, .block]),
          (23, 1, [.branch, .loop, .block]), (25, 0, [.block]), (25, 0, [.block])] ∧
      (Program.ofTokens tokens).result =
        .error ⟨.violation .breakOutsideLoop, ⟨25, ⟨0, 1⟩, 1⟩⟩ := by
  intro kinds tokens
  have few : tokens.length < counterBound := by decide
  exact ⟨few, statementsExact few, by decide +kernel, rfl⟩

end Guarded

end PlainC
