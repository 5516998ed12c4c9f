import PlainC.Proofs.Inserting.Settled
import PlainC.Proofs.Program.Extending
import PlainC.Proofs.Relabeling.Declarations
import PlainC.Proofs.Relabeling.Reading.Decl

set_option autoImplicit false

/-!
Declarations that nothing refers to are irrelevant: what follows them is accepted with them just if
it is accepted without them, and declares the same symbols, but for the indices of structs and the
depths of functions.
-/

namespace PlainC

open Checked

/-! ### Places -/

/-- Everything stands a number of tokens later. -/
def Relabeling.later (count : Nat) : Relabeling :=
  ofPlaces (fun place' => { place' with index := place'.index + count }) fun _ => rfl

theorem Relabeling.later_keepsNames (count : Nat) : (later count).KeepsNames := fun _ => rfl

theorem Lexeme.number_later (start count : Nat) (tokens : List Token) :
    number (start + count) tokens = (number start tokens).map (relabel (.later count)) := by
  induction tokens generalizing start with
  | nil => rfl
  | cons token tokens ih =>
    rw [number, number, List.map_cons, ← ih, Nat.add_right_comm]
    cases token with
    | mk kind => cases kind <;> rfl

/-- The end of input stands last. -/
theorem Lexeme.eq_of_isEnd {start : Nat} {tokens : List Token} {final : Token} {lexeme : Lexeme}
    (others : ∀ token ∈ tokens, token.kind ≠ .endOfInput)
    (mem : lexeme ∈ number start (tokens ++ [final])) (isEnd : lexeme.value = .endOfInput) :
    lexeme = ⟨final.kind, ⟨start + tokens.length, final.span, final.line⟩⟩ := by
  rw [number_append] at mem
  rcases List.mem_append.mp mem with inFront | isLast
  · obtain ⟨token, inside, same, -⟩ := exists_token inFront
    exact absurd (same.symm.trans isEnd) (others token inside)
  · exact List.mem_singleton.mp isLast

namespace Program

/-! ### The end of input -/

/-- It makes no difference which end of input stands behind the tokens. -/
theorem accepted_of_final {tokens : List Token} {final final' : Token} {program : Program}
    (isEnd : final.kind = .endOfInput) (isEnd' : final'.kind = .endOfInput)
    (others : ∀ token ∈ tokens, token.kind ≠ .endOfInput)
    (accepted : (ofTokens (tokens ++ [final])).result = .ok program) :
    (ofTokens (tokens ++ [final'])).result = .ok program := by
  obtain ⟨decls, written⟩ := exists_written accepted
  have same : front (tokens ++ [final']) = front (tokens ++ [final]) := by
    rw [front_eq isEnd others, front_eq isEnd' others]
  have written' : Written (tokens ++ [final']) decls :=
    ⟨written.formed, written.gapless, written.lexemes.trans same.symm⟩
  have ends' : Ends (tokens ++ [final']) := by simp [Ends, isEnd']
  rw [written'.accepted_iff ends', same]
  exact (written.accepted_iff (ends_of_accepted accepted)).mp accepted

/-! ### Complete declarations -/

namespace Complete

variable {first inserted : List Token} {decls decls' : List Decl} {declared declared' : Declared}

theorem settled (complete : Complete first decls declared) : declared.Settled :=
  Decl.settled_of_foldlM complete.formed Declared.settled_initial complete.given

/-- What declarations leave is like itself, where only places are changed. -/
theorem alike (complete : Complete first decls declared) {r : Relabeling} (keeps : r.KeepsNames)
    (lines : ∀ {line line'}, r.lines line line' → line' = line) : declared.Alike r declared := by
  have initial : Declared.Alike r ⟨.initial, 0⟩ ⟨.initial, 0⟩ := ⟨SymbolTable.alike_initial r, rfl⟩
  obtain ⟨other, -, alike⟩ :=
    (alike_foldlM (fun decl _ _ _ => decl.alike_check) initial).gives complete.given
  have same := alike.table.symbols_eq keeps lines
  obtain ⟨own, own', front, front', related⟩ := alike.table
  exact ⟨⟨own, own', front, same ▸ front', related⟩, rfl⟩

/-- The symbols that the second declarations put behind those of the first ones. -/
theorem widened (complete : Complete first decls declared)
    (complete' : Complete (first ++ inserted) decls' declared')
    (grown : ∃ more, declared'.table.symbols = declared.table.symbols ++ more) :
    declared.Widened ⟨declared.table.symbols, declared'.table.symbols.drop declared.table.size⟩
      declared' := by
  obtain ⟨more, grown⟩ := grown
  have more_eq : declared'.table.symbols.drop declared.table.size = more := by
    rw [grown, SymbolTable.size, List.drop_left]
  rw [more_eq]
  have settled : ∀ symbol ∈ declared.table.symbols,
      symbol.Renumbered ⟨declared.table.symbols, more⟩ symbol :=
    fun symbol among => Symbol.Settled.renumbered (complete.settled.symbols symbol among)
  refine ⟨⟨settled, [], ?_, ?_⟩, ?_, ?_⟩
  · rw [List.append_nil]
  · rw [List.map_nil, List.append_nil, grown]
  · exact complete.settled.depth.ge
  · rw [complete'.settled.depth, complete.settled.depth, grown, Insertion.functions,
      Insertion.functions, Insertion.functions, List.countP_append]

/-- What follows declarations is made of the same trees where more of them come before, but later.
Only identifiers in it are names in the trees. -/
theorem exists_behind (complete : Complete first decls declared)
    (complete' : Complete (first ++ inserted) decls' declared') {behind : List Token} {final : Token}
    (isEnd : final.kind = .endOfInput) (others : ∀ token ∈ behind, token.kind ≠ .endOfInput) :
    ∃ (more : List Decl) (position position' : Nat),
      (ofTokens (first ++ (behind ++ [final]))).result =
        (more.foldlM Decl.check declared).result.map (fun last => ⟨last.table, position⟩) ∧
      (ofTokens (first ++ inserted ++ (behind ++ [final]))).result =
        ((more.map (Decl.relabel (.later inserted.length))).foldlM Decl.check declared').result.map
          (fun last => ⟨last.table, position'⟩) ∧
      ∀ t, Slot.found t ∈ more.flatMap Decl.parts → ∀ name, t.value = .identifier name →
        ∃ token ∈ behind, token.kind = .identifier name := by
  have ends : Ends (behind ++ [final]) := by simp [Ends, isEnd]
  obtain ⟨last, last_mem, last_isEnd, result⟩ := complete.ofTokens_result ends
  obtain ⟨last', last_mem', last_isEnd', result'⟩ := complete'.ofTokens_result ends
  have later : Lexeme.number (first ++ inserted).length (behind ++ [final]) =
      (Lexeme.number first.length (behind ++ [final])).map
        (Lexeme.relabel (.later inserted.length)) := by
    rw [List.length_append, Lexeme.number_later]
  -- there is only one end of input behind, so both analyses end at the same one
  have last_eq : last' = Lexeme.relabel (.later inserted.length) last := by
    rw [later] at last_mem'
    obtain ⟨original, mem, rfl⟩ := List.mem_map.mp last_mem'
    have original_isEnd : original.value = .endOfInput :=
      (Kind.relabel_eq_iff (by simp) original.value).mp last_isEnd'
    rw [Lexeme.eq_of_isEnd others mem original_isEnd, Lexeme.eq_of_isEnd others last_mem last_isEnd]
  have front_later : frontBehind (first ++ inserted) (behind ++ [final]) =
      (frontBehind first (behind ++ [final])).map (Lexeme.relabel (.later inserted.length)) := by
    rw [frontBehind, later, Lexeme.takeWhile_relabel, frontBehind]
  rw [last_eq, front_later, Decl.follows_parseAll] at result'
  obtain ⟨more, rest, read, spans, -, -⟩ :=
    Decl.parseAll_reads last (frontBehind first (behind ++ [final]))
  rw [read] at result result'
  refine ⟨more, _, _, result, result', fun t inside name named => ?_⟩
  have mem : t ∈ Lexeme.number first.length (behind ++ [final]) := by
    rcases spans.mem_lexeme _ inside with inFront | isLast
    · exact (List.takeWhile_sublist _).subset inFront
    · obtain rfl : t = last := isLast
      exact last_mem
  obtain ⟨token, among, same, -⟩ := Lexeme.exists_token mem
  rw [same] at named
  rcases List.mem_append.mp among with among | isFinal
  · exact ⟨token, among, named⟩
  · rw [List.mem_singleton.mp isFinal, isEnd] at named
    cases named

end Complete

/-! ### Programs -/

section

variable {first inserted behind : List Token} {final : Token} {program program' : Program}

/-- The same end of input behind all tokens. -/
theorem agree_insert (isEnd : final.kind = .endOfInput)
    (others : ∀ token ∈ first ++ inserted ++ behind, token.kind ≠ .endOfInput)
    (accepted : (ofTokens (first ++ [final])).result = .ok program)
    (accepted' : (ofTokens (first ++ inserted ++ [final])).result = .ok program')
    (unused : ∀ symbol ∈ program'.table.symbols.drop program.table.size,
      ∀ token ∈ behind, token.kind ≠ .identifier symbol.name) :
    let ins : Insertion :=
      ⟨program.table.symbols, program'.table.symbols.drop program.table.size⟩
    program'.table.symbols = ins.front ++ ins.symbols ∧
      Agree (fun whole whole' => whole.table.Omits ins whole'.table)
        (ofTokens (first ++ (behind ++ [final])))
        (ofTokens (first ++ inserted ++ (behind ++ [final]))) := by
  intro ins
  rw [List.forall_mem_append] at others
  obtain ⟨decls, declared, complete, same⟩ :=
    exists_complete isEnd (List.forall_mem_append.mp others.1).1 accepted
  obtain ⟨decls', declared', complete', same'⟩ := exists_complete isEnd others.1 accepted'
  have grown : ∃ more, program'.table.symbols = declared.table.symbols ++ more := by
    rw [List.append_assoc] at accepted'
    exact complete.grows (by simp [Ends, isEnd]) accepted'
  have ins_eq : program'.table.symbols = ins.front ++ ins.symbols := by
    obtain ⟨more, grown⟩ := grown
    rw [same] at grown
    simp only [ins, grown, SymbolTable.size, List.drop_left]
  refine ⟨ins_eq, ?_⟩
  have widened : declared.Widened ins declared' := by
    rw [← same'] at grown
    simp only [ins, ← same, ← same']
    exact complete.widened complete' grown
  obtain ⟨more, position, position', result, result', named⟩ :=
    complete.exists_behind complete' isEnd others.2
  have spares : ins.SparesAll (more.flatMap Decl.parts) := by
    intro t inside name identifier symbol among same
    obtain ⟨token, mem, kind⟩ := named t inside name identifier
    exact unused symbol among token mem (same ▸ kind)
  have agree := Decl.agree_foldlM_check spares widened
  have alike : Checked.Alike (.later inserted.length) (Declared.Alike _)
      (more.foldlM Decl.check declared')
      ((more.map (Decl.relabel (.later inserted.length))).foldlM Decl.check declared') :=
    alike_foldlM (fun decl _ _ _ => decl.alike_check)
      (complete'.alike (Relabeling.later_keepsNames _) Eq.symm)
  -- from the first table to the second one, and there from the trees to those at later places
  have both : Agree (fun last last' : Declared => last.table.Omits ins last'.table)
      (more.foldlM Decl.check declared)
      ((more.map (Decl.relabel (.later inserted.length))).foldlM Decl.check declared') := by
    refine agree.trans alike (fun _ _ _ _ _ => trivial) fun last middle last' widened alike => ?_
    obtain ⟨own, front, front'⟩ := widened.table.omits
    have symbols := alike.table.symbols_eq (Relabeling.later_keepsNames _) Eq.symm
    exact ⟨own, front, symbols.trans front'⟩
  exact both.of_result_map result result' fun _ _ omits => omits

end

/-- The tokens with an end of input of their own. -/
def ended (final : List Token → Token) (tokens : List Token) : List Token :=
  tokens ++ [final tokens]

/-- Declarations can be put in where nothing behind them has one of their names: what follows is
accepted just if it was accepted before, and declares the same, but for the numbers of structs and
functions that come later. -/
theorem ofTokens_insert (final : List Token → Token)
    (isEnd : ∀ tokens, (final tokens).kind = .endOfInput) (first inserted behind : List Token)
    (others : ∀ token ∈ first ++ inserted ++ behind, token.kind ≠ .endOfInput)
    (program program' : Program) (accepted : (ofTokens (ended final first)).result = .ok program)
    (accepted' : (ofTokens (ended final (first ++ inserted))).result = .ok program')
    (unused : ∀ symbol ∈ program'.table.symbols.drop program.table.size,
      ∀ token ∈ behind, token.kind ≠ .identifier symbol.name) :
    let ins : Insertion :=
      ⟨program.table.symbols, program'.table.symbols.drop program.table.size⟩
    program'.table.symbols = ins.front ++ ins.symbols ∧
    ((∃ whole, (ofTokens (ended final (first ++ behind))).result = .ok whole) ↔
      ∃ whole', (ofTokens (ended final (first ++ inserted ++ behind))).result = .ok whole') ∧
    ∀ whole whole', (ofTokens (ended final (first ++ behind))).result = .ok whole →
      (ofTokens (ended final (first ++ inserted ++ behind))).result = .ok whole' →
      whole.table.Omits ins whole'.table := by
  intro ins
  have isEnd₀ := isEnd []
  obtain ⟨othersInserted, othersBehind⟩ := List.forall_mem_append.mp others
  have othersFirst := (List.forall_mem_append.mp othersInserted).1
  have othersWithout : ∀ token ∈ first ++ behind, token.kind ≠ .endOfInput :=
    List.forall_mem_append.mpr ⟨othersFirst, othersBehind⟩
  -- one end of input behind all tokens, as it does not matter which one
  have same {tokens : List Token} (others : ∀ token ∈ tokens, token.kind ≠ .endOfInput)
      (program : Program) : (ofTokens (ended final tokens)).result = .ok program ↔
        Gives (ofTokens (tokens ++ [final []])) program :=
    ⟨accepted_of_final (isEnd _) isEnd₀ others, accepted_of_final isEnd₀ (isEnd _) others⟩
  rw [same othersFirst] at accepted
  rw [same othersInserted] at accepted'
  obtain ⟨grown, agree⟩ := agree_insert isEnd₀ others accepted accepted' unused
  rw [← List.append_assoc, ← List.append_assoc] at agree
  simp only [same othersWithout, same others]
  exact ⟨grown, agree.passes_iff, fun whole whole' given given' => agree.of_gives given given'⟩

/-- A struct and a function between `int x;` and another struct and function. -/
theorem ofTokens_insert_function :
    let tokens (kinds : List Kind) : List Token := kinds.map fun kind => ⟨kind, ⟨0, 0⟩, 1⟩
    let final : List Token → Token := fun tokens => ⟨.endOfInput, ⟨0, 0⟩, tokens.length⟩
    let first := tokens [.keyword .intKw, .identifier "x", .delimiter .semicolon]
    let inserted := tokens
      [.keyword .structKw, .identifier "S", .delimiter .leftBrace, .delimiter .rightBrace,
        .delimiter .semicolon, .keyword .voidKw, .identifier "f", .delimiter .leftParen,
        .delimiter .rightParen, .delimiter .leftBrace, .delimiter .rightBrace]
    let behind := tokens
      [.keyword .structKw, .identifier "T", .delimiter .leftBrace, .delimiter .rightBrace,
        .delimiter .semicolon, .keyword .voidKw, .identifier "g", .delimiter .leftParen,
        .keyword .structKw, .identifier "T", .identifier "t", .delimiter .rightParen,
        .delimiter .leftBrace, .delimiter .rightBrace]
    ∃ program program' whole whole', (ofTokens (ended final first)).result = .ok program ∧
      (ofTokens (ended final (first ++ inserted))).result = .ok program' ∧
      (∀ symbol ∈ program'.table.symbols.drop program.table.size,
        ∀ token ∈ behind, token.kind ≠ .identifier symbol.name) ∧
      (ofTokens (ended final (first ++ behind))).result = .ok whole ∧
      (ofTokens (ended final (first ++ inserted ++ behind))).result = .ok whole' ∧
      whole.table.Omits ⟨program.table.symbols, program'.table.symbols.drop program.table.size⟩
        whole'.table := by
  intro tokens final first inserted behind
  have others : ∀ token ∈ first ++ inserted ++ behind, token.kind ≠ .endOfInput := by decide
  refine ⟨_, _, _, _, rfl, rfl, ?_, rfl, rfl, ?_⟩
  · decide
  · exact (ofTokens_insert final (fun _ => rfl) first inserted behind others _ _ rfl rfl
      (by decide)).2.2 _ _ rfl rfl

end Program

end PlainC
