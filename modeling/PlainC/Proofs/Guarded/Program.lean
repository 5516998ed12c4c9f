import PlainC.Proofs.Cursor.Program
import PlainC.Proofs.Guarded.Scanning
import PlainC.Proofs.Guarded.Statements

set_option autoImplicit false

/-!
Declarations and whole programs. A function stands at its mark in the table for as long as it is
open, so that there is something up to the mark to leave; and no analysis of tokens is trapped.
-/

namespace PlainC

namespace SymbolTable

/-- Where a symbol is appended it stands behind all others. -/
theorem getElem?_heads_size {table table' : SymbolTable} {symbol : Symbol}
    (heads : table'.heads = table.heads ++ [symbol]) : table'.heads[table.size]? = some symbol := by
  rw [heads, ← length_heads, List.getElem?_concat_length]

theorem heads_truncate (table : SymbolTable) (size : Nat) :
    (table.truncate size).heads = table.heads.take size :=
  List.map_take

end SymbolTable

namespace Guarded

open Cursor (Barrier Clear taken)
open Cursor.Parser (check store update)

variable {tape : List Lexeme} {k : Nat} {last : Lexeme} {loops : Nat} {s s' : State}

section

variable (barrier : Barrier tape k last) (short : tape.length < counterBound)

include barrier short

/-! ### Structs -/

theorem follows_members (fit : s.Fit tape loops) :
    Follows tape loops (Parser.members tape s) (Cursor.Parser.members tape s.cursor)
      fun _ s' => s.Reaches tape loops 0 s' := by
  refine follows_bounded fun fuel => ?_
  refine follows_repeating (fun s' => s.Reaches tape loops 0 s') ?_ ?_ fuel () s (.refl fit)
  · intro s₁ here
    refine (follows_varDeclaration barrier short here.fit).bind ?_
    rintro (_ | _) s₂ next
    · exact follows_pure (here.trans next)
    · exact follows_pure (here.trans next)
  · intro _ _ s₁ here
    exact follows_pure here

omit barrier short in
/-- What is stored depends on nothing but what the rule makes of the table. -/
theorem store_congr {rule rule' : SymbolTable → Checked SymbolTable} {c : Cursor.State}
    (same : rule c.memory.table = rule' c.memory.table) :
    store rule tape c = store rule' tape c := by
  change (Cursor.Walk.settle (rule c.memory.table) tape c).andThen _ =
    (Cursor.Walk.settle (rule' c.memory.table) tape c).andThen _
  rw [same]

omit barrier short in
/-- Behind a fault nothing else is done. -/
theorem Follows.refuses {run : Run Unit} {other : Cursor.Parser Unit} {c : Cursor.State}
    {next : Unit → Cursor.Parser Unit} {post : Unit → State → Prop}
    (follows : Follows tape loops run (other tape c) fun _ _ => False) :
    Follows tape loops run ((other >>= next) tape c) post := by
  intro settles
  change Settles ((other tape c).andThen _) at settles
  change Run.Agrees tape loops run ((other tape c).andThen _) post
  obtain ⟨visited, ⟨fault, s', fails, fails', fit⟩ | ⟨_, _, _, _, none⟩⟩ := follows settles.first
  · rw [Cursor.Run.andThen, fails']
    exact ⟨visited, .inl ⟨fault, s', fails, rfl, fit⟩⟩
  · exact none.elim

omit barrier short in
/-- The name of a struct must be free at all depths. -/
theorem follows_structName {name : Name} {symbol : Symbol} {next : Parser Unit}
    {next' : Unit → Cursor.Parser Unit} {post : Unit → State → Prop} (fit : s.Fit tape loops)
    (second : ∀ table : SymbolTable, table.heads = s.table.heads ++ [symbol.head] →
      Follows tape loops (next tape { s with table })
        (next' () tape (State.cursor { s with table })) post) :
    Follows tape loops
      ((match s.table.find? name.value with
        | some previous => Parser.lift (check fun _ => Checked.redefined name previous.line)
        | none => do
          let _ ← Parser.declare name symbol
          next) tape s)
      ((store (fun table => do
          if let some previous := table.find? name.value then
            Checked.redefined name previous.line
          table.declare name symbol) >>= next') tape s.cursor) post := by
  cases found : s.table.find? name.value with
  | some previous =>
    refine Follows.refuses (follows_refused fit rfl ?_)
    simp only [found]
    rfl
  | none =>
    have congr : store (fun table => do
        if let some previous := table.find? name.value then
          Checked.redefined name previous.line
        table.declare name symbol) tape s.cursor =
        store (fun table => table.declare name symbol) tape s.cursor := by
      refine store_congr ?_
      change (do
        if let some previous := s.table.find? name.value then
          Checked.redefined name previous.line
        s.table.declare name symbol : Checked SymbolTable) = _
      rw [found]
      rfl
    change Follows tape loops _ ((store _ tape s.cursor).andThen _) post
    rw [congr]
    exact follows_declare fit second

omit barrier short in
/-- What is open has changed, and is in the table. -/
theorem State.Fit.within (fit : s.Fit tape loops) (context : Context)
    (opened : context.Open s.table) : State.Fit tape loops { s with context } :=
  { fit with opened }

omit barrier short in
/-- What was open is open again. -/
theorem State.Reaches.leave {context : Context}
    (reaches : State.Reaches tape loops { s with context } 0 s') (outer : s.context.Open s.table) :
    s.Reaches tape loops 0 { s' with context := s.context } :=
  { reaches with
    fit := reaches.fit.within _ (outer.mono reaches.heads)
    context := rfl }

theorem follows_structBody (name : Name) (fit : s.Fit tape loops) :
    Follows tape loops (Parser.structBody name tape s) (Cursor.Parser.structBody name tape s.cursor)
      fun _ s' => s.Reaches tape loops 0 s' := by
  refine follows_look ?_
  refine follows_looked ?_
  refine follows_structName fit ?_
  intro table heads
  have declared := fit.declared heads
  have inside := declared.fit.within (.struct _ _) ⟨SymbolTable.getElem?_heads_size heads, rfl⟩
  refine follows_updated rfl inside.self ?_
  refine (follows_members barrier short inside).bind ?_
  intro _ s₂ members
  have left := members.leave declared.fit.opened
  refine follows_updated rfl left.fit.self ?_
  have reached := declared.trans left
  refine (follows_lift barrier (Cursor.steady_expect _) reached).bind ?_
  intro _ s₄ reached
  exact follows_lift_last barrier (Cursor.steady_expect _) reached

theorem follows_structDeclaration (fit : s.Fit tape loops) :
    Follows tape loops (Parser.structDeclaration tape s)
      (Cursor.Parser.structDeclaration tape s.cursor) fun _ s' => s.Reaches tape loops 0 s' := by
  refine follows_get ?_
  refine (follows_lift barrier (Cursor.steady_keyword? _) (.refl fit)).bind ?_
  rintro (_ | word) s₁ reached
  · exact follows_pure reached.forget
  refine (follows_lift barrier (Cursor.steady_expectName _) reached).bind ?_
  intro name s₂ reached
  refine (follows_lift barrier (Cursor.steady_mark? _) reached).bind ?_
  rintro (_ | opening) s₃ reached
  · refine (follows_restore barrier fit reached).bind ?_
    intro _ s₄ back
    exact follows_pure back
  · refine (follows_structBody barrier short name reached.fit).bind ?_
    intro _ s₄ rest
    exact follows_pure (reached.trans rest).forget

/-! ### Functions -/

omit short in
theorem follows_param (index depth : Nat) (fit : s.Fit tape loops) :
    Follows tape loops (Parser.param index depth tape s)
      (Cursor.Parser.param index depth tape s.cursor) fun _ s' => s.Reaches tape loops 0 s' := by
  refine (follows_lift barrier Cursor.steady_typeBase (.refl fit)).bind ?_
  rintro (_ | base) s₁ reached
  · exact follows_unexpected barrier _ reached.fit
  refine (follows_lift barrier (Cursor.steady_expectName _) reached).bind ?_
  intro name s₂ reached
  refine (follows_lift barrier Cursor.steady_extent reached).bind ?_
  intro extent s₃ reached
  refine follows_declare reached.fit ?_
  intro table heads
  have added : ∀ arg, s.Reaches tape loops 0 { s₃ with table := table.addArg index arg } := by
    intro arg
    have same := SymbolTable.heads_addArg table index arg
    exact (reached.trans (reached.fit.declared (same.trans heads))).forget
  exact follows_update rfl (added _).fit.self (added _)

omit short in
theorem follows_params (index depth : Nat) (fit : s.Fit tape loops) :
    Follows tape loops (Parser.params index depth tape s)
      (Cursor.Parser.unlessSeen .rightParen
        (Cursor.Parser.commas (Cursor.Parser.param index depth)) tape s.cursor)
      fun _ s' => s.Reaches tape loops 0 s' := by
  refine (follows_lift barrier (Cursor.steady_sees _) (.refl fit)).bind ?_
  rintro (_ | _) s₁ reached
  case true => exact follows_pure reached
  exact follows_commas barrier (fun s fit => follows_param barrier index depth fit) reached

omit barrier short in
/-- The symbols behind a mark are taken back, of which there are some. -/
theorem follows_release {mark : Nat} {outer : Context} (fit : s.Fit tape loops)
    (enough : mark + 1 ≤ s.table.size) (opened : outer.Open (s.table.truncate (mark + 1))) :
    Follows tape loops
      ((do
        Parser.update fun s => { s with context := outer }
        Parser.release mark : Parser Unit) tape s)
      (update (fun memory => { memory with
        region := outer.region, table := memory.table.truncate (mark + 1) }) tape s.cursor)
      fun _ s' => s'.Fit tape loops ∧ s'.context = outer := by
  have kept : (s.table.truncate (mark + 1)).heads <+: s.table.heads := by
    rw [SymbolTable.heads_truncate]
    exact List.take_prefix _ _
  have closed := fit.within outer (opened.mono kept)
  have released : State.Fit tape loops
      { s with context := outer, table := s.table.truncate (mark + 1) } := { fit with opened }
  have releases : Parser.release mark tape { s with context := outer } =
      Parser.update (fun s => { s with table := s.table.truncate (mark + 1) }) tape
        { s with context := outer } := by
    change (if s.table.size < mark + 1 then Parser.trap _ else Parser.update _) tape _ = _
    rw [if_neg (by omega)]
  intro _
  refine ⟨?_, .inr ⟨(), { s with context := outer, table := s.table.truncate (mark + 1) }, ?_, rfl,
    released, rfl⟩⟩
  · change ∀ s' ∈ [_] ++ (Parser.release mark tape _).visited, _
    rw [releases]
    exact List.forall_mem_cons.mpr ⟨closed.self, List.forall_mem_singleton.mpr released.self⟩
  · change (Parser.release mark tape _).result = _
    rw [releases]
    rfl

theorem follows_functionBody (ty : Ty) (name : Name) (fit : s.Fit tape loops)
    (some : s.lastDepth < s.position) :
    Follows tape loops (Parser.functionBody ty name tape s)
      (Cursor.Parser.functionBody ty name tape s.cursor)
      fun _ s' => s'.Fit tape loops ∧ s'.context = s.context := by
  have below := fit.position_lt barrier short
  refine follows_look ?_
  refine follows_looked ?_
  refine follows_declare fit ?_
  intro table heads
  refine follows_countUp (by omega) ?_
  have declared := fit.declared heads
  have inside : State.Fit tape loops
      { s with
        table, lastDepth := s.lastDepth + 1
        context := .function s.table.size (s.lastDepth + 1) (topLevelSymbol name .function ty) } :=
    { declared.fit with
      opened := ⟨SymbolTable.getElem?_heads_size heads, rfl⟩
      functions := some }
  refine follows_updated rfl inside.self ?_
  refine (follows_params barrier _ _ inside).bind ?_
  intro _ s₁ reached
  refine (follows_lift barrier (Cursor.steady_expect _) reached).bind ?_
  intro _ s₂ reached
  refine (follows_compoundStatement barrier short reached.fit reached.context).bind ?_
  rintro (_ | _) s₃ rest
  case false => exact follows_unexpected barrier _ rest.fit
  -- what the function declares only comes behind it, so its symbol is still at the mark
  have more : table.heads <+: s₃.table.heads := (reached.trans rest).heads
  have size : (s.table.size + 1) ≤ s₃.table.size := by
    have := more.length_le
    rw [heads, List.length_append, SymbolTable.length_heads, SymbolTable.length_heads] at this
    exact this
  refine follows_release rest.fit size ?_
  refine fit.opened.mono ?_
  rw [SymbolTable.heads_truncate]
  refine List.prefix_take_iff.mpr ⟨declared.heads.trans more, ?_⟩
  rw [SymbolTable.length_heads]
  exact Nat.le_succ _

theorem follows_functionDeclaration (fit : s.Fit tape loops) :
    Follows tape loops (Parser.functionDeclaration tape s)
      (Cursor.Parser.functionDeclaration tape s.cursor)
      fun _ s' => s'.Fit tape loops ∧ s'.context = s.context := by
  refine follows_get ?_
  refine (follows_lift barrier Cursor.steady_resultType (.refl fit)).bind ?_
  rintro (_ | ty) s₁ reached
  · exact follows_pure ⟨reached.fit, reached.context⟩
  refine (follows_lift barrier Cursor.steady_name? reached).bind ?_
  rintro (_ | name) s₂ reached
  · refine (follows_restore barrier fit reached).bind ?_
    intro _ s₃ back
    exact follows_pure ⟨back.fit, back.context⟩
  refine (follows_lift barrier (Cursor.steady_mark? _) reached).bind ?_
  rintro (_ | opening) s₃ reached
  · refine (follows_restore barrier fit reached).bind ?_
    intro _ s₄ back
    exact follows_pure ⟨back.fit, back.context⟩
  -- the parenthesis makes up for the function
  have some : s₃.lastDepth < s₃.position := by
    have before := fit.functions
    have far := reached.far
    rw [taken, taken, Option.isSome_some, Option.isSome_some, if_pos rfl] at far
    rw [reached.functions]
    omega
  refine (follows_functionBody barrier short ty name reached.fit some).bind ?_
  rintro _ s₄ ⟨fit', context⟩
  exact follows_pure ⟨fit', context.trans reached.context⟩

/-! ### Declarations -/

theorem follows_functionOrVariables (fit : s.Fit tape loops) :
    Follows tape loops (Parser.functionOrVariables tape s)
      (Cursor.Parser.functionOrVariables tape s.cursor)
      fun _ s' => s'.Fit tape loops ∧ s'.context = s.context := by
  refine (follows_functionDeclaration barrier short fit).bind ?_
  rintro (_ | _) s₁ ⟨fit₁, context⟩
  case true => exact follows_pure ⟨fit₁, context⟩
  refine (follows_varDeclaration barrier short fit₁).bind ?_
  rintro (_ | _) s₂ reached
  case true => exact follows_pure ⟨reached.fit, reached.context.trans context⟩
  exact follows_unexpected barrier _ reached.fit

theorem follows_declaration (fit : s.Fit tape loops) :
    Follows tape loops (Parser.declaration tape s) (Cursor.Parser.declaration tape s.cursor)
      fun _ s' => s'.Fit tape loops ∧ s'.context = s.context := by
  refine (follows_structDeclaration barrier short fit).bind ?_
  rintro (_ | _) s₁ reached
  case true => exact follows_pure ⟨reached.fit, reached.context⟩
  refine (follows_functionOrVariables barrier short reached.fit).mono ?_
  rintro _ s₂ ⟨fit₂, context⟩
  exact ⟨fit₂, context.trans reached.context⟩

theorem follows_declarations (fit : s.Fit tape loops) :
    Follows tape loops (Parser.declarations tape s) (Cursor.Parser.declarations tape s.cursor)
      fun _ s' => s'.Fit tape loops ∧ s'.context = s.context := by
  refine follows_bounded fun fuel => ?_
  refine follows_repeating (fun s' => s'.Fit tape loops ∧ s'.context = s.context) ?_ ?_ fuel () s
    ⟨fit, rfl⟩
  · rintro s₁ ⟨fit₁, context⟩
    have tested := follows_lift barrier (Cursor.steady_unlessEnded Cursor.steady_atEnd)
      (.refl fit₁)
    refine tested.mono ?_
    intro _ s₂ reached
    exact ⟨reached.fit, reached.context.trans context⟩
  · rintro _ _ s₁ ⟨fit₁, context⟩
    refine (follows_declaration barrier short fit₁).mono ?_
    rintro _ s₂ ⟨fit₂, context'⟩
    exact ⟨fit₂, context'.trans context⟩

theorem follows_program (fit : s.Fit tape loops) :
    Follows tape loops (Parser.program tape s) (Cursor.Parser.program tape s.cursor)
      fun _ s' => s'.Fit tape loops ∧ s'.context = s.context := by
  refine (follows_declarations barrier short fit).bind ?_
  intro _ s₁ holds
  exact follows_get (follows_pure holds)

end

/-! ### Tokens -/

/-- The cursor is on the tape, the counters have not got to their bound, and what is open stands in
the table where it was declared. -/
structure State.Sound (tape : List Lexeme) (s : State) : Prop where
  position : s.position < tape.length
  functions : s.lastDepth < counterBound
  loops : s.loopDepth < counterBound
  opened : s.context.Open s.table

theorem State.Fit.sound (fit : s.Fit tape loops) (barrier : Barrier tape k last)
    (short : tape.length < counterBound) : s.Sound tape := by
  have below := fit.position_lt barrier short
  have functions := fit.functions
  have same := fit.loopDepth
  have enough := fit.enough
  exact ⟨Nat.lt_of_le_of_lt (Clear.le barrier fit.clear) barrier.length, by omega, by omega,
    fit.opened⟩

/-- The analysis of the tokens is not trapped, and comes to what the one without guards does. -/
structure Unharmed (tokens : List Token) : Prop where
  result : ∃ s, (ofTokens tokens).result = .ok ((Program.ofTokens tokens).result, s)
  visited : ∀ s ∈ (ofTokens tokens).visited, s.Sound (Lexeme.number 0 tokens)
  /-- Where the evaluator of sizes gets what is left of the tape, the token there is asked for,
  which is guarded. -/
  slices : ∀ s : Cursor.State,
    .asked s.position ∈ (Cursor.Parser.evaluate (Lexeme.number 0 tokens) s).events

/-- No external function has the name of another one. -/
theorem addExternals_empty : SymbolTable.empty.addExternals = (none, .initial) := rfl

theorem State.fit_outset (tape : List Lexeme) (table : SymbolTable) :
    (State.outset table).Fit tape 0 :=
  ⟨Cursor.clear_zero tape, trivial, Nat.le_refl _, rfl, Nat.le_refl _⟩

/-- Tokens behind which there is an end of input. -/
theorem unharmed_of_ends {tokens : List Token} (short : tokens.length < counterBound)
    (ends : Program.Ends tokens) : Unharmed tokens := by
  obtain ⟨last, barrier, -⟩ := Cursor.exists_barrier ends
  obtain ⟨final, found, isEnd⟩ := Program.ends_iff.mp ends
  have short : (Lexeme.number 0 tokens).length < counterBound := by
    rwa [Lexeme.length_number]
  have guarded : ofTokens tokens =
      Parser.program (Lexeme.number 0 tokens) (.outset .initial) := by
    simp only [ofTokens, found, isEnd, ne_eq, not_true_eq_false, if_false, addExternals_empty]
  have cursor : Cursor.ofTokens tokens =
      Cursor.Parser.program (Lexeme.number 0 tokens) (State.outset .initial).cursor := by
    simp only [Cursor.ofTokens, found, isEnd, ne_eq, not_true_eq_false, if_false]
    rfl
  have meets := Cursor.meets_ofTokens ends
  have settles : Settles (Cursor.ofTokens tokens) := by
    intro stop stopped
    obtain ⟨fault, -, rfl⟩ := meets.stops stop stopped
    exact ⟨fault, rfl⟩
  have follows := follows_program barrier short (State.fit_outset _ .initial)
  rw [← guarded, ← cursor] at follows
  obtain ⟨visited, result⟩ := follows settles
  refine ⟨?_, fun s among => (visited s among).sound barrier short, Cursor.Parser.asks_evaluate _⟩
  obtain ⟨fault, s, fails, fails', -⟩ | ⟨program, s, passes, passes', -⟩ := result
  · obtain ⟨_, refused, ⟨⟩⟩ := meets.stops _ fails'
    exact ⟨s, by rw [fails, refused]⟩
  · obtain ⟨-, -, accepted⟩ := meets.result _ _ passes'
    exact ⟨s, by rw [passes, accepted]⟩

/-- Other tokens are refused in front of everything else. -/
theorem unharmed_of_not_ends {tokens : List Token} (others : ¬Program.Ends tokens) :
    Unharmed tokens := by
  have guarded : ofTokens tokens =
      ⟨[], .ok ((Program.ofTokens tokens).result, .outset .empty)⟩ := by
    cases found : (Lexeme.number 0 tokens).getLast? with
    | none =>
      simp only [ofTokens, Program.ofTokens, found]
      rfl
    | some final =>
      have other : final.value ≠ .endOfInput :=
        fun isEnd => others (Program.ends_iff.mpr ⟨final, found, isEnd⟩)
      simp only [ofTokens, Program.ofTokens, found, ne_eq, other, not_false_eq_true, if_true]
      rfl
  refine ⟨⟨_, congrArg Run.result guarded⟩, ?_, Cursor.Parser.asks_evaluate _⟩
  rw [guarded]
  exact List.forall_mem_nil _

/-- Nothing that must never happen does, neither in a scan nor in an analysis: the counter of line
feeds does not get to its bound, a line is told wherever one is asked for, and the parser is not
trapped. The only short source left out is that with nothing but as many line feeds as can be
counted. -/
theorem never_trapped (source : String) (tokens : List Token)
    (shortSource : source.utf8ByteSize < counterBound) (few : tokens.length < counterBound)
    (other : source.toList ≠ List.replicate (counterBound - 1) '\n') :
    tokenize source = .ok (PlainC.tokenize source) ∧ Unharmed tokens := by
  refine ⟨tokenize_of_count (count_add_one_lt shortSource other), ?_⟩
  by_cases ends : Program.Ends tokens
  · exact unharmed_of_ends few ends
  · exact unharmed_of_not_ends ends

/-- `int v[2];` behind a comment of two lines, and a loop in a function that the tokens break off in
the size of an array, with tokens behind the first end of input. -/
theorem never_trapped_loop :
    let source := "/*\n*/ int v[2]; //\n"
    let kinds : List Kind :=
      [.keyword .intKw, .identifier "f", .delimiter .leftParen, .delimiter .rightParen,
        .delimiter .leftBrace, .keyword .whileKw, .delimiter .leftParen, .literal .integer "1",
        .delimiter .rightParen, .delimiter .leftBrace, .keyword .intKw, .identifier "v",
        .delimiter .leftBracket, .literal .integer "2", .endOfInput, .trivia, .endOfInput]
    let tokens : List Token := kinds.map fun kind => ⟨kind, ⟨0, 1⟩, 1⟩
    source.utf8ByteSize < counterBound ∧ tokens.length < counterBound ∧
      source.toList ≠ List.replicate (counterBound - 1) '\n' ∧
      tokenize source = .ok (PlainC.tokenize source) ∧ Unharmed tokens ∧
        (Program.ofTokens tokens).result =
          .error ⟨.unexpected (.mark .rightBracket) .endOfInput, ⟨14, ⟨0, 1⟩, 1⟩⟩ := by
  intro source kinds tokens
  have shortSource : source.utf8ByteSize < counterBound := by decide
  have few : tokens.length < counterBound := by decide
  have other : source.toList ≠ List.replicate (counterBound - 1) '\n' := by
    intro same
    have first : '/' ∈ source.toList := by decide
    rw [same] at first
    exact absurd (List.eq_of_mem_replicate first) (by decide)
  obtain ⟨scans, unharmed⟩ := never_trapped source tokens shortSource few other
  exact ⟨shortSource, few, other, scans, unharmed, rfl⟩

/-- The source with nothing but as many line feeds as can be counted is short enough for the
counter, but the line of its end is trapped. -/
theorem tokenize_lineFeeds_trapped :
    let source := String.ofList (List.replicate (counterBound - 1) '\n')
    source.utf8ByteSize < counterBound ∧ tokenize source = .error .wrapped := by
  intro source
  have bytes : source.utf8ByteSize = counterBound - 1 := by
    rw [← byteLength_toList, String.toList_ofList, byteLength_replicate,
      show '\n'.utf8Size = 1 by decide, Nat.mul_one]
  exact ⟨by rw [bytes]; decide, tokenize_lineFeeds rfl⟩

end Guarded

end PlainC
