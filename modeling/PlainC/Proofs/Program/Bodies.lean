import PlainC.Proofs.Declaring.Decl
import PlainC.Proofs.Program.Front
import PlainC.Proofs.Relabeling.Declarations

set_option autoImplicit false

/-!
Bodies of functions leave no trace: without what stands in it, a function still declares the same,
and so does all that stands behind it, although each token there comes nearer.
-/

namespace PlainC

open Checked

/-! ### Emptying -/

/-- The declaration, with nothing in the body if it is that of a function. -/
def Decl.emptied : Decl → Decl
  | function result name opening params closing (.found body) =>
    function result name opening params closing (.found { body with items := .nil })
  | decl => decl

theorem Decl.formed_emptied {decl : Decl} (formed : decl.Formed) : decl.emptied.Formed := by
  cases decl with
  | struct | vars | missing => exact formed
  | function result name opening params closing body =>
    cases body with
    | missing => exact formed
    | found body =>
      refine ⟨formed.1, ?_⟩
      rintro _ ⟨⟩
      trivial

theorem Decl.gapless_emptied {decl : Decl} (gapless : Gapless decl.parts) :
    Gapless decl.emptied.parts := by
  cases decl with
  | struct | vars | missing => exact gapless
  | function result name opening params closing body =>
    cases body with
    | missing => exact gapless
    | found body =>
      simp only [emptied, parts, Slot.parts, Block.parts, gapless_append] at gapless ⊢
      exact ⟨gapless.1, ⟨gapless.2.1.1, gapless_nil⟩, gapless.2.2⟩

theorem Block.gives_emptied {scope : FunctionScope} {table table' : SymbolTable} {block : Block}
    (h : (block.check scope table).Gives table') :
    (Block.check scope table { block with items := .nil }).Gives table := by
  simp only [Block.check, gives_bind, gives_requireMark] at h
  obtain ⟨_, -, _, ⟨place, closed⟩, -⟩ := h
  simp [Block.check, Items.check, closed]

/-- The check of a body puts symbols only where they are taken back. -/
theorem Declared.gives_emptied {declared declared' : Declared} {result : ResultType} {name : Name}
    {params : List (Slot Param)} {closing : Slot Place} {body : Block}
    (formed : ∀ param, Slot.found param ∈ params → param.Formed)
    (h : (declared.declareFunction result name params closing (.found body)).Gives declared') :
    ∃ declared'', (declared.declareFunction result name params closing
        (.found { body with items := .nil })).Gives declared'' ∧
      declared''.table.symbols = declared'.table.symbols ∧ declared''.depth = declared'.depth := by
  simp only [Declared.declareFunction, gives_bind, gives_pure, SymbolTable.gives_declare,
    gives_requireMark, gives_require, gives_write] at h ⊢
  obtain ⟨ty, resolved, _, ⟨fresh, rfl⟩, table, added, u, closed, block, same, table', checked, v,
    -, rfl⟩ := h
  obtain rfl := Slot.found.inj same
  refine ⟨_, ⟨ty, resolved, _, ⟨fresh, rfl⟩, table, added, u, closed, _, rfl, table,
    Block.gives_emptied checked, v, trivial, rfl⟩, ?_, rfl⟩
  obtain ⟨args, -, parameters⟩ := params_of_gives formed rfl rfl (by simp) added
  obtain ⟨locals, behind⟩ := Block.appends checked
  have enough : declared.table.size + 1 ≤ table.symbols.length := by
    rw [parameters, List.length_append, SymbolTable.size, List.length_cons]
    omega
  rw [SymbolTable.symbols_truncate, SymbolTable.symbols_truncate, behind,
    List.take_append_of_le_length enough]

theorem Decl.gives_emptied {declared declared' : Declared} {decl : Decl} (formed : decl.Formed)
    (h : (decl.check declared).Gives declared') :
    ∃ declared'', (decl.emptied.check declared).Gives declared'' ∧
      declared''.table.symbols = declared'.table.symbols ∧ declared''.depth = declared'.depth := by
  cases decl with
  | struct | vars | missing => exact ⟨declared', h, rfl, rfl⟩
  | function result name opening params closing body =>
    cases body with
    | missing => exact ⟨declared', h, rfl, rfl⟩
    | found body =>
      obtain ⟨_, noted, h⟩ := gives_bind.mp h
      obtain ⟨declared'', h', same⟩ := Declared.gives_emptied (formed_params formed.1) h
      exact ⟨declared'', gives_bind.mpr ⟨_, noted, h'⟩, same⟩

/-- Declarations make tables that are alike, where one of them is emptied and all are relabeled. -/
theorem Program.gives_emptied (r : Relabeling) {before after : List Decl} {decl : Decl}
    {table : SymbolTable} (formed : decl.Formed)
    (h : (tableOfDecls (before ++ decl :: after)).Gives table) :
    ∃ table', (tableOfDecls ((before ++ decl.emptied :: after).map (Decl.relabel r))).Gives table' ∧
      table.Alike r table' := by
  simp only [tableOfDecls, List.map_append, List.map_cons, List.foldlM_append, List.foldlM_cons,
    gives_bind, gives_pure] at h ⊢
  obtain ⟨last, ⟨first, start, middle, checked, rest⟩, rfl⟩ := h
  have initial : Declared.Alike r ⟨.initial, 0⟩ ⟨.initial, 0⟩ := ⟨SymbolTable.alike_initial r, rfl⟩
  obtain ⟨first', start', alike⟩ := (alike_foldlM (fun decl _ _ _ => decl.alike_check)
    initial).gives start
  obtain ⟨emptied, checked', symbols, depth⟩ := Decl.gives_emptied formed checked
  obtain ⟨middle', checked'', alike⟩ := (decl.emptied.alike_check alike).gives checked'
  have alike : Declared.Alike r middle middle' :=
    ⟨alike.table.of_symbols_eq symbols, alike.depth.trans depth⟩
  obtain ⟨last', rest', alike⟩ := (alike_foldlM (fun decl _ _ _ => decl.alike_check)
    alike).gives rest
  exact ⟨_, ⟨last', ⟨first', start', middle', checked'', rest'⟩, rfl⟩, alike.table⟩

/-! ### Tokens -/

/-- What stands behind an index comes nearer by a number of tokens. -/
def Relabeling.shift (index count : Nat) : Relabeling :=
  ofPlaces
    (fun place' =>
      if place'.index ≤ index then place' else { place' with index := place'.index - count })
    fun place' => by split <;> rfl

theorem Lexeme.relabel_shift (index count : Nat) (kind : Kind) (place : Place) :
    relabel (.shift index count) ⟨kind, place⟩ =
      ⟨kind, (Relabeling.shift index count).place place⟩ := by
  cases kind <;> rfl

/-- Up to the index nothing moves. -/
theorem Lexeme.map_shift_before {index count start : Nat} {tokens : List Token}
    (before : start + tokens.length ≤ index + 1) :
    (number start tokens).map (relabel (.shift index count)) = number start tokens := by
  induction tokens generalizing start with
  | nil => rfl
  | cons token tokens ih =>
    rw [List.length_cons] at before
    have within : start ≤ index := by omega
    rw [number, List.map_cons, ih (by omega), relabel_shift]
    simp [Relabeling.shift, Relabeling.ofPlaces, Relabeling.onLines, within]

theorem Lexeme.map_shift_behind {index count start : Nat} (behind : index < start)
    (tokens : List Token) :
    (number (start + count) tokens).map (relabel (.shift index count)) = number start tokens := by
  induction tokens generalizing start with
  | nil => rfl
  | cons token tokens ih =>
    have beyond : ¬start + count ≤ index := by omega
    rw [number, List.map_cons, Nat.add_right_comm, ih (Nat.lt_succ_of_lt behind), relabel_shift]
    simp [Relabeling.shift, Relabeling.ofPlaces, Relabeling.onLines, beyond, number]

namespace Program

/-- The tokens without those strictly between two indices. -/
def withoutBetween (left right : Nat) (tokens : List Token) : List Token :=
  tokens.take (left + 1) ++ tokens.drop right

section

variable (first inner last : List Token) (brace : Token)

theorem drop_behind : (first ++ brace :: (inner ++ last)).drop (first.length + 1 + inner.length) =
    last := by
  have split : first ++ brace :: (inner ++ last) = (first ++ brace :: inner) ++ last := by simp
  have lengths : first.length + 1 + inner.length = (first ++ brace :: inner).length := by
    simp [Nat.add_assoc, Nat.add_comm 1]
  rw [split, lengths, List.drop_left]

theorem withoutBetween_append :
    withoutBetween first.length (first.length + 1 + inner.length)
      (first ++ brace :: (inner ++ last)) = first ++ brace :: last := by
  rw [withoutBetween, drop_behind, List.take_length_add_append]
  simp

/-- The lexemes of what is left, which come nearer where they stood behind. -/
theorem map_shift_between :
    (Lexeme.number 0 (first ++ [brace]) ++
        Lexeme.number (first.length + 1 + inner.length) last).map
      (Lexeme.relabel (.shift first.length inner.length)) =
        Lexeme.number 0 (first ++ brace :: last) := by
  have whole : first ++ brace :: last = (first ++ [brace]) ++ last := by simp
  have lengths : 0 + (first ++ [brace]).length = first.length + 1 := by simp
  rw [List.map_append, Lexeme.map_shift_before (by simp),
    Lexeme.map_shift_behind (Nat.lt_add_one _), whole, Lexeme.number_append 0 (first ++ [brace]),
    lengths]

end

/-- The lexemes of a program with a function, in front of its body and behind it. -/
theorem exists_around_body (before after : List Decl) (result : ResultType) (name : Name)
    (opening : Place) (params : Option (Separated (Slot Param))) (closing : Slot Place)
    (left right : Place) : ∃ front behind, ∀ items,
      lexemesOf ((before ++ .function result name opening params closing
        (.found ⟨left, items, .found right⟩) :: after).flatMap Decl.parts) =
      front ++ ⟨.delimiter .leftBrace, left⟩ ::
        (lexemesOf items.parts ++ ⟨.delimiter .rightBrace, right⟩ :: behind) := by
  refine ⟨lexemesOf (before.flatMap Decl.parts ++ (result.parts ++ namePart name ++
    Delimiter.leftParen.part opening ++
    optionalParts (Separated.parts (Slot.parts Param.parts)) params ++
    closing.parts Delimiter.rightParen.part)), lexemesOf (after.flatMap Decl.parts), ?_⟩
  intro items
  simp [Decl.parts, Block.parts, Slot.parts, Delimiter.part]

/-- A function among the declarations has a body, which is closed. -/
theorem exists_block {tokens : List Token} {decls : List Decl} {result : ResultType} {name : Name}
    {opening : Place} {params : Option (Separated (Slot Param))} {closing : Slot Place}
    {body : Slot Block} (written : Written tokens decls)
    (mem : .function result name opening params closing body ∈ decls) :
    ∃ left items right, body = .found ⟨left, items, .found right⟩ := by
  have gapless := gapless_of_mem written.gapless mem
  simp only [Decl.parts, gapless_append] at gapless
  cases body with
  | missing => simp [Slot.parts] at gapless
  | found block =>
    obtain ⟨left, items, closed⟩ := block
    cases closed with
    | missing => simp [Slot.parts, Block.parts] at gapless
    | found right => exact ⟨left, items, right, rfl⟩

variable {tokens : List Token} {before after : List Decl} {result : ResultType} {name : Name}
  {opening : Place} {params : Option (Separated (Slot Param))} {closing : Slot Place}
  {left right : Place} {items : Items}

/-- The tokens of a program with a function: those up to its opening brace, those of its body, and
those from its closing brace on. -/
theorem Written.exists_split (ends : Ends tokens)
    (written : Written tokens (before ++ .function result name opening params closing
      (.found ⟨left, items, .found right⟩) :: after)) :
    ∃ (first inner last behind : List Token) (brace brace' final : Token),
      tokens = first ++ brace :: (inner ++ brace' :: last) ++ final :: behind ∧
      brace.kind = .delimiter .leftBrace ∧ brace'.kind = .delimiter .rightBrace ∧
      final.kind = .endOfInput ∧
      (∀ token ∈ first ++ brace :: (inner ++ brace' :: last), token.kind ≠ .endOfInput) ∧
      left.index = first.length ∧ right.index = first.length + 1 + inner.length ∧
      lexemesOf ((before ++ .function result name opening params closing
        (.found ⟨left, .nil, .found right⟩) :: after).flatMap Decl.parts) =
          Lexeme.number 0 (first ++ [brace]) ++
            Lexeme.number (first.length + 1 + inner.length) (brace' :: last) := by
  obtain ⟨lead, trail, around⟩ := exists_around_body before after result name opening params closing
    left right
  obtain ⟨all, final, behind, rfl, isEnd, others⟩ := exists_end ends
  have lexemes := written.lexemes
  rw [front_eq isEnd others, around] at lexemes
  obtain ⟨first, _, rfl, rfl, split⟩ := Lexeme.exists_of_number_eq_append lexemes.symm
  obtain ⟨brace, _, rfl, isBrace, split⟩ := Lexeme.exists_of_number_eq_cons split
  obtain ⟨inner, _, rfl, -, split⟩ := Lexeme.exists_of_number_eq_append split
  obtain ⟨brace', last, rfl, isBrace', -⟩ := Lexeme.exists_of_number_eq_cons split
  rw [Nat.zero_add] at isBrace isBrace' split
  refine ⟨first, inner, last, behind, brace, brace', final, rfl, ?_, ?_, isEnd, others, ?_, ?_, ?_⟩
  · exact (congrArg At.value isBrace).symm
  · exact (congrArg At.value isBrace').symm
  · exact congrArg (fun lexeme => lexeme.place.index) isBrace
  · exact congrArg (fun lexeme => lexeme.place.index) isBrace'
  · rw [around, split, isBrace, Lexeme.number_append]
    simp [Items.parts, Lexeme.number]

/-- Without what stands between the braces of a body, tokens are written from the same declarations,
of which that function is emptied. -/
theorem Written.emptied (ends : Ends tokens)
    (written : Written tokens (before ++ .function result name opening params closing
      (.found ⟨left, items, .found right⟩) :: after)) :
    let rest := withoutBetween left.index right.index tokens
    let count := right.index - (left.index + 1)
    tokens[left.index]?.map Token.kind = some (.delimiter .leftBrace) ∧
      tokens[right.index]?.map Token.kind = some (.delimiter .rightBrace) ∧
      left.index < right.index ∧ Ends rest ∧ (front rest).length + count = (front tokens).length ∧
      Written rest ((before ++ .function result name opening params closing
        (.found ⟨left, .nil, .found right⟩) :: after).map
          (Decl.relabel (.shift left.index count))) := by
  obtain ⟨first, inner, last, behind, brace, brace', final, rfl, isLeft, isRight, isEnd, others,
    leftIndex, rightIndex, lexemes⟩ := written.exists_split ends
  have others' : ∀ token ∈ first ++ brace :: brace' :: last, token.kind ≠ .endOfInput := by
    intro token among
    apply others
    simp only [List.mem_append, List.mem_cons] at among ⊢
    tauto
  have shorter : withoutBetween first.length (first.length + 1 + inner.length)
      (first ++ brace :: (inner ++ brace' :: last) ++ final :: behind) =
        first ++ brace :: brace' :: last ++ final :: behind := by
    simpa using withoutBetween_append first inner (brace' :: last ++ final :: behind) brace
  intro rest count
  have counted : count = inner.length := by omega
  simp only [rest, counted, leftIndex, rightIndex, shorter]
  refine ⟨by simp [isLeft], ?_, by omega, ?_, ?_, ?_⟩
  · have closes := drop_behind first inner (brace' :: last ++ final :: behind) brace
    simpa [isRight] using congrArg (fun tokens => tokens.head?.map Token.kind) closes
  · exact (ends_append_cons _ _ _).mpr ((ends_append_cons _ _ _).mp ends)
  · rw [front_eq isEnd others, front_eq isEnd others', Lexeme.length_number, Lexeme.length_number]
    simp only [List.length_append, List.length_cons]
    omega
  · have formed := written.formed
    have gapless := written.gapless
    simp only [List.forall_mem_append, List.forall_mem_cons] at formed
    simp only [List.flatMap_append, List.flatMap_cons, gapless_append] at gapless
    apply written_relabel
    · simp only [List.forall_mem_append, List.forall_mem_cons]
      exact ⟨formed.1, Decl.formed_emptied formed.2.1, formed.2.2⟩
    · simp only [List.flatMap_append, List.flatMap_cons, gapless_append]
      exact ⟨gapless.1, Decl.gapless_emptied gapless.2.1, gapless.2.2⟩
    · rw [lexemes, map_shift_between, front_eq isEnd others']

/-- What stands in the body of a function makes no difference to the table: without the tokens
between its braces, the same symbols are declared, and the analysis ends as many tokens earlier. -/
theorem ofTokens_withoutBody (tokens : List Token) (program : Program)
    (accepted : (ofTokens tokens).result = .ok program) :
    (∃ decls, Written tokens decls) ∧
    ∀ decls, Written tokens decls → ∀ result name opening params closing body,
      .function result name opening params closing body ∈ decls →
      ∃ left items right, body = .found ⟨left, items, .found right⟩ ∧
        tokens[left.index]?.map Token.kind = some (.delimiter .leftBrace) ∧
        tokens[right.index]?.map Token.kind = some (.delimiter .rightBrace) ∧
        left.index < right.index ∧
        ∃ program', (ofTokens (withoutBetween left.index right.index tokens)).result = .ok program' ∧
          program'.table.symbols = program.table.symbols ∧
          program'.position + (right.index - (left.index + 1)) = program.position := by
  refine ⟨exists_written accepted, ?_⟩
  intro decls written result name opening params closing body mem
  have ends := ends_of_accepted accepted
  obtain ⟨left, items, right, rfl⟩ := exists_block written mem
  obtain ⟨before, after, rfl⟩ := List.append_of_mem mem
  obtain ⟨given, position⟩ := (written.accepted_iff ends).mp accepted
  obtain ⟨isLeft, isRight, apart, ends', shorter, written'⟩ := written.emptied ends
  have formed := written.formed _ mem
  obtain ⟨table, given', alike⟩ := gives_emptied (.shift left.index _) formed given
  refine ⟨left, items, right, rfl, isLeft, isRight, apart, ⟨table, _⟩,
    (written'.accepted_iff ends').mpr ⟨given', rfl⟩, ?_, position ▸ shorter⟩
  exact alike.symbols_eq (fun _ => rfl) fun same => same.symm

/-- `void f() { int x[2]; while (x[0]) break; } int x;` without the fifteen tokens of the body. -/
theorem ofTokens_withoutBody_locals :
    let tokens : List Token :=
      [⟨.keyword .voidKw, ⟨0, 4⟩, 1⟩, ⟨.identifier "f", ⟨5, 6⟩, 1⟩,
        ⟨.delimiter .leftParen, ⟨6, 7⟩, 1⟩, ⟨.delimiter .rightParen, ⟨7, 8⟩, 1⟩,
        ⟨.delimiter .leftBrace, ⟨9, 10⟩, 1⟩, ⟨.keyword .intKw, ⟨11, 14⟩, 1⟩,
        ⟨.identifier "x", ⟨15, 16⟩, 1⟩, ⟨.delimiter .leftBracket, ⟨16, 17⟩, 1⟩,
        ⟨.literal .integer "2", ⟨17, 18⟩, 1⟩, ⟨.delimiter .rightBracket, ⟨18, 19⟩, 1⟩,
        ⟨.delimiter .semicolon, ⟨19, 20⟩, 1⟩, ⟨.keyword .whileKw, ⟨21, 26⟩, 1⟩,
        ⟨.delimiter .leftParen, ⟨27, 28⟩, 1⟩, ⟨.identifier "x", ⟨28, 29⟩, 1⟩,
        ⟨.delimiter .leftBracket, ⟨29, 30⟩, 1⟩, ⟨.literal .integer "0", ⟨30, 31⟩, 1⟩,
        ⟨.delimiter .rightBracket, ⟨31, 32⟩, 1⟩, ⟨.delimiter .rightParen, ⟨32, 33⟩, 1⟩,
        ⟨.keyword .breakKw, ⟨34, 39⟩, 1⟩, ⟨.delimiter .semicolon, ⟨39, 40⟩, 1⟩,
        ⟨.delimiter .rightBrace, ⟨41, 42⟩, 1⟩, ⟨.keyword .intKw, ⟨43, 46⟩, 2⟩,
        ⟨.identifier "x", ⟨47, 48⟩, 2⟩, ⟨.delimiter .semicolon, ⟨48, 49⟩, 2⟩,
        ⟨.endOfInput, ⟨49, 49⟩, 2⟩]
    ∃ program program', (ofTokens tokens).result = .ok program ∧
      (ofTokens (withoutBetween 4 20 tokens)).result = .ok program' ∧
      program'.table.symbols = program.table.symbols ∧
      program'.position + 15 = program.position := by
  intro tokens
  obtain ⟨program, accepted⟩ : ∃ program, (ofTokens tokens).result = .ok program := ⟨_, rfl⟩
  obtain ⟨⟨decls, written⟩, bodies⟩ := ofTokens_withoutBody tokens program accepted
  obtain ⟨items, rest, rfl⟩ : ∃ items rest, decls =
      .function (.void ⟨0, ⟨0, 4⟩, 1⟩) ⟨"f", ⟨1, ⟨5, 6⟩, 1⟩⟩ ⟨2, ⟨6, 7⟩, 1⟩ none
        (.found ⟨3, ⟨7, 8⟩, 1⟩)
        (.found ⟨⟨4, ⟨9, 10⟩, 1⟩, items, .found ⟨20, ⟨41, 42⟩, 1⟩⟩) :: rest :=
    ⟨_, _, (written.parseAll ⟨.endOfInput, ⟨24, ⟨49, 49⟩, 2⟩⟩).symm⟩
  obtain ⟨left, items', right, same, -, -, -, program', accepted', symbols, shorter⟩ :=
    bodies _ written _ _ _ _ _ _ List.mem_cons_self
  cases same
  exact ⟨program, program', accepted, accepted', symbols, shorter⟩

end Program

end PlainC
