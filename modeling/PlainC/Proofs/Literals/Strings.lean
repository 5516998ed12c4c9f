import PlainC.Proofs.Anchoring.Source
import PlainC.Proofs.Declaring.Redefinition
import PlainC.Proofs.Initializing.Extents
import PlainC.Proofs.Literals.RoundTrip
import PlainC.Proofs.Program.Front

set_option autoImplicit false

/-!
Strings in programs. Whichever way a text is written as a literal, the literal is one token with the
text as its value, and an array of characters that it initializes has as many elements as the text
has bytes.
-/

namespace PlainC

open Checked

theorem SymbolTable.find?_of_append {table : SymbolTable} {symbols : List Symbol} {symbol : Symbol}
    (same : table.symbols = symbols ++ [symbol]) : table.find? symbol.name = some symbol :=
  find?_iff.mpr ⟨symbols.length, symbols, [], same, rfl, rfl, List.forall_mem_nil _⟩

/-- A declaration of one variable adds what its declarator does. -/
theorem Decl.gives_check_vars (tried : Nat) {name : BaseName} {base : Base}
    {declarator : Declarator} (semicolon : Place) (declared : Declared) {table : SymbolTable}
    (resolved : (name.resolve declared.table).Gives base)
    (added : (declarator.declare .topLevel base declared.table).Gives table) :
    (check declared (.vars tried ⟨name, ⟨declarator, []⟩, .found semicolon⟩)).Gives
      { declared with table } := by
  simp only [check, VarDecl.declare, Separated.toList, List.map_nil, List.foldlM_cons,
    List.foldlM_nil, gives_bind, gives_pure, gives_requireMark]
  exact ⟨(), name.gives_noteStruct, base, resolved, (), gives_noteFunction _ _, table,
    ⟨base, resolved, table, ⟨table, added, rfl⟩, (), ⟨semicolon, rfl⟩, rfl⟩, rfl⟩

namespace Quoted

variable {value text : List Char}

/-- The type of a text. -/
def tyOf (value : List Char) : Ty :=
  ⟨.char, if value = [] then .unsized else .sized (String.ofList value).utf8ByteSize⟩

theorem Writes.hasType (writes : Writes '"' value text)
    (short : (String.ofList value).utf8ByteSize ≤ maxExtent) (table : SymbolTable) (place : Place) :
    Expr.HasType table (.literal .string ⟨literal text, place⟩) (tyOf value) false := by
  have decoded := writes.decodeString_eq
  by_cases empty : value = []
  · subst empty
    exact .emptyText decoded
  · have some : 0 < (String.ofList value).utf8ByteSize := by
      refine Nat.pos_of_ne_zero fun none => empty ?_
      simpa using String.utf8ByteSize_eq_zero_iff.mp none
    rw [tyOf, if_neg empty]
    exact .text decoded some short

/-- An array without a size gets that of a text. -/
theorem sizes_of_hasType {table : SymbolTable} {expr : Expr} {assignable : Bool}
    (typed : expr.HasType table (tyOf value) assignable) :
    Initializer.Sizes table ⟨.char, .unsized⟩ (.value expr) (tyOf value) := by
  by_cases empty : value = []
  · subst empty
    exact .value typed rfl nofun
  · rw [tyOf, if_neg empty] at typed ⊢
    refine .array typed rfl rfl (.unsized (Nat.pos_of_ne_zero fun none => empty ?_))
    simpa using String.utf8ByteSize_eq_zero_iff.mp none

/-- The array that the literal initializes. -/
def stringDeclarator (text : List Char) (size : Nat) : Declarator where
  name := .found ⟨"s", ⟨1, ⟨5, 6⟩, 1⟩⟩
  array := .unsized ⟨2, ⟨6, 7⟩, 1⟩ ⟨3, ⟨7, 8⟩, 1⟩
  initializer := some (⟨4, ⟨9, 10⟩, 1⟩,
    .value (.literal .string ⟨literal text, ⟨5, ⟨11, size⟩, 1⟩⟩))

theorem formed_stringDeclarator (text : List Char) (size : Nat) :
    (stringDeclarator text size).Formed := by
  refine ⟨trivial, ?_⟩
  rintro _ ⟨⟩
  trivial

theorem written_declaration (text : List Char) (size : Nat) :
    Program.Written (declarationTokens text size)
      [.vars 2 ⟨.char ⟨0, ⟨0, 4⟩, 1⟩, ⟨stringDeclarator text size, []⟩,
        .found ⟨6, ⟨size, size + 1⟩, 1⟩⟩] := by
  refine ⟨List.forall_mem_singleton.mpr ⟨?_, fun _ => rfl⟩, rfl, rfl⟩
  exact List.forall_mem_singleton.mpr (formed_stringDeclarator text size)

/-- The array has the type of the text. -/
theorem Writes.accepted_declaration (writes : Writes '"' value text)
    (short : (String.ofList value).utf8ByteSize ≤ maxExtent) :
    ∃ program, (Program.ofSource (declaration text)).result = .ok program ∧
      program.find? "s" = some (topLevelSymbol ⟨"s", ⟨1, ⟨5, 6⟩, 1⟩⟩ .var (tyOf value)) := by
  obtain ⟨size, tokenized⟩ := writes.tokenize_declaration
  have typed : (stringDeclarator text size).HasType .initial .char (tyOf value) :=
    .initialized .unsized (sizes_of_hasType (writes.hasType short _ _))
  have fresh : SymbolTable.Fresh SymbolTable.initial.symbols
      (Region.topLevel.variableSymbol ⟨"s", ⟨1, ⟨5, 6⟩, 1⟩⟩ (tyOf value)) := by
    rw [SymbolTable.symbols_initial]
    have free : ∀ other ∈ SymbolTable.externals, ¬(other.name = "s" ∧ other.depth = 0) := by decide
    exact free
  obtain ⟨table, added, same⟩ := Declarator.exists_declare .topLevel nofun
    (formed_stringDeclarator text size) rfl typed fresh
  have resolved : (BaseName.resolve .initial (.char ⟨0, ⟨0, 4⟩, 1⟩)).Gives .char := rfl
  have checked := Decl.gives_check_vars 2 ⟨6, ⟨size, size + 1⟩, 1⟩ ⟨.initial, 0⟩ resolved added
  let program : Program := ⟨table, (Program.front (declarationTokens text size)).length⟩
  have accepted : (Program.ofTokens (declarationTokens text size)).result = .ok program := by
    refine ((written_declaration text size).accepted_iff rfl).mpr ⟨?_, rfl⟩
    exact gives_bind.mpr ⟨_, gives_bind.mpr ⟨_, checked, rfl⟩, rfl⟩
  refine ⟨program, ?_, SymbolTable.find?_of_append same⟩
  rw [Program.ofSource_result, tokenized]
  simp only [accepted]
  rfl

/-! ### Round trip -/

/-- Every text can be written between quotation marks. Whichever way it is, what is written is one
token with the text as its value, and an array of characters that is initialized with it gets as many
elements as the text has bytes, or no size if it has none. And in general the bytes of the value of a
literal are those that its own bytes stand for. -/
theorem strings_readBack :
    (∀ value, ∃ text, Writes '"' value text) ∧
    (∀ value text, Writes '"' value text →
      (∃ size, tokenize (literal text) =
        .ok [⟨.literal .string (literal text), ⟨0, size⟩, 1⟩, ⟨.endOfInput, ⟨size, size⟩, 1⟩]) ∧
      decodeString (literal text) = .ok (String.ofList value) ∧
      ((String.ofList value).utf8ByteSize ≤ maxExtent → ∃ program symbol,
        (Program.ofSource (declaration text)).result = .ok program ∧
        program.find? "s" = some symbol ∧ symbol.cls = .var ∧ symbol.ty.base = .char ∧
        symbol.ty.extent =
          if value = [] then .unsized else .sized (String.ofList value).utf8ByteSize)) ∧
    ∀ text : String, decodeBytes? text.toUTF8.data.toList =
      (decodeString text).toOption.map fun value => value.toUTF8.data.toList := by
  refine ⟨exists_text, fun value text writes => ?_, decodeBytes?_eq⟩
  refine ⟨⟨_, writes.tokenize_literal⟩, writes.decodeString_eq, fun short => ?_⟩
  obtain ⟨program, accepted, found⟩ := writes.accepted_declaration short
  exact ⟨program, _, accepted, found, rfl, rfl, rfl⟩

/-- The text of an accent and a quotation mark has three bytes. -/
theorem strings_readBack_accent :
    Writes '"' ['\u00e9', '"'] ['\u00e9', '\\', '"'] ∧
    (String.ofList ['\u00e9', '"']).utf8ByteSize ≤ maxExtent ∧
    decodeString (literal ['\u00e9', '\\', '"']) = .ok (String.ofList ['\u00e9', '"']) ∧
    ∃ program symbol,
      (Program.ofSource (declaration ['\u00e9', '\\', '"'])).result = .ok program ∧
      program.find? "s" = some symbol ∧ symbol.ty.extent = .sized 3 := by
  have quoteCode : ('"', 34) ∈ escapeCodes := by decide
  have writes : Writes '"' ['\u00e9', '"'] ['\u00e9', '\\', '"'] :=
    .raw (by decide) (by decide) (by decide) (.escape quoteCode .nil)
  have short : (String.ofList ['\u00e9', '"']).utf8ByteSize ≤ maxExtent := by decide
  obtain ⟨-, decoded, declared⟩ := strings_readBack.2.1 _ _ writes
  obtain ⟨program, symbol, accepted, found, -, -, extent⟩ := declared short
  exact ⟨writes, short, decoded, program, symbol, accepted, found, extent⟩

end Quoted

end PlainC
