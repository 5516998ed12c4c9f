import PlainC.Proofs.Machine.Resolution
import PlainC.Proofs.Program.Front
import PlainC.Proofs.Structs.Steps
import PlainC.SymbolTable.Listing

set_option autoImplicit false

/-!
The structs in the analysis of a program: in every state the structs in all types are known, and
they are the same structs in all later states.
-/

namespace PlainC

open Checked Machine

/-! ### Listings -/

namespace SymbolTable

/-- How a symbol is listed. Its own line has the name of a struct or ends with a type, and those of
its members and arguments end with a type each. -/
structure Lists (table : SymbolTable) (symbol : Symbol) : Prop where
  struct : symbol.cls = .struct → table.headLine symbol = "struct " ++ symbol.name ++ "\n"
  head : symbol.cls ≠ .struct → ∃ text, table.Spells symbol.ty text ∧
    table.headLine symbol = symbol.cls.word ++ " " ++ symbol.name ++ ": " ++ text ++ "\n"
  part : ∀ part ∈ symbol.members ++ symbol.args, ∃ text, table.Spells part.ty text ∧
    table.partLine part = "    " ++ (if part.storage = .argument then "arg" else "member") ++ " " ++
      part.name ++ ": " ++ text ++ "\n"

variable {table : SymbolTable}

/-- No line of a listing has the number of a struct in place of its name. -/
theorem Grounded.lists (grounded : table.Grounded) {symbol : Symbol}
    (mem : symbol ∈ table.symbols) : table.Lists symbol where
  struct isStruct := by simp [headLine, isStruct, SymbolClass.word, String.append_assoc]
  head other := by
    refine ⟨_, spells_typeName (knows_symbol grounded mem), ?_⟩
    simp [headLine, other, typed, String.append_assoc]
  part part inside := by
    have known : table.Knows part.ty.base := by
      rcases List.mem_append.mp inside with isMember | isArg
      · exact knows_member grounded mem isMember
      · exact knows_arg grounded mem isArg
    refine ⟨_, spells_typeName known, ?_⟩
    simp [partLine, typed, String.append_assoc]

end SymbolTable

namespace Machine

/-! ### Runs -/

/-- What holds of the structs in a state. -/
structure State.KnowsStructs (s : State) : Prop where
  /-- The symbols, and what is underway, have only types with known structs. -/
  grounded : s.Grounded
  /-- A struct type comes from the name of a declared struct. -/
  created : ∀ base index, (BaseName.resolve s.table base).Gives (.struct index) →
    ∃ word name struct, base = .struct word (.found name) ∧
      s.table.structAt? index = some struct ∧ struct.name = name.value
  operands : ∀ expr operand, (Expr.type s.table expr).Gives operand →
    s.table.Knows operand.ty.base
  spelled : ∀ ty, s.table.Knows ty.base → s.table.Spells ty (s.table.typeName ty)
  /-- The access to a member finds the struct, and fails only if this has no such member. -/
  members : ∀ record operand index, (Expr.type s.table record).Gives operand →
    operand.ty = .struct index → ∃ struct, s.table.structAt? index = some struct ∧
      ∀ dot member, Expr.typeOfMember s.table dot operand member =
        match struct.member? member.value with
        | some symbol => pure ⟨symbol.ty, operand.assignable⟩
        | none =>
          Checked.violate (.noSuchMember (s.table.typeName operand.ty) member.value) member.place
  messages : ∀ fault, s.step.result = .error fault → fault.Shows s.table
  /-- The structs are the same ones in every later state. -/
  persists : ∀ s', Runs s (.ok s') → s.table.Keeps s'.table

variable {decls : List Decl} {past : List Declaration} {s : State}

theorem State.Grounded.start (decls : List Decl) : (Machine.start decls).Grounded := by
  refine ⟨fun symbol mem ty inside => SymbolTable.knows_of_ne fun index isStruct => ?_, nofun,
    nofun, nofun⟩
  have none : ∀ symbol ∈ SymbolTable.externals, ∀ ty ∈ symbol.types, ty.isStruct = false := by
    decide
  have notStruct := none symbol (SymbolTable.symbols_initial ▸ mem) ty inside
  rw [Ty.isStruct, isStruct] at notStruct
  cases notStruct

/-- In every reachable state the structs are known. -/
theorem Reachable.grounded (h : Reachable decls past s) : s.Grounded := by
  induction h with
  | start => exact State.Grounded.start decls
  | step reached given ih => exact ((State.ends_step ih reached.invariant).gives _ given).1

theorem Reachable.keeps {s' : State} (h : Reachable decls past s) (runs : Runs s (.ok s')) :
    s.table.Keeps s'.table := by
  generalize same : Except.ok s' = outcome at runs
  induction runs generalizing past with
  | done =>
    obtain rfl := Except.ok.inj same
    exact SymbolTable.Keeps.refl _
  | fail => cases same
  | step given _ ih =>
    have follows := (State.ends_step h.grounded h.invariant).gives _ given
    exact follows.2.trans (ih (h.step given) same)

theorem BaseName.exists_struct {table : SymbolTable} {base : BaseName} {index : Nat}
    (given : (base.resolve table).Gives (.struct index)) :
    ∃ word name struct, base = .struct word (.found name) ∧
      table.structAt? index = some struct ∧ struct.name = name.value := by
  cases base with
  | int | double | char => cases gives_pure.mp given
  | struct word slot =>
    obtain ⟨name, found, resolved⟩ := gives_bind.mp given
    obtain rfl := gives_require.mp found
    split at resolved
    · rename_i index' latest
      cases gives_pure.mp resolved
      obtain ⟨struct, latest⟩ := SymbolTable.findStruct?_iff.mp latest
      obtain ⟨-, -, -, -, ⟨named, isStruct⟩, -⟩ := id latest
      exact ⟨word, name, struct, rfl, SymbolTable.structAt?_iff.mpr ⟨latest.get?_eq, isStruct⟩,
        named⟩
    · exact absurd resolved gives_violate

theorem Reachable.knowsStructs (h : Reachable decls past s) : s.KnowsStructs where
  grounded := h.grounded
  created _ _ given := BaseName.exists_struct given
  operands expr := (Expr.ends_type h.grounded.table expr).gives
  spelled _ := SymbolTable.spells_typeName
  members record operand index given same := by
    have known := (Expr.ends_type h.grounded.table record).gives operand given
    rw [same] at known
    obtain ⟨-, struct, found⟩ := known index rfl
    refine ⟨struct, found, fun dot member => ?_⟩
    have scalar : operand.ty.isArray = false := by
      rw [same]
      rfl
    have isStruct : operand.ty.structIndex? = some index := by
      rw [same]
      rfl
    cases inside : struct.member? member.value <;>
      simp [Expr.typeOfMember, scalar, isStruct, found, inside]
  messages := (State.ends_step h.grounded h.invariant).refuses
  persists _ := h.keeps

end Machine

namespace Program

/-- Tokens that do not end with the end of input are refused without a word about types. -/
theorem types_of_not_ends {tokens : List Token} {fault : Fault} (other : ¬Ends tokens)
    (refused : (ofTokens tokens).result = .error fault) : fault.types = [] := by
  rw [ends_iff] at other
  cases found : (Lexeme.number 0 tokens).getLast? with
  | none =>
    simp only [ofTokens, found] at refused
    obtain rfl := Except.error.inj refused
    rfl
  | some final =>
    have notEnd : final.value ≠ .endOfInput := by simpa [found] using other
    simp only [ofTokens, found, ne_eq, notEnd, not_false_eq_true, if_true] at refused
    obtain rfl := Except.error.inj refused
    rfl

/-- The analysis of any tokens is a run of the machine, in all states of which the structs are
known. The listing of an accepted program, which is made of the lines of its symbols and of their
members and arguments, and the message of a fault have no type with the number of a struct in place
of its name. -/
theorem ofTokens_knowsStructs (tokens : List Token) : ∃ last : Lexeme,
    (∀ past s, Reachable (Decl.parseAll last (front tokens)).1 past s → s.KnowsStructs) ∧
    (∀ program, (ofTokens tokens).result = .ok program →
      (∃ past s, Reachable (Decl.parseAll last (front tokens)).1 past s ∧ s.Done ∧
        s.table = program.table) ∧
      program.table.listing = String.join (program.table.symbols.flatMap fun symbol =>
        program.table.headLine symbol ::
          (symbol.members ++ symbol.args).map program.table.partLine) ∧
      ∀ symbol ∈ program.table.symbols, program.table.Lists symbol) ∧
    ∀ fault, (ofTokens tokens).result = .error fault → fault.types = [] ∨
      ∃ past s, Reachable (Decl.parseAll last (front tokens)).1 past s ∧
        s.step.result = .error fault ∧ fault.Shows s.table := by
  by_cases ends : Ends tokens
  · obtain ⟨last, -, accepts, refuses⟩ := ofTokens_iff_reachable ends
    refine ⟨last, fun past s reachable => reachable.knowsStructs, ?_, ?_⟩
    · intro program accepted
      obtain ⟨past, s, reachable, done, rfl⟩ := (accepts program).mp accepted
      exact ⟨⟨past, s, reachable, done, rfl⟩, rfl, fun _ => reachable.grounded.table.lists⟩
    · intro fault refused
      obtain ⟨past, s, reachable, stops⟩ := (refuses fault).mp refused
      exact .inr ⟨past, s, reachable, stops, reachable.knowsStructs.messages fault stops⟩
  · refine ⟨⟨.endOfInput, ⟨0, ⟨0, 0⟩, 1⟩⟩, fun past s reachable => reachable.knowsStructs, ?_, ?_⟩
    · intro program accepted
      exact absurd (ends_of_accepted accepted) ends
    · intro fault refused
      exact .inl (types_of_not_ends ends refused)

end Program

end PlainC
