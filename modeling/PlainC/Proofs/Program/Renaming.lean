import Mathlib.Logic.Equiv.Basic
import PlainC.Proofs.Program.Front
import PlainC.Proofs.Relabeling.Declarations
import PlainC.Proofs.Relabeling.Reading.Decl

set_option autoImplicit false

/-!
Names are only compared with each other. A program in which they are replaced by other ones, each
always by the same and no two by one, is accepted or refused as before, and the symbols it declares
are the same ones under their new names.
-/

namespace PlainC

open Checked
open SymbolTable (externals)

/-! ### Relabeled programs -/

/-- As many tokens, and tables that are alike. -/
structure Program.Alike (r : Relabeling) (program program' : Program) : Prop where
  table : program.table.Alike r program'.table
  position : program'.position = program.position

/-- The analysis of tokens with other names and at other places ends like that of the tokens
themselves. -/
theorem Program.alike_ofTokens {r : Relabeling} {tokens tokens' : List Token}
    (nonempty : tokens ≠ [])
    (same : Lexeme.number 0 tokens' = (Lexeme.number 0 tokens).map (Lexeme.relabel r)) :
    Checked.Alike r (Program.Alike r) (ofTokens tokens) (ofTokens tokens') := by
  have final : ∃ final, (Lexeme.number 0 tokens).getLast? = some final := by
    cases tokens with
    | nil => exact absurd rfl nonempty
    | cons token tokens => exact ⟨_, List.getLast?_cons⟩
  obtain ⟨final, final_eq⟩ := final
  have isEnd : (Lexeme.relabel r final).value = .endOfInput ↔ final.value = .endOfInput :=
    Kind.relabel_eq_iff (by simp) final.value
  simp only [ofTokens, same, List.getLast?_map, final_eq, Option.map_some, Lexeme.takeWhile_relabel,
    List.length_map, List.getElem?_map, ne_eq, isEnd]
  apply alike_ite
  · intro _
    exact (alike_unexpected (R := fun (_ _ : PUnit) => False) .endOfInput final).bind
      fun _ _ => False.elim
  intro _
  rw [Option.getD_map, Decl.follows_parseAll]
  apply (Program.alike_tableOfDecls _).bind
  intro table table' alike
  apply (alike_write _ _).behind
  intro _
  exact alike_pure ⟨alike, rfl⟩

/-! ### Renaming -/

def Kind.rename (f : String → String) : Kind → Kind
  | identifier name => identifier (f name)
  | kind => kind

/-- The token with another name, if it is an identifier. -/
def Token.rename (f : String → String) (token : Token) : Token :=
  { token with kind := token.kind.rename f }

namespace Symbol

/-- The parameter or member with another name. -/
def renamePart (f : String → String) (part : Symbol) : Symbol :=
  { part with name := f part.name }

/-- The symbol with other names for itself and for its parameters or members. -/
def rename (f : String → String) (symbol : Symbol) : Symbol :=
  { symbol with
    name := f symbol.name
    args := symbol.args.map (renamePart f)
    members := symbol.members.map (renamePart f) }

end Symbol

/-- Other names at the same places. -/
def Relabeling.ofNames (f : String → String) (injective : f.Injective)
    (fixed : ∀ symbol ∈ externals, f symbol.name = symbol.name) : Relabeling :=
  onLines f id (fun same => injective same) fixed
    fun place' => congrArg Place.line (id_eq place').symm

section

variable {f : String → String} {injective : f.Injective}
  {fixed : ∀ symbol ∈ externals, f symbol.name = symbol.name}

theorem Lexeme.number_rename (index : Nat) (tokens : List Token) :
    number index (tokens.map (Token.rename f)) =
      (number index tokens).map (relabel (.ofNames f injective fixed)) := by
  induction tokens generalizing index with
  | nil => rfl
  | cons token tokens ih =>
    have kind : token.kind.rename f = token.kind.relabel (.ofNames f injective fixed) := by
      cases token.kind <;> rfl
    simp only [List.map_cons, number, ih, Token.rename, kind]
    rfl

theorem Symbol.parts_eq_rename {parts parts' : List Symbol}
    (alike : List.Forall₂ (PartAlike (.ofNames f injective fixed)) parts parts') :
    parts' = parts.map (renamePart f) := by
  induction alike with
  | nil => rfl
  | cons head _ ih =>
    cases head with
    | intro lines =>
      cases lines
      rw [List.map_cons, ih]
      rfl

theorem Symbol.Alike.eq_rename {symbol symbol' : Symbol}
    (alike : symbol.Alike (.ofNames f injective fixed) symbol') : symbol' = symbol.rename f := by
  cases alike with
  | intro lines args members =>
    cases lines
    rw [parts_eq_rename args, parts_eq_rename members]
    rfl

end

/-- A fault of the same kind, at the same place. -/
theorem Fault.Alike.diagnostic_eq {r : Relabeling} {fault fault' : Fault}
    (alike : fault.Alike r fault') :
    fault'.diagnostic.complaint.category = fault.diagnostic.complaint.category ∧
      fault'.diagnostic.span = (r.place fault.place).span ∧
      fault'.diagnostic.line = (r.place fault.place).line := by
  obtain ⟨cause, place⟩ := fault
  obtain ⟨cause', place'⟩ := fault'
  obtain ⟨causes, rfl⟩ := alike
  refine ⟨?_, rfl, rfl⟩
  cases causes with
  | literal | unexpected | noTokens | violation => rfl

namespace Program

/-- As many tokens, and a table in which all symbols behind the external functions are renamed. -/
structure Renamed (f : String → String) (program program' : Program) : Prop where
  table : ∃ own, program.table.symbols = externals ++ own ∧
    program'.table.symbols = externals ++ own.map (Symbol.rename f)
  position : program'.position = program.position

theorem Alike.renamed {f : String → String} {injective : f.Injective}
    {fixed : ∀ symbol ∈ externals, f symbol.name = symbol.name} {program program' : Program}
    (alike : program.Alike (.ofNames f injective fixed) program') : program.Renamed f program' := by
  obtain ⟨⟨own, own', same, same', related⟩, position⟩ := alike
  refine ⟨⟨own, same, ?_⟩, position⟩
  have renamed : own' = own.map (Symbol.rename f) := by
    clear same same'
    induction related with
    | nil => rfl
    | cons head _ ih => rw [List.map_cons, head.eq_rename, ih]
  rw [same', renamed]

/-- Under other names for all that is not an external function, a program is accepted just if it was
accepted before, and then declares the same symbols under these names. If it is refused, then for a
fault of the same kind at the same place. -/
theorem ofTokens_rename (f : String → String) (injective : f.Injective)
    (fixed : ∀ symbol ∈ externals, f symbol.name = symbol.name) (tokens : List Token) :
    (∀ program, (ofTokens tokens).result = .ok program →
      ∃ program', (ofTokens (tokens.map (Token.rename f))).result = .ok program' ∧
        program.Renamed f program') ∧
    ∀ fault, (ofTokens tokens).result = .error fault →
      ∃ fault', (ofTokens (tokens.map (Token.rename f))).result = .error fault' ∧
        fault'.diagnostic.complaint.category = fault.diagnostic.complaint.category ∧
        fault'.diagnostic.span = fault.diagnostic.span ∧
        fault'.diagnostic.line = fault.diagnostic.line := by
  by_cases empty : tokens = []
  · subst empty
    refine ⟨nofun, fun fault refused => ⟨fault, refused, rfl, rfl, rfl⟩⟩
  have alike : Checked.Alike (.ofNames f injective fixed) (Program.Alike _) (ofTokens tokens)
      (ofTokens (tokens.map (Token.rename f))) :=
    alike_ofTokens empty (Lexeme.number_rename 0 tokens)
  rcases alike with ⟨program, program', accepted, accepted', related⟩ |
    ⟨fault, fault', refused, refused', related⟩
  · refine ⟨fun other given => ?_, fun fault refused => ?_⟩
    · obtain rfl := accepted.unique given
      exact ⟨program', accepted', related.renamed⟩
    · cases accepted.symm.trans refused
  · refine ⟨fun program accepted => ?_, fun other given => ?_⟩
    · cases accepted.symm.trans refused
    · obtain rfl := Except.error.inj (refused.symm.trans given)
      exact ⟨fault', refused', related.diagnostic_eq⟩

/-- `int s(int t) { return t; }` with its names exchanged. The parameters of external functions,
one of which is an `s` too, keep theirs. -/
theorem ofTokens_rename_swap :
    let tokens : List Token :=
      [⟨.keyword .intKw, ⟨0, 3⟩, 1⟩, ⟨.identifier "s", ⟨4, 5⟩, 1⟩,
        ⟨.delimiter .leftParen, ⟨5, 6⟩, 1⟩, ⟨.keyword .intKw, ⟨6, 9⟩, 1⟩,
        ⟨.identifier "t", ⟨10, 11⟩, 1⟩, ⟨.delimiter .rightParen, ⟨11, 12⟩, 1⟩,
        ⟨.delimiter .leftBrace, ⟨13, 14⟩, 1⟩, ⟨.keyword .returnKw, ⟨15, 21⟩, 1⟩,
        ⟨.identifier "t", ⟨22, 23⟩, 1⟩, ⟨.delimiter .semicolon, ⟨23, 24⟩, 1⟩,
        ⟨.delimiter .rightBrace, ⟨25, 26⟩, 1⟩, ⟨.endOfInput, ⟨26, 26⟩, 1⟩]
    (∀ symbol ∈ externals, Equiv.swap "s" "t" symbol.name = symbol.name) ∧
      ∃ program program', (ofTokens tokens).result = .ok program ∧
        (ofTokens (tokens.map (Token.rename (Equiv.swap "s" "t")))).result = .ok program' ∧
        program.Renamed (Equiv.swap "s" "t") program' := by
  intro tokens
  have fixed : ∀ symbol ∈ externals, Equiv.swap "s" "t" symbol.name = symbol.name := by
    decide
  obtain ⟨program, accepted⟩ : ∃ program, (ofTokens tokens).result = .ok program := ⟨_, rfl⟩
  obtain ⟨program', accepted', renamed⟩ :=
    (ofTokens_rename _ (Equiv.swap "s" "t").injective fixed tokens).1 program accepted
  exact ⟨fixed, program, program', accepted, accepted', renamed⟩

end Program

end PlainC
