import PlainC.Proofs.Initializing.Tables
import PlainC.Proofs.Machine.Collisions
import PlainC.Proofs.Void.Uses

set_option autoImplicit false

/-!
The initializers of a program. If there are not more tokens than an array can have elements, then the
machine comes to all declarators of an accepted program, and each of them is accepted just if its
initializer fits.
-/

namespace PlainC

open Checked

/-! ### Counting -/

theorem length_lexemesOf_le {α : Type} (view : α → Parts) {items : List α} {a : α}
    (among : a ∈ items) :
    (lexemesOf (view a)).length ≤ (lexemesOf (items.flatMap view)).length := by
  obtain ⟨before, behind, rfl⟩ := List.append_of_mem among
  simp only [List.flatMap_append, List.flatMap_cons, lexemesOf_append, List.length_append]
  omega

namespace Separated

theorem restParts_eq {α : Type} (view : α → Parts) (items : List (Place × α)) :
    restParts view items =
      items.flatMap fun pair => Delimiter.comma.part pair.1 ++ view pair.2 := by
  induction items with
  | nil => rfl
  | cons pair items ih => rw [restParts, ih, List.flatMap_cons]

theorem length_lexemesOf_le {α : Type} {view : α → Parts} {items : Separated α} {a : α}
    (among : a ∈ items.toList) :
    (lexemesOf (view a)).length ≤ (lexemesOf (items.parts view)).length := by
  rw [parts, restParts_eq, lexemesOf_append, List.length_append]
  rcases List.mem_cons.mp among with rfl | among
  · exact Nat.le_add_right _ _
  · obtain ⟨pair, inRest, rfl⟩ := List.mem_map.mp among
    have length := PlainC.length_lexemesOf_le
      (fun (pair : Place × α) => Delimiter.comma.part pair.1 ++ view pair.2) inRest
    rw [lexemesOf_append, List.length_append] at length
    omega

end Separated

/-- There is a comma in front of each argument but the first. -/
theorem Args.length_le (args : Args) : args.length ≤ (lexemesOf args.parts).length + 1 := by
  cases args with
  | last => exact Nat.le_add_left _ _
  | more arg comma rest =>
    have others := rest.length_le
    simp only [Args.length, Args.parts, Delimiter.part, Kind.part, lexemesOf_append,
      lexemesOf_found, List.length_append, List.length_cons]
    omega

theorem Initializer.count_le (initializer : Initializer) :
    initializer.count ≤ (lexemesOf initializer.parts).length := by
  cases initializer with
  | value | noElements => exact Nat.zero_le _
  | elements opening args closing =>
    have length := args.length_le
    simp only [count, parts, Delimiter.part, Kind.part, lexemesOf_append, lexemesOf_found,
      List.length_append, List.length_cons]
    omega

theorem Declarator.isShort_of_length {declarator : Declarator}
    (few : (lexemesOf declarator.parts).length ≤ maxExtent) : declarator.IsShort := by
  obtain ⟨slot, array, initializer⟩ := declarator
  rintro ⟨op, initializer⟩ rfl
  have count := initializer.count_le
  simp only [parts, optionalParts, Option.map_some, Option.getD_some, lexemesOf_append,
    List.length_append] at few
  change initializer.count ≤ maxExtent
  omega

def Item.parts : Item → Parts
  | .decl varDecl => varDecl.parts
  | .stmt statement => statement.parts

mutual

theorem Stmt.length_items : ∀ (stmt : Stmt) (loops : Nat), ∀ item ∈ stmt.items loops,
    (lexemesOf item.2.parts).length ≤ (lexemesOf stmt.parts).length
  | .block _ inner _, loops => by
    refine List.forall_mem_cons.mpr ⟨Nat.le_refl _, fun item among => ?_⟩
    have inside := Items.length_items inner loops item among
    simp only [Stmt.parts, lexemesOf_append, List.length_append]
    omega
  | .ifThen _ _ body, loops => by
    refine List.forall_mem_cons.mpr ⟨Nat.le_refl _, fun item among => ?_⟩
    have inside := Stmt.length_items body loops item among
    simp only [Stmt.parts, lexemesOf_append, List.length_append]
    omega
  | .ifElse _ _ body _ otherwise, loops => by
    refine List.forall_mem_cons.mpr ⟨Nat.le_refl _, fun item among => ?_⟩
    simp only [Stmt.parts, lexemesOf_append, List.length_append]
    rcases List.mem_append.mp among with among | among
    · have inside := Stmt.length_items body loops item among
      omega
    · have inside := Stmt.length_items otherwise loops item among
      omega
  | .whileLoop _ _ body, loops | .forLoop _ _ body, loops => by
    refine List.forall_mem_cons.mpr ⟨Nat.le_refl _, fun item among => ?_⟩
    have inside := Stmt.length_items body (loops + 1) item among
    simp only [Stmt.parts, lexemesOf_append, List.length_append]
    omega
  | .breakLoop _ _, _ | .returnValue _ _ _, _ | .empty _, _ | .expr _ _, _ | .missing _, _ =>
    List.forall_mem_singleton.mpr (Nat.le_refl _)

theorem Items.length_items : ∀ (inner : Items) (loops : Nat), ∀ item ∈ inner.items loops,
    (lexemesOf item.2.parts).length ≤ (lexemesOf inner.parts).length
  | .nil, _ => List.forall_mem_nil _
  | .decl decl rest, loops => by
    simp only [Items.parts, lexemesOf_append, List.length_append]
    refine List.forall_mem_cons.mpr ⟨Nat.le_add_right _ _, fun item among => ?_⟩
    exact Nat.le_trans (Items.length_items rest loops item among) (Nat.le_add_left _ _)
  | .stmt stmt rest, loops => by
    simp only [Items.parts, lexemesOf_append, List.length_append]
    refine List.forall_mem_append.mpr ⟨fun item among => ?_, fun item among => ?_⟩
    · exact Nat.le_trans (Stmt.length_items stmt loops item among) (Nat.le_add_right _ _)
    · exact Nat.le_trans (Items.length_items rest loops item among) (Nat.le_add_left _ _)

end

theorem Decl.length_items (decl : Decl) : ∀ item ∈ decl.items,
    (lexemesOf item.2.parts).length ≤ (lexemesOf decl.parts).length := by
  cases decl with
  | struct word name opening members closing semicolon =>
    refine List.forall_mem_map.mpr fun varDecl among => ?_
    have inside := length_lexemesOf_le VarDecl.parts among
    simp only [parts, lexemesOf_append, List.length_append]
    exact Nat.le_trans inside (by omega)
  | function result name opening params closing body =>
    cases body with
    | found block =>
      intro item among
      have inside := Items.length_items block.items 0 item among
      simp only [parts, Slot.parts, Block.parts, lexemesOf_append, List.length_append]
      omega
    | missing instead => exact List.forall_mem_nil _
  | vars tried decl => exact List.forall_mem_singleton.mpr (Nat.le_refl _)
  | missing tried instead => exact List.forall_mem_nil _

/-- All declarators of a program are well formed, and they are short if there are not too many
tokens. -/
theorem Program.sound_declarators {tokens : List Token}
    (few : tokens.length ≤ maxExtent) (last : Lexeme) :
    ∀ declarator ∈ (Decl.parseAll last (front tokens)).1.flatMap Decl.declarators,
      declarator.Formed ∧ declarator.IsShort := by
  obtain ⟨decls, rest, read, spans, formed, -⟩ := Decl.parseAll_reads last (front tokens)
  rw [read]
  intro declarator among
  obtain ⟨decl, inside, among⟩ := List.mem_flatMap.mp among
  obtain ⟨⟨loops, item⟩, inItems, among⟩ := List.mem_flatMap.mp among
  cases item with
  | stmt => cases among
  | decl varDecl =>
    refine ⟨decl.formed_items (formed decl inside) _ inItems declarator among, ?_⟩
    have length : (lexemesOf declarator.parts).length ≤ (front tokens).length := calc
      (lexemesOf declarator.parts).length
      _ ≤ (lexemesOf (varDecl.declarators.parts Declarator.parts)).length :=
        Separated.length_lexemesOf_le among
      _ ≤ (lexemesOf varDecl.parts).length := by
        simp only [VarDecl.parts, lexemesOf_append, List.length_append]
        omega
      _ ≤ (lexemesOf decl.parts).length := decl.length_items _ inItems
      _ ≤ (lexemesOf (decls.flatMap Decl.parts)).length := length_lexemesOf_le _ inside
      _ ≤ (front tokens).length := by
        rw [spans.eq_append, List.length_append]
        exact Nat.le_add_right _ _
    have fewer : (front tokens).length ≤ tokens.length := by
      rw [← Lexeme.length_number 0 tokens]
      exact (List.takeWhile_sublist _).length_le
    exact Declarator.isShort_of_length (length.trans (fewer.trans few))

/-! ### Declarators -/

namespace Machine

variable {s : State} {base : Base} {declarator : Declarator}

/-- The declarator is accepted just if its name is free and its initializer fits, and its symbol comes
behind all others then. Names in the initializer are looked up before that. A member is accepted only
without an initializer. -/
def State.Initializes (s : State) (base : Base) (declarator : Declarator) : Prop :=
  match s.context.region with
  | region@.topLevel | region@(.body _) => ∀ symbols,
    (∃ s', s.step.Gives s' ∧ s'.table.symbols = symbols) ↔ ∃ name ty,
      declarator.name = .found name ∧ declarator.HasType s.table base ty ∧
      SymbolTable.Fresh s.table.symbols (region.variableSymbol name ty) ∧
      symbols = s.table.symbols ++ [region.variableSymbol name ty]
  | region@(.members index _) => ∀ s', s.step.Gives s' → ∃ name ty,
      declarator.name = .found name ∧ declarator.initializer = none ∧
      declarator.HasType s.table base ty ∧
      s'.table.symbols = s.table.symbols.modify index fun symbol =>
        { symbol with members := symbol.members ++ [region.variableSymbol name ty] }

theorem State.initializes (next : s.next? = some (base, declarator)) (formed : declarator.Formed) :
    s.Initializes base declarator := by
  unfold State.Initializes
  have steps := step_next next
  generalize s.context.region = region at steps
  cases region with
  | topLevel | body =>
    intro symbols
    rw [steps]
    constructor
    · rintro ⟨table, declared, rfl⟩
      obtain ⟨name, ty, found, typed, added⟩ := Declarator.gives_declare.mp declared
      obtain ⟨fresh, same⟩ := Region.symbols_declare added
      exact ⟨name, ty, found, ((Declarator.gives_type formed).mp typed).1, fresh, same⟩
    · rintro ⟨name, ty, found, typed, fresh, rfl⟩
      exact Declarator.exists_declare _ nofun formed found typed fresh
  | members index struct =>
    intro s' given
    obtain ⟨table, declared, same⟩ := (steps _).mp ⟨s', given, rfl⟩
    obtain ⟨name, ty, found, typed, added⟩ := Declarator.gives_declare.mp declared
    obtain ⟨typed, uninitialized⟩ := (Declarator.gives_type formed).mp typed
    exact ⟨name, ty, found, uninitialized ⟨index, struct, rfl⟩, typed,
      same ▸ Region.symbols_declare added⟩

end Machine

namespace Program

open Machine

/-- Initializers fit their variables: the machine, which is the analysis, comes to all declarators of
an accepted program; wherever it comes to a declarator, this is accepted just if its initializer
fits; and in all its states all arrays that have a size have a proper one. -/
theorem ofTokens_initialized {tokens : List Token} (ends : Ends tokens)
    (few : tokens.length ≤ maxExtent) :
    ∃ last : Lexeme, last.value = .endOfInput ∧
      (∀ program, (ofTokens tokens).result = .ok program ↔
        ∃ past s, Reachable (Decl.parseAll last (front tokens)).1 past s ∧ s.Done ∧
          program = ⟨s.table, (front tokens).length⟩) ∧
      (∀ program, (ofTokens tokens).result = .ok program → program.table.IsProper ∧
        ∀ declarator ∈ (Decl.parseAll last (front tokens)).1.flatMap Decl.declarators,
          Meets (Decl.parseAll last (front tokens)).1 declarator) ∧
      ∀ past s, Reachable (Decl.parseAll last (front tokens)).1 past s →
        s.table.IsProper ∧
        (∀ (expr : Expr) (ty : Ty) assignable, expr.HasType s.table ty assignable → ty.extent.IsProper) ∧
        ∀ base declarator, s.next? = some (base, declarator) → s.Initializes base declarator := by
  obtain ⟨last, isEnd, accepts, -⟩ := ofTokens_iff_reachable ends
  have sound := sound_declarators few last
  refine ⟨last, isEnd, accepts, fun program accepted => ?_, fun past s reached => ?_⟩
  · obtain ⟨past, s, reached, done, rfl⟩ := (accepts program).mp accepted
    refine ⟨reached.isProper sound, fun declarator among => ?_⟩
    rcases reached.left_or_meets declarator among with left | meets
    · rw [done.left_eq] at left
      cases left
    · exact meets
  · have proper := reached.isProper sound
    refine ⟨proper, fun expr ty assignable typed => typed.isProper proper, ?_⟩
    intro base declarator next
    have among := reached.left_subset (State.mem_left_of_next next)
    exact State.initializes next (sound declarator among).1

/-- In `int a[] = {1, 2};` the initializer gives the array its size. -/
theorem ofTokens_initialized_braces :
    let tokens : List Token :=
      [⟨.keyword .intKw, ⟨0, 3⟩, 1⟩, ⟨.identifier "a", ⟨4, 5⟩, 1⟩,
        ⟨.delimiter .leftBracket, ⟨5, 6⟩, 1⟩, ⟨.delimiter .rightBracket, ⟨6, 7⟩, 1⟩,
        ⟨.operator .assign, ⟨8, 9⟩, 1⟩, ⟨.delimiter .leftBrace, ⟨10, 11⟩, 1⟩,
        ⟨.literal .integer "1", ⟨11, 12⟩, 1⟩, ⟨.delimiter .comma, ⟨12, 13⟩, 1⟩,
        ⟨.literal .integer "2", ⟨14, 15⟩, 1⟩, ⟨.delimiter .rightBrace, ⟨15, 16⟩, 1⟩,
        ⟨.delimiter .semicolon, ⟨16, 17⟩, 1⟩, ⟨.endOfInput, ⟨17, 17⟩, 1⟩]
    Ends tokens ∧ tokens.length ≤ maxExtent ∧
      ∃ last past s s' declarator, Reachable (Decl.parseAll last (front tokens)).1 past s ∧
        s.next? = some (.int, declarator) ∧ s.Initializes .int declarator ∧ s.step.Gives s' ∧
        s'.table.symbols = s.table.symbols ++
          [Region.topLevel.variableSymbol ⟨"a", ⟨1, ⟨4, 5⟩, 1⟩⟩ ⟨.int, .sized 2⟩] := by
  intro tokens
  have ends : Ends tokens := by decide
  have few : tokens.length ≤ maxExtent := by decide
  refine ⟨ends, few, ?_⟩
  obtain ⟨⟨_, place⟩, rfl, -, -, states⟩ := ofTokens_initialized ends few
  have reached : Reachable (Decl.parseAll ⟨.endOfInput, place⟩ (front tokens)).1 []
    ⟨.global (some ⟨.int, [⟨.found ⟨"a", ⟨1, ⟨4, 5⟩, 1⟩⟩,
      .unsized ⟨2, ⟨5, 6⟩, 1⟩ ⟨3, ⟨6, 7⟩, 1⟩,
      some (⟨4, ⟨8, 9⟩, 1⟩, .elements ⟨5, ⟨10, 11⟩, 1⟩
        (.more (.literal .integer ⟨"1", ⟨6, ⟨11, 12⟩, 1⟩⟩) ⟨7, ⟨12, 13⟩, 1⟩
          (.last (.literal .integer ⟨"2", ⟨8, ⟨14, 15⟩, 1⟩⟩)))
        (.found ⟨9, ⟨15, 16⟩, 1⟩))⟩], .found ⟨10, ⟨16, 17⟩, 1⟩⟩), .initial, 0, []⟩ := .step .start rfl
  obtain ⟨-, -, initializes⟩ := states _ _ reached
  exact ⟨_, _, _, _, _, reached, rfl, initializes _ _ rfl, rfl, rfl⟩

end Program

end PlainC
