import PlainC.Proofs.Checking.Related
import PlainC.Proofs.Syntax.Parts
import PlainC.Proofs.Table.Changing
import PlainC.Proofs.Table.Lookup

set_option autoImplicit false

/-!
Symbols that are put into a table. Those behind get other indices, by which structs are known, and
the functions behind get other depths. Under a name that no symbol put in has, the same is found as
before, but for these numbers.
-/

namespace PlainC

open Checked

/-! ### Numbers -/

/-- Symbols that are put behind the front of a table. -/
structure Insertion where
  front : List Symbol
  symbols : List Symbol

namespace Insertion

/-- The number of functions, each of which has a depth of its own. -/
def functions (symbols : List Symbol) : Nat := symbols.countP fun symbol => symbol.cls = .function

/-- The new index of the symbol that had an index. -/
def index (ins : Insertion) (i : Nat) : Nat :=
  if i < ins.front.length then i else i + ins.symbols.length

/-- The new depth of the function that had a depth. -/
def depth (ins : Insertion) (d : Nat) : Nat :=
  if d ≤ functions ins.front then d else d + functions ins.symbols

/-- None of the symbols put in has the name. -/
def Spares (ins : Insertion) (name : String) : Prop := ∀ symbol ∈ ins.symbols, symbol.name ≠ name

/-- None of the symbols put in is named in the parts. -/
def SparesAll (ins : Insertion) (ps : Parts) : Prop :=
  ∀ t, Slot.found t ∈ ps → ∀ name, t.value = .identifier name → ins.Spares name

variable {ins : Insertion}

@[simp] theorem index_inj {i j : Nat} : ins.index i = ins.index j ↔ i = j := by
  simp only [index]
  split <;> split <;> omega

@[simp] theorem depth_inj {d e : Nat} : ins.depth d = ins.depth e ↔ d = e := by
  simp only [depth]
  split <;> split <;> omega

@[simp] theorem depth_zero : ins.depth 0 = 0 := if_pos (Nat.zero_le _)

theorem index_of_le {i : Nat} (behind : ins.front.length ≤ i) :
    ins.index i = i + ins.symbols.length := if_neg (Nat.not_lt.mpr behind)

section

variable {t : Lexeme} {ps qs : Parts}

@[simp] theorem sparesAll_nil : ins.SparesAll [] := nofun

@[simp] theorem sparesAll_append :
    ins.SparesAll (ps ++ qs) ↔ ins.SparesAll ps ∧ ins.SparesAll qs := by
  simp only [SparesAll, List.mem_append, or_imp, forall_and]

@[simp] theorem sparesAll_found :
    ins.SparesAll (.found t :: ps) ↔
      (∀ name, t.value = .identifier name → ins.Spares name) ∧ ins.SparesAll ps := by
  simp [SparesAll, or_imp, forall_and]

theorem sparesAll_name {name : Name} :
    ins.SparesAll (namePart name) ↔ ins.Spares name.value := by
  simp

theorem SparesAll.of_mem {α : Type} {view : α → Parts} {items : List α} {a : α}
    (spares : ins.SparesAll (items.flatMap view)) (among : a ∈ items) : ins.SparesAll (view a) :=
  fun t inside => spares t (List.mem_flatMap_of_mem among inside)

theorem SparesAll.of_mem_separated {α : Type} {view : α → Parts} {items : Separated α} {a : α}
    (spares : ins.SparesAll (items.parts view)) (among : a ∈ items.toList) :
    ins.SparesAll (view a) := by
  obtain ⟨first, rest⟩ := items
  simp only [Separated.parts, sparesAll_append] at spares
  rcases List.mem_cons.mp among with rfl | among
  · exact spares.1
  · obtain ⟨-, spares⟩ := spares
    induction rest with
    | nil => cases among
    | cons item rest ih =>
      simp only [Separated.restParts, sparesAll_append] at spares
      rcases List.mem_cons.mp among with rfl | among
      · exact spares.1.2
      · exact ih (List.mem_cons_of_mem _ among) among spares.2

end

end Insertion

/-! ### Types -/

section

variable (ins : Insertion)

def Base.renumber : Base → Base
  | struct index => struct (ins.index index)
  | base => base

/-- The type with the new index of its struct. -/
def Ty.renumber (ty : Ty) : Ty := { ty with base := ty.base.renumber ins }

/-- The value with a type of new indices. -/
def Operand.renumber (operand : Operand) : Operand :=
  { operand with ty := operand.ty.renumber ins }

/-- The parameter or member with new numbers. -/
def Symbol.renumberPart (part : Symbol) : Symbol :=
  { part with ty := part.ty.renumber ins, depth := ins.depth part.depth }

/-- The symbol with new numbers for itself and its parameters or members. -/
def Symbol.renumber (symbol : Symbol) : Symbol :=
  { symbol with
    ty := symbol.ty.renumber ins
    depth := ins.depth symbol.depth
    args := symbol.args.map (renumberPart ins)
    members := symbol.members.map (renumberPart ins) }

end

variable {ins : Insertion}

namespace Base

@[simp] theorem renumber_inj {base base' : Base} :
    base.renumber ins = base'.renumber ins ↔ base = base' := by
  cases base <;> cases base' <;> simp [renumber]

@[simp] theorem rank?_renumber (base : Base) : (base.renumber ins).rank? = base.rank? := by
  cases base <;> rfl

@[simp] theorem renumber_eq_void {base : Base} : base.renumber ins = .void ↔ base = .void := by
  cases base <;> simp [renumber]

@[simp] theorem renumber_eq_int {base : Base} : base.renumber ins = .int ↔ base = .int := by
  cases base <;> simp [renumber]

@[simp] theorem renumber_eq_double {base : Base} :
    base.renumber ins = .double ↔ base = .double := by
  cases base <;> simp [renumber]

end Base

namespace Ty

variable (ty ty' : Ty)

@[simp] theorem isArray_renumber : (ty.renumber ins).isArray = ty.isArray := rfl

@[simp] theorem isStruct_renumber : (ty.renumber ins).isStruct = ty.isStruct := by
  obtain ⟨base, extent⟩ := ty
  cases base <;> rfl

@[simp] theorem isVoid_renumber : (ty.renumber ins).isVoid = ty.isVoid := by
  simp [isVoid, renumber]

@[simp] theorem isTestable_renumber : (ty.renumber ins).isTestable = ty.isTestable := by
  simp [isTestable]

@[simp] theorem isComparable_renumber : (ty.renumber ins).isComparable = ty.isComparable := by
  simp [isComparable]

@[simp] theorem isArithmetic_renumber : (ty.renumber ins).isArithmetic = ty.isArithmetic := by
  rw [isArithmetic, isArithmetic, isArray_renumber, renumber, Base.rank?_renumber]

@[simp] theorem structIndex?_renumber :
    (ty.renumber ins).structIndex? = ty.structIndex?.map ins.index := by
  obtain ⟨base, extent⟩ := ty
  cases base <;> rfl

@[simp] theorem renumber_eq_int : ty.renumber ins = .int ↔ ty = .int := by
  obtain ⟨base, extent⟩ := ty
  simp [renumber, int]

theorem promote?_renumber :
    (ty.renumber ins).promote? (ty'.renumber ins) = (ty.promote? ty').map (Ty.renumber ins) := by
  unfold promote?
  rw [isArray_renumber, isArray_renumber]
  split
  · rfl
  · have rank (ty : Ty) : (ty.renumber ins).base.rank? = ty.base.rank? := ty.base.rank?_renumber
    rw [rank, rank]
    cases ty.base.rank? with
    | none => rfl
    | some l =>
      cases ty'.base.rank? with
      | none => rfl
      | some r =>
        simp only [Option.map_some]
        split <;> rfl

@[simp] theorem accepts_renumber :
    (ty.renumber ins).accepts (ty'.renumber ins) = ty.accepts ty' := by
  obtain ⟨base, extent⟩ := ty
  obtain ⟨base', extent'⟩ := ty'
  unfold accepts
  simp only [isArray_renumber]
  split
  · simp [renumber]
  · cases base <;> cases base' <;> simp [renumber, Base.renumber, Base.rank?]
  · rfl

end Ty

/-! ### Symbols -/

/-- The symbols look the same to a check, but for their numbers. The depths of parameters do not
matter to it. -/
structure Symbol.Renumbered (ins : Insertion) (symbol symbol' : Symbol) : Prop where
  name : symbol'.name = symbol.name
  cls : symbol'.cls = symbol.cls
  ty : symbol'.ty = symbol.ty.renumber ins
  depth : symbol'.depth = ins.depth symbol.depth
  args : symbol'.args.map Symbol.ty = symbol.args.map fun arg => arg.ty.renumber ins
  members : symbol'.members = symbol.members.map (renumberPart ins)

theorem Symbol.renumbered (ins : Insertion) (symbol : Symbol) :
    symbol.Renumbered ins (symbol.renumber ins) :=
  ⟨rfl, rfl, rfl, rfl, by simp [renumber, renumberPart], rfl⟩

theorem Symbol.Renumbered.member? {symbol symbol' : Symbol} (same : symbol.Renumbered ins symbol')
    (name : String) : symbol'.member? name = (symbol.member? name).map (renumberPart ins) := by
  rw [Symbol.member?, same.members, List.find?_map]
  rfl

/-! ### Tables -/

namespace SymbolTable

/-- The first table is the second one without the symbols put in, and with the numbers that were
given without them. -/
def Omits (ins : Insertion) (table table' : SymbolTable) : Prop :=
  ∃ own, table.symbols = ins.front ++ own ∧
    table'.symbols = ins.front ++ (ins.symbols ++ own.map (Symbol.renumber ins))

/-- The second table is the first one with symbols put in, in front of which everything looks as if
nothing was put in. -/
structure Widened (ins : Insertion) (table table' : SymbolTable) : Prop where
  settled : ∀ symbol ∈ ins.front, symbol.Renumbered ins symbol
  omits : table.Omits ins table'

namespace Widened

variable {table table' : SymbolTable}

/-! #### Looking up -/

theorem size_le (h : table.Widened ins table') : ins.front.length ≤ table.size := by
  obtain ⟨own, same, -⟩ := h.omits
  rw [size, same, List.length_append]
  exact Nat.le_add_right _ _

theorem size_eq (h : table.Widened ins table') : table'.size = ins.index table.size := by
  rw [Insertion.index_of_le h.size_le]
  obtain ⟨own, same, same'⟩ := h.omits
  simp only [size, same, same', List.length_append, List.length_map]
  omega

theorem forall₂_front (h : table.Widened ins table') :
    List.Forall₂ (Symbol.Renumbered ins) ins.front ins.front :=
  List.forall₂_same.mpr h.settled

theorem forall₂_map (own : List Symbol) :
    List.Forall₂ (Symbol.Renumbered ins) own (own.map (Symbol.renumber ins)) :=
  List.forall₂_map_right_iff.mpr (List.forall₂_same.mpr fun symbol _ => symbol.renumbered ins)

theorem get? (h : table.Widened ins table') (i : Nat) :
    Option.Rel (Symbol.Renumbered ins) (table.get? i) (table'.get? (ins.index i)) := by
  obtain ⟨own, same, same'⟩ := h.omits
  rw [SymbolTable.get?, SymbolTable.get?, same, same']
  by_cases inFront : i < ins.front.length
  · rw [Insertion.index, if_pos inFront, List.getElem?_append_left inFront]
    rw [List.getElem?_append_left inFront]
    exact rel_getElem? h.forall₂_front i
  · obtain ⟨j, rfl⟩ := Nat.exists_eq_add_of_le (Nat.not_lt.mp inFront)
    rw [Insertion.index_of_le (Nat.le_add_right _ _), Nat.add_assoc, Nat.add_comm j,
      List.getElem?_append_right (Nat.le_add_right _ _), Nat.add_sub_cancel_left,
      List.getElem?_append_right (Nat.le_add_right _ _), Nat.add_sub_cancel_left,
      List.getElem?_append_right (Nat.le_add_right _ _), Nat.add_sub_cancel_left]
    exact rel_getElem? (forall₂_map own) j

section

variable {test test' : Symbol → Bool} (h : table.Widened ins table')
  (same : ∀ symbol symbol', symbol.Renumbered ins symbol' → test' symbol' = test symbol)
  (others : ∀ symbol ∈ ins.symbols, test' symbol = false)

include h same others

theorem lastIndex? :
    PlainC.lastIndex? test' table'.symbols =
      (PlainC.lastIndex? test table.symbols).map ins.index := by
  obtain ⟨own, front, front'⟩ := h.omits
  rw [front, front', lastIndex?_append, lastIndex?_append, lastIndex?_append,
    lastIndex?_eq_of_forall₂ h.forall₂_front same, lastIndex?_eq_of_forall₂ (forall₂_map own) same,
    lastIndex?_of_none test' others]
  cases PlainC.lastIndex? test own with
  | some i =>
    simp only [Option.map_some, Option.some_or, Option.some.injEq]
    rw [Insertion.index_of_le (Nat.le_add_right _ _)]
    omega
  | none =>
    simp only [Option.map_none, Option.none_or]
    cases found : PlainC.lastIndex? test ins.front with
    | none => rfl
    | some i => simp [Insertion.index, lastIndex?_lt test found]

theorem findLast? :
    Option.Rel (Symbol.Renumbered ins) (table.findLast? test) (table'.findLast? test') := by
  rw [SymbolTable.findLast?, SymbolTable.findLast?, h.lastIndex? same others]
  cases PlainC.lastIndex? test table.symbols with
  | none => exact .none
  | some i => exact h.get? i

end

section

variable {name : String} (h : table.Widened ins table') (spared : ins.Spares name)

include h spared

theorem find? : Option.Rel (Symbol.Renumbered ins) (table.find? name) (table'.find? name) :=
  h.findLast? (fun _ _ same => by simp only [same.name])
    fun symbol among => by simp [spared symbol among]

theorem findAtDepth? (depth : Nat) :
    Option.Rel (Symbol.Renumbered ins) (table.findAtDepth? name depth)
      (table'.findAtDepth? name (ins.depth depth)) :=
  h.findLast? (fun _ _ same => by simp only [same.name, same.depth, Insertion.depth_inj])
    fun symbol among => by simp [spared symbol among]

theorem findStruct? : table'.findStruct? name = (table.findStruct? name).map ins.index :=
  h.lastIndex? (fun _ _ same => by simp only [same.name, same.cls])
    fun symbol among => by simp [spared symbol among]

end

theorem structAt? (h : table.Widened ins table') (i : Nat) :
    Option.Rel (Symbol.Renumbered ins) (table.structAt? i) (table'.structAt? (ins.index i)) :=
  rel_filter (h.get? i) fun _ _ same => by simp only [same.cls]

/-! #### Changing -/

theorem append {symbol : Symbol} {middle middle' : SymbolTable} (h : table.Widened ins table')
    (same : middle.symbols = table.symbols ++ [symbol])
    (same' : middle'.symbols = table'.symbols ++ [symbol.renumber ins]) :
    middle.Widened ins middle' := by
  obtain ⟨own, front, front'⟩ := h.omits
  refine ⟨h.settled, own ++ [symbol], ?_, ?_⟩
  · rw [same, front, List.append_assoc]
  · rw [same', front']
    simp

/-- What stands behind the front can be changed. -/
theorem modify {change change' : Symbol → Symbol} {i : Nat} {middle middle' : SymbolTable}
    (h : table.Widened ins table') (behind : ins.front.length ≤ i)
    (kept : ∀ symbol, change' (symbol.renumber ins) = (change symbol).renumber ins)
    (same : middle.symbols = table.symbols.modify i change)
    (same' : middle'.symbols = table'.symbols.modify (ins.index i) change') :
    middle.Widened ins middle' := by
  obtain ⟨own, front, front'⟩ := h.omits
  obtain ⟨j, rfl⟩ := Nat.exists_eq_add_of_le behind
  have modified : ∀ (j : Nat) (own : List Symbol),
      (own.map (Symbol.renumber ins)).modify j change' =
        (own.modify j change).map (Symbol.renumber ins) := by
    intro j own
    induction own generalizing j with
    | nil => simp
    | cons symbol own ih => cases j <;> simp [kept, ih]
  refine ⟨h.settled, own.modify j change, ?_, ?_⟩
  · rw [same, front, modify_append_right]
  · rw [same', front', Insertion.index_of_le behind, Nat.add_assoc, Nat.add_comm j,
      modify_append_right, modify_append_right, modified]

theorem addArg {arg : Symbol} {i : Nat} (h : table.Widened ins table')
    (behind : ins.front.length ≤ i) :
    (table.addArg i arg).Widened ins (table'.addArg (ins.index i) (arg.renumberPart ins)) :=
  h.modify behind (fun _ => by simp [Symbol.renumber]) (symbols_addArg ..) (symbols_addArg ..)

theorem addMember {member : Symbol} {i : Nat} (h : table.Widened ins table')
    (behind : ins.front.length ≤ i) :
    (table.addMember i member).Widened ins
      (table'.addMember (ins.index i) (member.renumberPart ins)) :=
  h.modify behind (fun _ => by simp [Symbol.renumber]) (symbols_addMember ..)
    (symbols_addMember ..)

theorem truncate {size : Nat} (h : table.Widened ins table') (behind : ins.front.length ≤ size) :
    (table.truncate size).Widened ins (table'.truncate (ins.index size)) := by
  obtain ⟨own, front, front'⟩ := h.omits
  obtain ⟨count, rfl⟩ := Nat.exists_eq_add_of_le behind
  refine ⟨h.settled, own.take count, ?_, ?_⟩
  · rw [symbols_truncate, front, List.take_length_add_append]
  · rw [symbols_truncate, front', Insertion.index_of_le behind, Nat.add_assoc, Nat.add_comm count,
      List.take_length_add_append, List.take_length_add_append, List.map_take]

end Widened

end SymbolTable

/-! ### Checks -/

namespace Checked

variable {α β : Type} {R : α → β → Prop}

/-- Both checks pass, with values in a relation, or none of them does. -/
abbrev Agree (R : α → β → Prop) (x : Checked α) (y : Checked β) : Prop :=
  Related (fun _ _ => True) R x y

theorem agree_refl (x : Checked α) : Agree Eq x x := by
  cases h : x.result with
  | ok a => exact .inl ⟨a, a, h, h, rfl⟩
  | error fault => exact .inr ⟨fault, fault, h, h, trivial⟩

theorem agree_violate (violation violation' : Violation) (place place' : Place) :
    Agree R (violate violation place) (violate violation' place') :=
  related_refuse trivial

theorem agree_unexpected (wanted : Wanted) (instead : Lexeme) :
    Agree R (unexpected wanted instead) (unexpected wanted instead) :=
  related_refuse trivial

/-- A rule with which a check ends. -/
theorem agree_kept {kept : Prop} [Decidable kept] {violation violation' : Violation}
    {place : Place} {a : α} {b : β} (related : R a b) :
    Agree R (if kept then pure a else violate violation place)
      (if kept then pure b else violate violation' place) :=
  related_ite (fun _ => related_pure related) fun _ => agree_violate ..

/-- A rule in place of which the rest is checked. -/
theorem agree_broken {broken : Prop} [Decidable broken] {violation violation' : Violation}
    {place : Place} {x : Checked α} {y : Checked β} (rest : Agree R x y) :
    Agree R (if broken then violate violation place else x)
      (if broken then violate violation' place else y) :=
  related_ite (fun _ => agree_violate ..) fun _ => rest

/-- A rule that is checked in front of the rest. -/
theorem agree_unless {γ δ : Type} {S : γ → δ → Prop} {broken : Prop} [Decidable broken]
    {violation violation' : Violation} {place : Place} {next : Unit → Checked γ}
    {next' : Unit → Checked δ} (rest : Agree S (next ()) (next' ())) :
    Agree S (if broken then violate violation place >>= next else next ())
      (if broken then violate violation' place >>= next' else next' ()) :=
  related_ite
    (fun _ => (agree_violate (R := fun _ _ => False) ..).bind fun _ _ => False.elim)
    fun _ => rest

end Checked

/-- A symbol without parts is declared under its new numbers. -/
theorem SymbolTable.Widened.declare {table table' : SymbolTable} (h : table.Widened ins table')
    {symbol : Symbol} (name : Name) (spared : ins.Spares symbol.name) :
    Agree (SymbolTable.Widened ins) (table.declare name symbol)
      (table'.declare name (symbol.renumber ins)) := by
  rw [declare_eq, declare_eq]
  have found : Option.Rel (Symbol.Renumbered ins) (table.findAtDepth? symbol.name symbol.depth)
      (table'.findAtDepth? (symbol.renumber ins).name (symbol.renumber ins).depth) :=
    h.findAtDepth? spared symbol.depth
  rcases rel_cases found with ⟨none, none'⟩ | ⟨previous, previous', found, found', -⟩
  · rw [none, none']
    exact related_pure (h.append rfl rfl)
  · rw [found, found']
    exact agree_violate ..

end PlainC
