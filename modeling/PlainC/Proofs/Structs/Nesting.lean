import Mathlib.Data.List.Chain
import Mathlib.Logic.Relation
import PlainC.Proofs.Machine.Collisions
import PlainC.Proofs.Structs.Analysis

set_option autoImplicit false

/-!
Nesting: a struct is declared behind all structs that its members are, or are arrays of. So a chain
of members goes down the table, which ends it, and it does not get back to where it began.
-/

namespace PlainC

open Checked Machine

namespace SymbolTable

/-- The struct with the first index has a member that is, or is an array of, the one with the
second index. -/
def Contains (table : SymbolTable) (i j : Nat) : Prop :=
  ∃ struct, table.structAt? i = some struct ∧ ∃ member ∈ struct.members, member.ty.base = .struct j

/-- The nesting of structs is well founded. -/
structure WellNested (table : SymbolTable) : Prop where
  below : ∀ i j, table.Contains i j → j < i
  /-- What is contained is declared as a struct. -/
  declared : ∀ i j, table.Contains i j → ∃ struct, table.structAt? j = some struct
  acyclic : ∀ i, ¬Relation.TransGen table.Contains i i
  wellFounded : WellFounded fun j i => table.Contains i j
  /-- From the struct with an index on, a chain of members has no more links than the index says. -/
  bounded : ∀ i chain, List.IsChain table.Contains (i :: chain) → chain.length ≤ i

/-- Each struct among the symbols has only members with types that are declared in front of it. -/
def Descending (symbols : List Symbol) : Prop :=
  ∀ (i : Nat) (struct : Symbol), symbols[i]? = some struct → struct.cls = .struct →
    ∀ member ∈ struct.members, ∀ j, member.ty.base = .struct j → j < i

section

variable {table : SymbolTable}

theorem lt_of_contains (descending : Descending table.symbols) {i j : Nat}
    (contains : table.Contains i j) : j < i := by
  obtain ⟨struct, found, member, inside, same⟩ := contains
  obtain ⟨at_index, isStruct⟩ := structAt?_iff.mp found
  exact descending i struct at_index isStruct member inside j same

theorem lt_of_transGen (descending : Descending table.symbols) {i j : Nat}
    (chain : Relation.TransGen table.Contains i j) : j < i := by
  induction chain with
  | single contains => exact lt_of_contains descending contains
  | tail _ contains ih => exact Nat.lt_trans (lt_of_contains descending contains) ih

theorem length_le_of_isChain (descending : Descending table.symbols) (chain : List Nat) :
    ∀ i, List.IsChain table.Contains (i :: chain) → chain.length ≤ i := by
  induction chain with
  | nil => exact fun i _ => Nat.zero_le i
  | cons j chain ih =>
    intro i linked
    obtain ⟨contains, linked⟩ := List.isChain_cons_cons.mp linked
    exact Nat.lt_of_le_of_lt (ih j linked) (lt_of_contains descending contains)

theorem wellNested (descending : Descending table.symbols) (grounded : table.Grounded) :
    table.WellNested where
  below _ _ := lt_of_contains descending
  declared _ j := by
    rintro ⟨struct, found, member, inside, same⟩
    have mem := List.mem_of_getElem? (structAt?_iff.mp found).1
    exact (knows_member grounded mem inside j same).2
  acyclic i cycle := absurd (lt_of_transGen descending cycle) (Nat.lt_irrefl i)
  wellFounded := Subrelation.wf (lt_of_contains descending) Nat.lt_wfRel.wf
  bounded i chain := length_le_of_isChain descending chain i

end

/-! ### Changes -/

section

variable {symbols : List Symbol}

theorem Descending.append (descending : Descending symbols) {symbol : Symbol}
    (empty : symbol.cls = .struct → symbol.members = []) :
    Descending (symbols ++ [symbol]) := by
  intro i struct found isStruct member inside j same
  rw [List.getElem?_append] at found
  split at found
  · exact descending i struct found isStruct member inside j same
  · obtain rfl := List.mem_singleton.mp (List.mem_of_getElem? found)
    rw [empty isStruct] at inside
    cases inside

/-- A change that can add a member of a type in front of the struct. -/
theorem Descending.modify (descending : Descending symbols) {index : Nat}
    {change : Symbol → Symbol} (cls : ∀ symbol, (change symbol).cls = symbol.cls)
    (members : ∀ symbol, ∀ member ∈ (change symbol).members, member ∈ symbol.members ∨
      ∀ j, member.ty.base = .struct j → j < index) :
    Descending (symbols.modify index change) := by
  intro i struct found isStruct member inside j same
  rw [List.getElem?_modify] at found
  obtain ⟨symbol, at_index, changed⟩ := Option.map_eq_some_iff.mp found
  split at changed
  · rename_i here
    subst here changed
    rcases members symbol member inside with old | below
    · exact descending index symbol at_index ((cls symbol).symm.trans isStruct) member old j same
    · exact below j same
  · subst changed
    exact descending i symbol at_index isStruct member inside j same

theorem Descending.take (descending : Descending symbols) (size : Nat) :
    Descending (symbols.take size) := by
  intro i struct found
  have inside := (List.getElem?_eq_some_iff.mp found).1
  rw [List.length_take, Nat.lt_min] at inside
  rw [List.getElem?_take_of_lt inside.1] at found
  exact descending i struct found

theorem descending_externals : Descending externals := by
  intro i struct found isStruct
  have noStruct : ∀ symbol ∈ externals, symbol.cls = .external := by decide
  have other := noStruct struct (List.mem_of_getElem? found)
  cases isStruct.symm.trans other

end

end SymbolTable

namespace Machine

open SymbolTable (Descending)

/-! ### Steps -/

/-- The structs go down the symbols, and the struct that the machine is in is the last symbol. -/
structure Core.Nested (core : Core) : Prop where
  descending : Descending core.symbols
  latest : ∀ index, core.site = .struct index → core.symbols.length = index + 1

variable {core core' : Core} {declared : List Declaration}

/-- Apart from the declaration of a member, no transition adds one to a struct. -/
theorem Core.Nested.transition (nested : core.Nested) (h : Transition core declared core')
    (noMember : ∀ decl ∈ declared, ∀ index, decl.role ≠ .member index) : core'.Nested := by
  have notStruct {decl : Declaration} {symbol : Symbol} (entry : symbol.entry = decl.entry)
      (other : decl.role.cls ≠ .struct) (isStruct : symbol.cls = .struct) : symbol.members = [] :=
    absurd ((congrArg Entry.cls entry).symm.trans isStruct) other
  cases h with
  | stay => exact nested
  | globalVar fresh entry => exact ⟨nested.descending.append (notStruct entry nofun), nofun⟩
  | enterStruct fresh entry empty =>
    refine ⟨nested.descending.append fun _ => empty, ?_⟩
    rintro _ ⟨⟩
    exact List.length_append
  | member => exact absurd rfl (noMember _ (List.mem_singleton_self _) _)
  | leaveStruct | enterBody => exact ⟨nested.descending, nofun⟩
  | enterFunction fresh entry => exact ⟨nested.descending.append (notStruct entry nofun), nofun⟩
  | parameter fresh entry =>
    refine ⟨(nested.descending.append (notStruct entry nofun)).modify (fun _ => rfl) ?_, nofun⟩
    exact fun _ _ old => .inl old
  | localVar fresh entry => exact ⟨nested.descending.append (notStruct entry nofun), nofun⟩
  | leaveFunction => exact ⟨nested.descending.take _, nofun⟩

/-- A member is no struct of the index that it is declared under. -/
theorem base_ne_of_declare {index : Nat} {struct : String} {table table' : SymbolTable}
    {name : Name} {ty : Ty}
    (h : ((Region.members index struct).declare table name ty).Gives table') :
    ty.base ≠ .struct index := by
  intro same
  simp [Region.declare, same] at h

variable {s s' : State}

/-- The types of members are known, and so they are those of structs up to the one that the machine
is in; and that one is refused. -/
theorem nested_member (grounded : s.Grounded) (nested : s.core.Nested) {pending : Pending}
    (underway : s.context.pending = some pending) {index : Nat}
    (inside : s.context.site = .struct index) (h : s.step.Gives s') : s'.core.Nested := by
  have latest := nested.latest index inside
  cases move_of_gives h with
  | @leaveVars context =>
    exact ⟨nested.descending, fun place here => nested.latest place
      ((site_setPending context _).symm.trans here)⟩
  | @declarator context table table' _ _ base declarator _ _ underway' declared =>
    obtain rfl := Option.some.inj (underway.symm.trans underway')
    obtain ⟨name, ty, -, typed, declared⟩ := Declarator.gives_declare.mp declared
    have known := grounded.pending _ underway
    have base := (declarator.ends_type grounded.table known).gives ty typed
    rw [← base] at known
    obtain ⟨struct, region⟩ : ∃ struct, context.region = .members index struct := by
      cases context <;> cases inside
      exact ⟨_, rfl⟩
    rw [region] at declared
    have other := base_ne_of_declare declared
    have symbols := Region.symbols_declare declared
    -- the struct itself is the last symbol, and the member is not of its type
    have below (j : Nat) (same : ty.base = .struct j) : j < index := by
      have size : table.symbols.length = index + 1 := latest
      have lt : j < table.symbols.length := (known j same).1
      have ne : j ≠ index := fun this => other (this ▸ same)
      omega
    refine ⟨?_, fun place here => ?_⟩
    · change Descending table'.symbols
      rw [symbols]
      refine nested.descending.modify (fun _ => rfl) fun owner member mem => ?_
      rcases List.mem_append.mp mem with old | new
      · exact .inl old
      · obtain rfl := List.mem_singleton.mp new
        exact .inr below
    · change table'.symbols.length = place + 1
      rw [symbols, List.length_modify]
      exact nested.latest place ((site_setPending context _).symm.trans here)
  | _ => cases underway

/-- Only in a struct, and in a declaration that is underway, the machine declares a member. -/
theorem site_of_declares_member {decl : Declaration} {index : Nat} (among : decl ∈ s.declares)
    (isMember : decl.role = .member index) :
    ∃ pending, s.context.pending = some pending ∧ s.context.site = .struct index := by
  obtain ⟨context, table, functions, decls⟩ := s
  unfold State.declares at among
  split at among
  · rename_i pending underway
    refine ⟨pending, underway, ?_⟩
    split at among
    · obtain rfl := List.mem_singleton.mp among
      cases context <;> cases isMember
      rfl
    · cases among
  · split at among
    case h_4 => cases among
    all_goals
      obtain rfl := List.mem_singleton.mp among
      cases isMember

theorem nested_step (grounded : s.Grounded) (nested : s.core.Nested) (h : s.step.Gives s') :
    s'.core.Nested := by
  by_cases member : ∃ decl ∈ s.declares, ∃ index, decl.role = .member index
  · obtain ⟨decl, among, index, isMember⟩ := member
    obtain ⟨pending, underway, inside⟩ := site_of_declares_member among isMember
    exact nested_member grounded nested underway inside h
  · exact nested.transition (transition_step h) fun decl among index isMember =>
      member ⟨decl, among, index, isMember⟩

theorem Reachable.nested {decls : List Decl} {past : List Declaration}
    (h : Reachable decls past s) : s.core.Nested := by
  induction h with
  | start =>
    refine ⟨?_, nofun⟩
    change Descending SymbolTable.initial.symbols
    rw [SymbolTable.symbols_initial]
    exact SymbolTable.descending_externals
  | step reached given ih => exact nested_step reached.grounded ih given

theorem Reachable.wellNested {decls : List Decl} {past : List Declaration}
    (h : Reachable decls past s) : s.table.WellNested :=
  SymbolTable.wellNested h.nested.descending h.grounded.table

end Machine

namespace Program

/-- The analysis of any tokens is a run of the machine, in all states of which the nesting of structs
is well founded; and so it is in each accepted program. -/
theorem ofTokens_wellNested (tokens : List Token) : ∃ last : Lexeme, last.value = .endOfInput ∧
    (∀ past s, Reachable (Decl.parseAll last (front tokens)).1 past s → s.table.WellNested) ∧
    (∀ program, (ofTokens tokens).result = .ok program → program.table.WellNested ∧
      ∃ past s, Reachable (Decl.parseAll last (front tokens)).1 past s ∧ s.Done ∧
        s.table = program.table) ∧
    ∀ fault, (ofTokens tokens).result = .error fault → ¬Ends tokens ∨
      ∃ past s, Reachable (Decl.parseAll last (front tokens)).1 past s ∧
        s.step.result = .error fault := by
  by_cases ends : Ends tokens
  · obtain ⟨last, isEnd, accepts, refuses⟩ := ofTokens_iff_reachable ends
    refine ⟨last, isEnd, fun past s reachable => reachable.wellNested, ?_, ?_⟩
    · intro program accepted
      obtain ⟨past, s, reachable, done, rfl⟩ := (accepts program).mp accepted
      exact ⟨reachable.wellNested, past, s, reachable, done, rfl⟩
    · exact fun fault refused => .inr ((refuses fault).mp refused)
  · refine ⟨⟨.endOfInput, ⟨0, ⟨0, 0⟩, 1⟩⟩, rfl, fun past s reachable => reachable.wellNested, ?_,
      fun _ _ => .inl ends⟩
    exact fun program accepted => absurd (ends_of_accepted accepted) ends

end Program

end PlainC
