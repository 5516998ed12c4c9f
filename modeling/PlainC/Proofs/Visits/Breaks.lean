import Mathlib.Data.List.Nodup
import PlainC.Proofs.Visits.Basic

set_option autoImplicit false

/-!
Where a `break` is refused. A program is refused for a `break` outside of loops just if the check
comes to one that no loop is around; which one it is is known from the place of the fault, since no
two of them are written at one place.
-/

namespace PlainC

open Checked

namespace Fault

/-- If the fault is that a `break` stands outside of loops, then one of the visits is that `break`,
with no loop around it. -/
def IsKnown (visits : List Visit) (fault : Fault) : Prop :=
  fault.cause = .violation .breakOutsideLoop → ∃ scope table semicolon,
    Visit.stmt scope 0 table (.breakLoop fault.place semicolon) ∈ visits

variable {vs ws : List Visit} {fault : Fault}

theorem IsPlain.isKnown (plain : fault.IsPlain) : fault.IsKnown vs := by
  intro isBreak
  cases plain _ isBreak

theorem isKnown_redefinition {name : String} {line : Nat} {place : Place} :
    IsKnown vs ⟨.violation (.redefinition name line), place⟩ := nofun

theorem IsKnown.mono (known : fault.IsKnown vs) (among : vs ⊆ ws) : fault.IsKnown ws := by
  intro isBreak
  obtain ⟨scope, table, semicolon, mem⟩ := known isBreak
  exact ⟨scope, table, semicolon, among mem⟩

end Fault

open Fault

variable {α β : Type} {x : Checked α} {next : α → Checked β} {vs ws : List Visit}

theorem known_of_plain (plain : Plain x) : Refuses (IsKnown vs) x :=
  plain.refuses.mono fun _ => IsPlain.isKnown

theorem known_bind {later : α → List Visit} (first : Refuses (IsKnown vs) x)
    (second : ∀ a, x.Gives a → Refuses (IsKnown (later a)) (next a)) :
    Refuses (IsKnown (vs ++ x.behind later)) (x >>= next) := by
  refine (first.mono fun _ known => known.mono (List.subset_append_left _ _)).bind ?_
  intro a given
  rw [behind_of_gives given]
  exact (second a given).mono fun _ known => known.mono (List.subset_append_right _ _)

/-- Behind a check that comes to nothing. -/
theorem known_behind {later : α → List Visit} (first : Refuses (IsKnown []) x)
    (second : ∀ a, x.Gives a → Refuses (IsKnown (later a)) (next a)) :
    Refuses (IsKnown (x.behind later)) (x >>= next) :=
  known_bind first second

theorem known_cons (visit : Visit) (known : Refuses (IsKnown vs) x) :
    Refuses (IsKnown (visit :: vs)) x :=
  known.mono fun _ known => known.mono (List.subset_cons_self _ _)

/-! ### Declarations -/

theorem known_redefined (name : Name) (line : Nat) :
    Refuses (IsKnown vs) (redefined name line : Checked α) :=
  refuses_violate.mpr isKnown_redefinition

theorem SymbolTable.known_declare (table : SymbolTable) (name : Name) (symbol : Symbol) :
    Refuses (IsKnown vs) (table.declare name symbol) := by
  unfold declare
  split
  · exact refuses_pure _
  · exact known_redefined _ _

theorem Region.known_declare (region : Region) (table : SymbolTable) (name : Name) (ty : Ty) :
    Refuses (IsKnown vs) (region.declare table name ty) := by
  unfold declare
  cases region with
  | topLevel | body depth => exact table.known_declare name _
  | members index struct =>
    simp only
    repeat' split
    · exact known_of_plain (plain_violate rfl)
    · exact known_redefined _ _
    · exact refuses_pure _

theorem Declarator.known_declare (region : Region) (base : Base) (table : SymbolTable)
    (declarator : Declarator) : Refuses (IsKnown vs) (declarator.declare region base table) := by
  refine (known_of_plain (plain_require _ _)).bind fun name _ => ?_
  refine (known_of_plain (declarator.plain_type table region name base)).bind fun ty _ => ?_
  exact region.known_declare table name ty

theorem VarDecl.known_declare (region : Region) (table : SymbolTable) (decl : VarDecl) :
    Refuses (IsKnown vs) (decl.declare region table) := by
  refine (known_of_plain (decl.base.plain_resolve table)).bind fun base _ => ?_
  refine (refuses_foldlM (fun table declarator _ => ?_) table).bind fun table _ => ?_
  · exact declarator.known_declare region base table
  · exact (known_of_plain (plain_requireMark _ _)).bind fun _ _ => refuses_pure _

theorem Param.known_declare (index depth : Nat) (table : SymbolTable) (slot : Slot Param) :
    Refuses (IsKnown vs) (Param.declare index depth table slot) := by
  refine (known_of_plain (plain_require _ _)).bind fun param _ => ?_
  refine (known_of_plain (param.base.plain_resolve table)).bind fun base _ => ?_
  refine (known_of_plain (plain_require _ _)).bind fun name _ => ?_
  refine (known_of_plain param.array.plain_extent).bind fun extent _ => ?_
  exact (table.known_declare name _).bind fun _ _ => refuses_pure _

/-! ### Statements -/

section

variable (scope : FunctionScope)

mutual

theorem Stmt.known_check : ∀ (stmt : Stmt) (loops : Nat) (table : SymbolTable),
    Refuses (IsKnown (stmt.visits scope loops table)) (stmt.check scope loops table)
  | .block opening inner closing, loops, table => by
    simp only [Stmt.check, Stmt.visits]
    refine known_cons _ ((Items.known_check inner loops table).bind fun table _ => ?_)
    exact (known_of_plain (plain_requireMark _ _)).bind fun _ _ => refuses_pure _
  | .ifThen word condition body, loops, table => by
    simp only [Stmt.check, Stmt.visits]
    exact known_cons _ (known_behind (known_of_plain (condition.plain_check table)) fun _ _ =>
      Stmt.known_check body loops table)
  | .ifElse word condition body elseWord otherwise, loops, table => by
    simp only [Stmt.check, Stmt.visits]
    refine known_cons _ (known_behind (known_of_plain (condition.plain_check table)) fun _ _ => ?_)
    exact known_bind (Stmt.known_check body loops table) fun table _ =>
      Stmt.known_check otherwise loops table
  | .whileLoop word condition body, loops, table => by
    simp only [Stmt.check, Stmt.visits]
    exact known_cons _ (known_behind (known_of_plain (condition.plain_check table)) fun _ _ =>
      Stmt.known_check body (loops + 1) table)
  | .forLoop word header body, loops, table => by
    simp only [Stmt.check, Stmt.visits]
    exact known_cons _ (known_behind (known_of_plain (header.plain_check table)) fun _ _ =>
      Stmt.known_check body (loops + 1) table)
  | .breakLoop word semicolon, loops, table => by
    simp only [Stmt.check, Stmt.visits]
    refine refuses_unless ?_ fun _ => ?_
    · rintro rfl -
      exact ⟨scope, table, semicolon, List.mem_cons_self⟩
    · exact (known_of_plain (plain_requireMark _ _)).bind fun _ _ => refuses_pure _
  | .returnValue word value semicolon, loops, table => by
    simp only [Stmt.check]
    refine (known_of_plain (scope.plain_checkReturn table word value)).bind fun _ _ => ?_
    exact (known_of_plain (plain_requireMark _ _)).bind fun _ _ => refuses_pure _
  | .empty semicolon, loops, table => by
    simp only [Stmt.check]
    exact refuses_pure _
  | .expr expr semicolon, loops, table => by
    simp only [Stmt.check]
    refine (known_of_plain (expr.plain_checkUnused table)).bind fun _ _ => ?_
    exact (known_of_plain (plain_requireMark _ _)).bind fun _ _ => refuses_pure _
  | .missing instead, loops, table => by
    simp only [Stmt.check]
    exact known_of_plain (plain_unexpected _ _)

theorem Items.known_check : ∀ (inner : Items) (loops : Nat) (table : SymbolTable),
    Refuses (IsKnown (inner.visits scope loops table)) (inner.check scope loops table)
  | .nil, loops, table => refuses_pure _
  | .decl decl rest, loops, table => by
    simp only [Items.check, Items.visits]
    exact known_cons _ (known_behind (decl.known_declare _ table) fun table _ =>
      Items.known_check rest loops table)
  | .stmt stmt rest, loops, table => by
    simp only [Items.check, Items.visits]
    exact known_bind (Stmt.known_check stmt loops table) fun table _ =>
      Items.known_check rest loops table

end

end

/-! ### Top-level declarations -/

theorem known_fold {σ : Type} {step : σ → α → Checked σ}
    (steps : ∀ s a, Refuses (IsKnown vs) (step s a)) (items : List α) (s : σ) :
    Refuses (IsKnown vs) (items.foldlM step s) :=
  refuses_foldlM (fun s a _ => steps s a) s

namespace Declared

variable (declared : Declared)

theorem known_declareStruct (name : Name) (members : List VarDecl) (closing semicolon : Slot Place) :
    Refuses (IsKnown vs) (declared.declareStruct name members closing semicolon) := by
  unfold declareStruct
  cases declared.table.find? name.value with
  | some previous => exact (known_redefined _ _).bind nofun
  | none =>
    refine (declared.table.known_declare name _).bind fun table _ => ?_
    refine (known_fold (VarDecl.known_declare _) members table).bind fun table _ => ?_
    refine (known_of_plain (plain_requireMark _ _)).bind fun _ _ => ?_
    refine (known_of_plain (plain_requireMark _ _)).bind fun _ _ => ?_
    exact (refuses_write _).bind fun _ _ => refuses_pure _

theorem known_declareFunction (result : ResultType) (name : Name) (params : List (Slot Param))
    (closing : Slot Place) (body : Slot Block) :
    Refuses (IsKnown (declared.visitsOfFunction result name params closing body))
      (declared.declareFunction result name params closing body) := by
  unfold declareFunction visitsOfFunction
  simp only
  refine known_behind (known_of_plain (result.plain_resolve declared.table)) fun ty _ => ?_
  refine known_behind (declared.table.known_declare name _) fun table _ => ?_
  refine known_behind (known_fold (Param.known_declare _ _) params table) fun table _ => ?_
  refine known_behind (known_of_plain (plain_requireMark _ _)) fun _ _ => ?_
  refine known_behind (known_of_plain (plain_require _ _)) fun block _ => ?_
  refine Refuses.bind ?_ fun _ _ => (refuses_write _).bind fun _ _ => refuses_pure _
  refine (Items.known_check _ block.items 0 table).bind fun _ _ => ?_
  exact (known_of_plain (plain_requireMark _ _)).bind fun _ _ => refuses_pure _

end Declared

theorem Decl.known_check (decl : Decl) (declared : Declared) :
    Refuses (IsKnown (decl.visits declared)) (decl.check declared) := by
  cases decl with
  | struct word name opening members closing semicolon =>
    exact declared.known_declareStruct name members closing semicolon
  | function result name opening params closing body =>
    refine (refuses_of_gives result.gives_noteStruct).bind fun _ _ => ?_
    exact declared.known_declareFunction result name _ closing body
  | vars tried decl =>
    refine (refuses_of_gives decl.base.gives_noteStruct).bind fun _ _ => ?_
    refine (known_of_plain (decl.base.plain_resolve declared.table)).bind fun _ _ => ?_
    refine (refuses_of_gives (gives_noteFunction _ _)).bind fun _ _ => ?_
    exact (decl.known_declare .topLevel declared.table).bind fun _ _ => refuses_pure _
  | missing tried instead =>
    refine (refuses_of_gives (gives_noteFunction _ _)).bind fun _ _ => ?_
    exact known_of_plain (plain_unexpected _ _)

namespace Program

theorem known_foldlM (decls : List Decl) (declared : Declared) :
    Refuses (IsKnown (visitsFrom declared decls)) (decls.foldlM Decl.check declared) := by
  induction decls generalizing declared with
  | nil => exact refuses_pure _
  | cons decl decls ih =>
    rw [List.foldlM_cons]
    exact known_bind (decl.known_check declared) fun declared _ => ih declared

theorem known_tableOfDecls (decls : List Decl) :
    Refuses (IsKnown (visitsFrom ⟨.initial, 0⟩ decls)) (tableOfDecls decls) :=
  (known_foldlM decls ⟨.initial, 0⟩).bind fun _ _ => refuses_pure _

end Program

/-! ### Places -/

/-- The place of the word, if it is a `break`. -/
def Item.breakWord? : Item → Option Place
  | .stmt (.breakLoop word _) => some word
  | _ => none

/-- The places of the words `break`. -/
def breakWords (items : List (Nat × Item)) : List Place :=
  items.filterMap fun item => item.2.breakWord?

def placesOf (parts : Parts) : List Place := (lexemesOf parts).map At.place

theorem breakWords_append (items items' : List (Nat × Item)) :
    breakWords (items ++ items') = breakWords items ++ breakWords items' :=
  List.filterMap_append

theorem placesOf_append (ps qs : Parts) : placesOf (ps ++ qs) = placesOf ps ++ placesOf qs := by
  rw [placesOf, lexemesOf_append, List.map_append, placesOf, placesOf]

theorem breakWords_decls (decls : List VarDecl) :
    breakWords (decls.map fun decl => (0, .decl decl)) = [] := by
  rw [breakWords, List.filterMap_map]
  exact List.filterMap_eq_nil_iff.mpr fun _ _ => rfl

/-- What is written around it makes no difference. -/
theorem sublist_places {words : List Place} {ps : Parts} (front behind : Parts)
    (h : words.Sublist (placesOf ps)) : words.Sublist (placesOf (front ++ ps ++ behind)) := by
  rw [placesOf_append, placesOf_append]
  exact (h.trans (List.sublist_append_right _ _)).trans (List.sublist_append_left _ _)

theorem sublist_places_behind {words : List Place} {ps : Parts} (front : Parts)
    (h : words.Sublist (placesOf ps)) : words.Sublist (placesOf (front ++ ps)) := by
  rw [placesOf_append]
  exact h.trans (List.sublist_append_right _ _)

mutual

theorem Stmt.sublist_breakWords : ∀ (stmt : Stmt) (loops : Nat),
    (breakWords (stmt.items loops)).Sublist (placesOf stmt.parts)
  | .block _ inner _, loops => sublist_places _ _ (Items.sublist_breakWords inner loops)
  | .ifThen _ _ body, loops => sublist_places_behind _ (Stmt.sublist_breakWords body loops)
  | .ifElse word condition body elseWord otherwise, loops => by
    have first := sublist_places (Keyword.ifKw.part word ++ condition.parts)
      (Keyword.elseKw.part elseWord) (Stmt.sublist_breakWords body loops)
    have both := first.append (Stmt.sublist_breakWords otherwise loops)
    rwa [← breakWords_append, ← placesOf_append] at both
  | .whileLoop _ _ body, loops | .forLoop _ _ body, loops =>
    sublist_places_behind _ (Stmt.sublist_breakWords body (loops + 1))
  | .breakLoop word _, _ => List.Sublist.cons_cons word (List.nil_sublist _)
  | .returnValue _ _ _, _ | .empty _, _ | .expr _ _, _ | .missing _, _ => List.nil_sublist _

theorem Items.sublist_breakWords : ∀ (inner : Items) (loops : Nat),
    (breakWords (inner.items loops)).Sublist (placesOf inner.parts)
  | .nil, _ => List.nil_sublist _
  | .decl _ rest, loops => sublist_places_behind _ (Items.sublist_breakWords rest loops)
  | .stmt stmt rest, loops => by
    simp only [Items.items, Items.parts, breakWords_append, placesOf_append]
    exact (Stmt.sublist_breakWords stmt loops).append (Items.sublist_breakWords rest loops)

end

theorem Decl.sublist_breakWords (decl : Decl) :
    (breakWords decl.items).Sublist (placesOf decl.parts) := by
  cases decl with
  | struct word name opening members closing semicolon =>
    rw [items, breakWords_decls]
    exact List.nil_sublist _
  | function result name opening params closing body =>
    cases body with
    | missing instead => exact List.nil_sublist _
    | found block =>
      have inside := sublist_places (Delimiter.leftBrace.part block.opening)
        (block.closing.parts Delimiter.rightBrace.part) (block.items.sublist_breakWords 0)
      exact sublist_places_behind _ inside
  | vars tried decl => exact List.nil_sublist _
  | missing tried instead => exact List.nil_sublist _

theorem sublist_breakWords_decls (decls : List Decl) :
    (breakWords (decls.flatMap Decl.items)).Sublist (placesOf (decls.flatMap Decl.parts)) := by
  induction decls with
  | nil => exact List.nil_sublist _
  | cons decl decls ih =>
    rw [List.flatMap_cons, List.flatMap_cons, breakWords_append, placesOf_append]
    exact decl.sublist_breakWords.append ih

theorem Lexeme.map_index_number (index : Nat) (tokens : List Token) :
    (number index tokens).map (fun lexeme => lexeme.place.index) =
      List.range' index tokens.length := by
  induction tokens generalizing index with
  | nil => rfl
  | cons token tokens ih => rw [number, List.map_cons, ih, List.length_cons, List.range'_succ]

/-- Of a list, what a test gives the same of twice stands there twice. -/
theorem eq_of_nodup_filterMap {f : α → Option β} {items : List α}
    (distinct : (items.filterMap f).Nodup) {a a' : α} {b : β} (mem : a ∈ items)
    (mem' : a' ∈ items) (gives : f a = some b) (gives' : f a' = some b) : a = a' := by
  induction items with
  | nil => cases mem
  | cons item items ih =>
    have only : ∀ c ∈ items, f c = some b → f item = some b → False := by
      intro c among found head
      rw [List.filterMap_cons_some head, List.nodup_cons] at distinct
      exact distinct.1 (List.mem_filterMap.mpr ⟨c, among, found⟩)
    rcases List.mem_cons.mp mem with rfl | among <;> rcases List.mem_cons.mp mem' with rfl | among'
    · rfl
    · exact (only a' among' gives' gives).elim
    · exact (only a among gives gives').elim
    · refine ih (distinct.sublist ?_) among among'
      exact (List.sublist_cons_self item items).filterMap f

namespace Program

variable {tokens : List Token}

theorem decls_of_not_ends (others : ¬Ends tokens) : decls tokens = [] := by
  cases found : (Lexeme.number 0 tokens).getLast? with
  | none => simp only [decls, found]
  | some final =>
    have other : final.value ≠ .endOfInput :=
      fun isEnd => others (ends_iff.mpr ⟨final, found, isEnd⟩)
    simp only [decls, found, ne_eq, other, not_false_eq_true, if_true]

theorem ends_of_visits {visit : Visit} (among : visit ∈ visits tokens) : Ends tokens := by
  by_contra others
  rw [visits, decls_of_not_ends others] at among
  cases among

/-- The declarations are those of the front of the tokens, which is read up to some point. -/
theorem exists_front_eq (tokens : List Token) :
    ∃ rest, front tokens = lexemesOf ((decls tokens).flatMap Decl.parts) ++ rest := by
  by_cases ends : Ends tokens
  · obtain ⟨final, found, isEnd⟩ := ends_iff.mp ends
    have read : ∃ last, decls tokens = (Decl.parseAll last (front tokens)).1 := by
      refine ⟨(Lexeme.number 0 tokens)[(front tokens).length]?.getD final, ?_⟩
      simp only [decls, found, isEnd, ne_eq, not_true_eq_false, if_false]
    obtain ⟨last, read⟩ := read
    obtain ⟨all, rest, reads, spans, -, -⟩ := Decl.parseAll_reads last (front tokens)
    rw [read, reads]
    exact ⟨rest, spans.eq_append⟩
  · rw [decls_of_not_ends ends]
    exact ⟨front tokens, rfl⟩

/-- No two words `break` are at one place. -/
theorem nodup_breakWords (tokens : List Token) :
    (breakWords ((decls tokens).flatMap Decl.items)).Nodup := by
  obtain ⟨rest, read⟩ := exists_front_eq tokens
  have inFront : (placesOf ((decls tokens).flatMap Decl.parts)).Sublist
      ((Lexeme.number 0 tokens).map At.place) := by
    have written : (lexemesOf ((decls tokens).flatMap Decl.parts)).Sublist (front tokens) :=
      read ▸ List.sublist_append_left _ _
    exact (written.trans (List.takeWhile_sublist _)).map At.place
  have distinct : ((Lexeme.number 0 tokens).map At.place).Nodup := by
    refine List.Nodup.of_map Place.index ?_
    rw [List.map_map]
    exact (Lexeme.map_index_number 0 tokens).symm ▸ List.nodup_range'
  exact ((sublist_breakWords_decls _).trans inFront).nodup distinct

/-- The analysis refuses a `break` that it comes to just if there is no loop around it. -/
theorem refused_break_iff {scope : FunctionScope} {loops : Nat} {table : SymbolTable} {word : Place}
    {semicolon : Slot Place}
    (reached : .stmt scope loops table (.breakLoop word semicolon) ∈ visits tokens) :
    (ofTokens tokens).result = .error ⟨.violation .breakOutsideLoop, word⟩ ↔ loops = 0 := by
  have visits := visits_tableOfDecls (decls tokens)
  rw [ofTokens_result_decls (ends_of_visits reached), result_map_eq_error]
  constructor
  · intro refused
    obtain ⟨scope', table', semicolon', outside⟩ := known_tableOfDecls (decls tokens) _ refused rfl
    have written (visit : Visit) (among : visit ∈ Program.visits tokens) :
        visit.item ∈ (decls tokens).flatMap Decl.items :=
      visits.first.subset (List.mem_map_of_mem among)
    have same := eq_of_nodup_filterMap (nodup_breakWords tokens) (written _ reached)
      (written _ outside) rfl rfl
    exact congrArg Prod.fst same
  · rintro rfl
    exact visits.fails _ reached _ rfl

end Program

end PlainC
