import PlainC.Proofs.Loops.Counting
import PlainC.Proofs.Loops.Values
import PlainC.Proofs.Reading.Stmt.Lexemes
import PlainC.Proofs.Visits.Basic

set_option autoImplicit false

/-!
The statements that the parser enters in the trees that are read. Each declaration of variables and
each statement of a function that it enters is one that the check of the function comes to, with as
many loops around it.
-/

namespace PlainC

/-! ### Where trees begin -/

theorem VarDecl.start_of_parse? {decl : VarDecl} {last : Lexeme} {ts rest : List Lexeme}
    (h : VarDecl.parse? last ts = (some decl, rest)) : decl.start = (ts.headD last).place := by
  obtain ⟨base, rest', hbase, -, t, behind, rfl, -⟩ | ⟨-, hbase⟩ := BaseName.parse?_cases last ts
  · obtain ⟨read, same⟩ := VarDecl.parse?_some_of_base hbase
    obtain rfl := Option.some.inj (congrArg Prod.fst (read.symm.trans h))
    rw [VarDecl.start, same]
    exact BaseName.start_of_parse? hbase rfl
  · simp [VarDecl.parse?, hbase] at h

namespace Stmt

theorem start_parseIf (nested : Parse Stmt) (word : Place) (last : Lexeme) (ts : List Lexeme) :
    (parseIf nested word last ts).1.start = word := by
  simp only [parseIf, Parse.bind_apply]
  generalize Parse.keyword? .elseKw last _ = found
  rcases found with ⟨_ | elseWord, rest⟩ <;> rfl

theorem start_parseWhile (nested : Parse Stmt) (word : Place) (last : Lexeme) (ts : List Lexeme) :
    (parseWhile nested word last ts).1.start = word := by
  rw [parseWhile, Parse.bind_apply, Parse.bind_apply, Parse.pure_apply, start]

theorem start_parseFor (nested : Parse Stmt) (word : Place) (last : Lexeme) (ts : List Lexeme) :
    (parseFor nested word last ts).1.start = word := by
  rw [parseFor, Parse.bind_apply, Parse.bind_apply, Parse.pure_apply, start]

theorem start_parseReturn (word : Place) (last : Lexeme) (ts : List Lexeme) :
    (parseReturn word last ts).1.start = word := by
  rw [parseReturn, Parse.bind_apply, Parse.bind_apply, Parse.pure_apply, start]

theorem start_parseExpr (last : Lexeme) (ts : List Lexeme) :
    (parseExpr last ts).1.start = (ts.headD last).place := by
  by_cases begins : Expr.canBegin (ts.headD last).value
  · rw [parseExpr_of_begins begins, start]
    exact Expr.parse_begins last ts
  · simp [parseExpr, begins, start, -List.headD_eq_head?_getD]

/-- A statement begins at the next lexeme. -/
theorem parseWithin_begins (fuel : Nat) (last : Lexeme) (ts : List Lexeme) :
    (parseWithin fuel last ts).1.start = (ts.headD last).place := by
  cases fuel with
  | zero => rfl
  | succ fuel =>
    rcases Parse.token?_cases (.delimiter .leftBrace) last ts with
        ⟨opening, inside, rfl, hopen⟩ | ⟨-, hopen⟩
    · simp [parseWithin, Block.parse?, Parse.mark?, hopen, start]
    have hblock : Block.parse? (parseWithin fuel) last ts = (none, ts) := by
      simp [Block.parse?, Parse.mark?, hopen]
    rcases Parse.token?_cases (.keyword .ifKw) last ts with ⟨word, rest, rfl, -⟩ | ⟨-, hif⟩
    · rw [parseWithin_if, start_parseIf, List.headD_cons]
    rcases Parse.token?_cases (.keyword .whileKw) last ts with ⟨word, rest, rfl, -⟩ | ⟨-, hwhile⟩
    · rw [parseWithin_while, start_parseWhile, List.headD_cons]
    rcases Parse.token?_cases (.keyword .forKw) last ts with ⟨word, rest, rfl, -⟩ | ⟨-, hfor⟩
    · rw [parseWithin_for, start_parseFor, List.headD_cons]
    rcases Parse.token?_cases (.keyword .breakKw) last ts with ⟨word, rest, rfl, hbreak⟩ | ⟨-, hbreak⟩
    · simp [parseWithin, hblock, Parse.keyword?, hif, hwhile, hfor, hbreak, start]
    rcases Parse.token?_cases (.keyword .returnKw) last ts with ⟨word, rest, rfl, -⟩ | ⟨-, hreturn⟩
    · rw [parseWithin_return, start_parseReturn, List.headD_cons]
    rcases Parse.token?_cases (.delimiter .semicolon) last ts with
        ⟨semicolon, rest, rfl, hempty⟩ | ⟨-, hempty⟩
    · simp [parseWithin, hblock, Parse.keyword?, hif, hwhile, hfor, hbreak, hreturn, Parse.mark?,
        hempty, start]
    have read : parseWithin (fuel + 1) last ts = parseExpr last ts := by
      simp [parseWithin, hblock, Parse.keyword?, hif, hwhile, hfor, hbreak, hreturn, Parse.mark?,
        hempty]
    rw [read, start_parseExpr]

theorem parseWithin_break (fuel : Nat) (last : Lexeme) (word : Place) (ts : List Lexeme) :
    ∃ semicolon, (parseWithin (fuel + 1) last (⟨.keyword .breakKw, word⟩ :: ts)).1 =
      .breakLoop word semicolon := by
  simp [parseWithin, block_of_ne, keyword_of_ne, Parse.keyword?_of_head]

theorem parseWithin_block (fuel : Nat) (last : Lexeme) (opening : Place) (ts : List Lexeme) :
    ∃ closing, (parseWithin (fuel + 1) last (⟨.delimiter .leftBrace, opening⟩ :: ts)).1 =
      .block opening (Parse.bounded (Items.parseWithin (parseWithin fuel)) last ts).1 closing := by
  simp [parseWithin, Block.parse?, Parse.mark?, Parse.token?_of_head]

end Stmt

/-- Behind a statement that is read come the other items, unless it is refused. -/
theorem Items.visits_parseWithin_of_stmt {nested : Parse Stmt} {fuel : Nat} {last : Lexeme}
    {ts : List Lexeme} (scope : FunctionScope) (loops : Nat) (table : SymbolTable)
    (goesOn : GoesOn last ts) (read : VarDecl.parse? last ts = (none, ts)) :
    (parseWithin nested (fuel + 1) last ts).1.visits scope loops table =
      (nested last ts).1.visits scope loops table ++
        ((nested last ts).1.check scope loops table).behind fun table =>
          (parseWithin nested fuel last (nested last ts).2).1.visits scope loops table := by
  rcases hstmt : nested last ts with ⟨stmt, rest⟩
  by_cases isThere : ∀ instead, stmt ≠ .missing instead
  · rw [parseWithin_of_stmt goesOn read hstmt isThere rfl, visits]
  · obtain ⟨instead, missing⟩ := not_forall.mp isThere
    obtain rfl := not_not.mp missing
    rw [parseWithin_of_missing goesOn read hstmt, visits]
    rfl

namespace Guarded

open Cursor (Barrier Clear ahead)
open Cursor.Parser (atEnd match? sees unlessEnded)
open Checked (gives_bind gives_pure mem_behind)

/-- The index of a token is that of its place. -/
def Indexed (tape : List Lexeme) : Prop :=
  ∀ index (lexeme : Lexeme), tape[index]? = some lexeme → lexeme.place.index = index

/-- The parser is in front of what is visited, in the same region, with as many loops around it and
the same table. -/
structure State.IsAt (s : State) (tape : List Lexeme) (visit : Visit) : Prop where
  start : visit.start.index = s.position
  region : visit.region = s.context.region
  loops : visit.loops = s.loopDepth
  table : visit.table = s.table
  /-- In front of the word `break` it is a statement with that word. -/
  breaks : ∀ word, tape[s.position]? = some ⟨.keyword .breakKw, word⟩ →
    ∃ scope semicolon, visit = .stmt scope s.loopDepth s.table (.breakLoop word semicolon)

/-- A function is open. -/
def Context.IsFunction (context : Context) : Prop :=
  ∃ index depth opened, context = .function index depth opened

variable {tape : List Lexeme} {frames : List Frame} {s s' : State} {α β : Type}

namespace Tracked

/-- Whatever of a function is entered is one of the visits; and if the part comes to a value, the
postcondition holds. -/
structure Visits (part : Tracked α) (frames : List Frame) (tape : List Lexeme) (s : State)
    (visits : List Visit) (post : α → State → Prop) : Prop where
  entries : ∀ entry ∈ part.entries frames tape s, entry.entered.context.IsFunction →
    ∃ visit ∈ visits, entry.entered.IsAt tape visit
  comes : (part.parser tape s).Comes post

variable {visits visits' : List Visit} {post post' : α → State → Prop}

theorem Visits.mono {part : Tracked α} (h : part.Visits frames tape s visits post)
    (more : ∀ visit ∈ visits, visit ∈ visits') (weaker : ∀ a s, post a s → post' a s) :
    part.Visits frames tape s visits' post' := by
  refine ⟨fun entry among inside => ?_, h.comes.mono weaker⟩
  obtain ⟨visit, among, isAt⟩ := h.entries entry among inside
  exact ⟨visit, more visit among, isAt⟩

/-- What the part comes to does not matter. -/
theorem Visits.forget {part : Tracked α} (h : part.Visits frames tape s visits post)
    (more : ∀ visit ∈ visits, visit ∈ visits') :
    part.Visits frames tape s visits' fun _ _ => True :=
  h.mono more fun _ _ _ => trivial

/-- What the part comes to is known from elsewhere. -/
theorem Visits.come {part : Tracked α}
    (h : part.Visits frames tape s visits post) (comes : (part.parser tape s).Comes post') :
    part.Visits frames tape s visits post' :=
  ⟨h.entries, comes⟩

theorem visits_plain {parser : Parser α} (comes : (parser tape s).Comes post) :
    (plain parser).Visits frames tape s visits post :=
  ⟨List.forall_mem_nil _, comes⟩

theorem visits_pure {a : α} (holds : post a s) :
    (pure a : Tracked α).Visits frames tape s visits post := by
  refine visits_plain ?_
  rintro _ _ ⟨⟩
  exact holds

/-- At the end nothing more is entered. -/
theorem visits_last (parser : Parser α) :
    (plain parser).Visits frames tape s visits fun _ _ => True :=
  visits_plain fun _ _ _ => trivial

theorem Visits.bind {part : Tracked α} {next : α → Tracked β} {behind : β → State → Prop}
    (first : part.Visits frames tape s visits post)
    (second : ∀ a s', post a s' → (next a).Visits frames tape s' visits behind) :
    (part >>= next).Visits frames tape s visits behind := by
  have result := Parser.bind_result part.parser (fun a => (next a).parser) tape s
  have entries := entries_bind part next frames tape s
  rcases run : (part.parser tape s).result with trap | ⟨fault | a, s'⟩ <;> rw [run] at result entries
  · rw [List.append_nil] at entries
    exact ⟨entries ▸ first.entries, fun _ _ ends => (nomatch result.symm.trans ends)⟩
  · rw [List.append_nil] at entries
    exact ⟨entries ▸ first.entries, fun _ _ ends => (nomatch result.symm.trans ends)⟩
  · have later := second a s' (first.comes _ _ run)
    refine ⟨?_, fun _ _ ends => later.comes _ _ (result.symm.trans ends)⟩
    rw [entries]
    exact List.forall_mem_append.mpr ⟨first.entries, later.entries⟩

theorem Visits.entering {part : Tracked α} (h : part.Visits frames tape s visits post)
    (here : s.context.IsFunction → ∃ visit ∈ visits, s.IsAt tape visit) :
    (entering part).Visits frames tape s visits post :=
  ⟨List.forall_mem_cons.mpr ⟨here, h.entries⟩, h.comes⟩

theorem Visits.within {part : Tracked α} {frame : Frame}
    (h : part.Visits (frame :: frames) tape s visits post) :
    (within frame part).Visits frames tape s visits post :=
  ⟨h.entries, h.comes⟩

theorem visits_bounded {part : Nat → Tracked α}
    (h : (part (tape.length + 1)).Visits frames tape s visits post) :
    (bounded part).Visits frames tape s visits post :=
  ⟨h.entries, h.comes⟩

/-! ### Statements -/

section

variable {k : Nat} {last : Lexeme} {loops : Nat} {index depth : Nat} {opened : Symbol}
  (barrier : Barrier tape k last) (short : tape.length < counterBound) (indexed : Indexed tape)

include barrier indexed

theorem index_ahead (fit : s.Fit tape loops) :
    ((ahead tape k s.position).headD last).place.index = s.position :=
  indexed _ _ (fit.clear.getElem? barrier)

omit indexed in
theorem ahead_of_getElem? {kind : Kind} {place : Place} (fit : s.Fit tape loops)
    (here : tape[s.position]? = some ⟨kind, place⟩) (noEnd : kind ≠ .endOfInput) :
    ∃ rest, ahead tape k s.position = ⟨kind, place⟩ :: rest := by
  have first := Option.some.inj ((fit.clear.getElem? barrier).symm.trans here)
  cases front : ahead tape k s.position with
  | nil =>
    rw [front, List.headD_nil] at first
    exact absurd ((congrArg At.value first).symm.trans barrier.isEnd) noEnd
  | cons t rest =>
    rw [front, List.headD_cons] at first
    exact ⟨rest, by rw [first]⟩

/-- The parser is in front of the statement that is read. -/
theorem isAt_stmt {fuel : Nat} (fit : s.Fit tape loops)
    (inside : s.context = .function index depth opened) (enough : k < s.position + fuel) :
    s.IsAt tape (.stmt ⟨opened.name, opened.ty, depth⟩ loops s.table
      (Stmt.parseWithin fuel last (ahead tape k s.position)).1) where
  start := (congrArg Place.index (Stmt.parseWithin_begins _ _ _)).trans
    (index_ahead barrier indexed fit)
  region := (congrArg Context.region inside).symm
  loops := fit.loopDepth.symm
  table := rfl
  breaks := by
    intro word here
    obtain ⟨rest, front⟩ := ahead_of_getElem? barrier fit here nofun
    have le := Clear.le barrier fit.clear
    obtain ⟨fuel, rfl⟩ : ∃ less, fuel = less + 1 := Nat.exists_eq_add_one.mpr (by omega)
    obtain ⟨semicolon, read⟩ := Stmt.parseWithin_break fuel last word rest
    exact ⟨_, semicolon, by rw [front, read, fit.loopDepth]⟩

theorem isAt_decl (fit : s.Fit tape loops) (inside : s.context = .function index depth opened)
    {decl : VarDecl} {rest : List Lexeme}
    (read : VarDecl.parse? last (ahead tape k s.position) = (some decl, rest)) :
    s.IsAt tape (.decl (.body depth) loops s.table decl) where
  start := (congrArg Place.index (VarDecl.start_of_parse? read)).trans
    (index_ahead barrier indexed fit)
  region := (congrArg Context.region inside).symm
  loops := fit.loopDepth.symm
  table := rfl
  breaks := by
    intro word here
    obtain ⟨rest, front⟩ := ahead_of_getElem? barrier fit here nofun
    rw [front, VarDecl.parse?_of_not_begins (by simp [Kind.beginsType])] at read
    cases read

omit barrier indexed in
theorem mem_visits (scope : FunctionScope) (loops : Nat) (table : SymbolTable) (stmt : Stmt) :
    .stmt scope loops table stmt ∈ stmt.visits scope loops table := by
  cases stmt <;> simp [Stmt.visits]

omit indexed in
/-- A token is there and has been gone over, or is not there. -/
theorem visits_match? {next : Option Place → Tracked β} {behind : β → State → Prop} (kind : Kind)
    (noTrivia : kind ≠ .trivia) (noEnd : kind ≠ .endOfInput) (fit : s.Fit tape loops)
    (there : ∀ place s', ahead tape k s.position = ⟨kind, place⟩ :: ahead tape k s'.position →
      s.Reaches tape loops 1 s' → s'.table = s.table →
        (next (some place)).Visits frames tape s' visits behind)
    (notThere : (∀ t ∈ (ahead tape k s.position).head?, t.value ≠ kind) →
      (next none).Visits frames tape s visits behind) :
    (lift (match? kind) >>= next).Visits frames tape s visits behind := by
  refine (visits_plain (comes_match? barrier kind noTrivia noEnd fit)).bind ?_
  rintro (_ | place) s' h
  · obtain ⟨rfl, other⟩ := h
    exact notThere other
  · obtain ⟨reaches, table, first⟩ := h
    exact there place s' first reaches table

include short

section

variable {nested : Tracked Unit} {parse : Parse Stmt} {fuel : Nat}
  (nests : ∀ frames loops s, s.Fit tape loops → s.context = .function index depth opened →
    k < s.position + fuel →
      nested.Visits frames tape s ((parse last (ahead tape k s.position)).1.visits
          ⟨opened.name, opened.ty, depth⟩ loops s.table) fun _ s' =>
        s.Performs tape k ⟨opened.name, opened.ty, depth⟩ loops
          (parse last (ahead tape k s.position)) s')
  (begins : ∀ loops (s : State), s.Fit tape loops → s.context = .function index depth opened →
    k < s.position + fuel → s.IsAt tape (.stmt ⟨opened.name, opened.ty, depth⟩ loops s.table
      (parse last (ahead tape k s.position)).1))

theorem visits_item_of_decl (nested : Tracked Unit) (frames : List Frame) {decl : VarDecl}
    {rest : List Lexeme} (fit : s.Fit tape loops)
    (inside : s.context = .function index depth opened) (some : ahead tape k s.position ≠ [])
    (read : VarDecl.parse? last (ahead tape k s.position) = (.some decl, rest)) :
    (item nested).Visits frames tape s [.decl (.body depth) loops s.table decl] fun _ s' =>
      s.Reaches tape loops 1 s' ∧ ahead tape k s'.position = rest ∧
        (decl.declare (.body depth) s.table).Gives s'.table := by
  have atEnd := comes_look barrier Cursor.reads_atEnd Cursor.steady_atEnd (fun _ _ => rfl) fit
  refine (visits_plain atEnd).bind ?_
  rintro ended s₁ ⟨rfl, rfl⟩
  rw [Parse.atEnd, List.isEmpty_eq_false_iff.mpr some]
  have declares := comes_varDeclaration barrier short fit
  rw [read] at declares
  have declared : varDeclaration.Visits frames tape s₁ [.decl (.body depth) loops s₁.table decl] _ :=
    (visits_plain declares).entering fun _ => ⟨_, List.mem_singleton_self _,
      isAt_decl barrier indexed fit inside read⟩
  refine declared.bind ?_
  rintro _ s₂ ⟨rfl, reaches, rest, given⟩
  rw [inside] at given
  exact visits_pure ⟨reaches, rest, given⟩

omit short indexed in
/-- Where the end of input comes instead of an item nothing is entered. -/
theorem visits_item_of_end (nested : Tracked Unit) (fit : s.Fit tape loops)
    (none : ahead tape k s.position = []) :
    (item nested).Visits frames tape s visits fun _ _ => False := by
  have atEnd := comes_look barrier Cursor.reads_atEnd Cursor.steady_atEnd (fun _ _ => rfl) fit
  refine (visits_plain atEnd).bind ?_
  rintro ended s₁ ⟨rfl, rfl⟩
  rw [none]
  exact visits_plain (Parser.unexpected_ne _ tape s₁)

include nests begins

omit indexed in
theorem visits_item_of_stmt (frames : List Frame) (fit : s.Fit tape loops)
    (inside : s.context = .function index depth opened) (enough : k < s.position + fuel)
    (some : ahead tape k s.position ≠ [])
    (read : VarDecl.parse? last (ahead tape k s.position) = (none, ahead tape k s.position)) :
    (item nested).Visits frames tape s ((parse last (ahead tape k s.position)).1.visits
        ⟨opened.name, opened.ty, depth⟩ loops s.table) fun _ s' =>
      s.Performs tape k ⟨opened.name, opened.ty, depth⟩ loops
        (parse last (ahead tape k s.position)) s' := by
  have atEnd := comes_look barrier Cursor.reads_atEnd Cursor.steady_atEnd (fun _ _ => rfl) fit
  refine (visits_plain atEnd).bind ?_
  rintro ended s₁ ⟨rfl, rfl⟩
  rw [Parse.atEnd, List.isEmpty_eq_false_iff.mpr some]
  have declares := comes_varDeclaration barrier short fit
  rw [read] at declares
  -- the declaration is tried where the statement stands
  have tried : varDeclaration.Visits frames tape s₁ ((parse last (ahead tape k s₁.position)).1.visits
      ⟨opened.name, opened.ty, depth⟩ loops s₁.table) _ :=
    (visits_plain declares).entering fun _ => ⟨_, mem_visits _ _ _ _,
      begins loops s₁ fit inside enough⟩
  refine tried.bind ?_
  rintro _ s₂ ⟨rfl, rfl⟩
  exact nests frames loops s₂ fit inside enough

/-- The items of a block that are read, each of which is entered where it stands. -/
theorem visits_itemsWithin : ∀ count count' s, count ≤ count' → s.Fit tape loops →
    s.context = .function index depth opened → k < s.position + count → k < s.position + fuel →
    (repeating (lift (unlessEnded (sees (.delimiter .rightBrace)))) (fun _ _ => item nested) count'
      ()).Visits frames tape s
        ((Items.parseWithin parse count last (ahead tape k s.position)).1.visits
          ⟨opened.name, opened.ty, depth⟩ loops s.table) fun _ _ => True := by
  intro count
  induction count with
  | zero =>
    intro _ s _ fit _ few _
    exact absurd (Clear.le barrier fit.clear) (by omega)
  | succ count ih =>
    rintro (_ | count') s le fit inside few enough
    · cases le
    have tested := comes_unlessEnded barrier (Cursor.reads_sees (.delimiter .rightBrace))
      (Cursor.steady_sees _) (fun _ _ => rfl) fit
    refine (visits_plain tested).bind ?_
    rintro found s₁ ⟨rfl, ends⟩
    rcases found with _ | ⟨⟨⟩⟩
    · exact visits_pure trivial
    have brace : ((ahead tape k s₁.position).headD last).value ≠ .delimiter .rightBrace :=
      fun seen => nomatch ends.mpr (decide_eq_true seen)
    by_cases some : ahead tape k s₁.position = []
    · exact (visits_item_of_end barrier nested fit some).bind fun _ _ => False.elim
    have goesOn : Items.GoesOn last (ahead tape k s₁.position) := ⟨brace, some⟩
    rcases VarDecl.parse?_cases last (ahead tape k s₁.position) with
        ⟨decl, rest, read, -⟩ | ⟨-, read⟩
    · rw [Items.parseWithin_of_decl goesOn read rfl]
      have first := visits_item_of_decl barrier short indexed nested frames fit inside some read
      refine (first.mono (fun _ among => List.mem_singleton.mp among ▸ List.mem_cons_self)
        fun _ _ => id).bind ?_
      rintro ⟨⟩ s₂ ⟨reaches, rest, given⟩
      have far := reaches.far
      have turns := ih count' s₂ (by omega) reaches.fit (reaches.context.trans inside) (by omega)
        (by omega)
      rw [rest] at turns
      refine turns.forget fun visit among => ?_
      exact List.mem_cons_of_mem _ (mem_behind.mpr ⟨_, given, among⟩)
    · rw [Items.visits_parseWithin_of_stmt _ _ _ goesOn read]
      have first := visits_item_of_stmt barrier short nests begins frames fit inside enough some read
      refine (first.mono (fun _ => List.mem_append_left _) fun _ _ => id).bind ?_
      rintro ⟨⟩ s₂ ⟨reaches, rest, given⟩
      have far := reaches.far
      have turns := ih count' s₂ (by omega) reaches.fit (reaches.context.trans inside) (by omega)
        (by omega)
      rw [rest] at turns
      refine turns.forget fun visit among => ?_
      exact List.mem_append_right _ (mem_behind.mpr ⟨_, given, among⟩)

/-- The items of the block that is read. -/
theorem visits_items (frames : List Frame) (fit : s.Fit tape loops)
    (inside : s.context = .function index depth opened) (enough : k < s.position + fuel) :
    (items nested).Visits frames tape s
      ((Parse.bounded (Items.parseWithin parse) last (ahead tape k s.position)).1.visits
        ⟨opened.name, opened.ty, depth⟩ loops s.table) fun _ _ => True := by
  have length := barrier.length_ahead s.position
  have tapeLength := barrier.length
  exact visits_bounded (visits_itemsWithin barrier short indexed nests begins
    ((ahead tape k s.position).length + 1) (tape.length + 1) s (by omega) fit inside (by omega)
    enough)

theorem visits_compound (frames : List Frame) (fit : s.Fit tape loops)
    (inside : s.context = .function index depth opened) (enough : k ≤ s.position + fuel)
    {opening : Place} {rest : List Lexeme}
    (first : ahead tape k s.position = ⟨.delimiter .leftBrace, opening⟩ :: rest) :
    (compound nested).Visits frames tape s
      ((Parse.bounded (Items.parseWithin parse) last rest).1.visits
        ⟨opened.name, opened.ty, depth⟩ loops s.table) fun found _ => found = true := by
  refine (visits_plain (comes_token barrier fit first nofun nofun)).bind ?_
  rintro _ s₁ ⟨rfl, reaches, table, rest'⟩
  have far := reaches.far
  have block := visits_items barrier short indexed nests begins (.block :: frames) reaches.fit
    (reaches.context.trans inside) (by omega)
  rw [rest', table] at block
  refine block.within.bind fun _ s₂ _ => ?_
  exact (visits_last _).bind fun _ _ _ => visits_pure rfl

omit short indexed begins in
theorem visits_ifStatement (word : Place) (fit : s.Fit tape loops)
    (inside : s.context = .function index depth opened) (enough : k < s.position + fuel) :
    (ifStatement nested).Visits frames tape s
      ((Stmt.parseIf parse word last (ahead tape k s.position)).1.visits
        ⟨opened.name, opened.ty, depth⟩ loops s.table) fun _ _ => True := by
  refine (visits_plain (comes_condition barrier fit)).bind ?_
  rintro ⟨⟩ s₁ ⟨reaches₁, table₁, rest₁, passes⟩
  have far₁ := reaches₁.far
  have inside₁ := reaches₁.context.trans inside
  have first := nests (.branch :: frames) loops s₁ reaches₁.fit inside₁ (by omega)
  rcases hbody : parse last (ahead tape k s₁.position) with ⟨body, middle⟩
  rw [hbody, table₁] at first
  rcases Parse.token?_cases (.keyword .elseKw) last middle with
      ⟨elseWord, rest, rfl, helse⟩ | ⟨other, helse⟩
  · rcases hotherwise : parse last rest with ⟨otherwise, rest'⟩
    have read : Stmt.parseIf parse word last (ahead tape k s.position) =
        (.ifElse word (Condition.parse last (ahead tape k s.position)).1 body elseWord otherwise,
          rest') := by
      simp [Stmt.parseIf, ← rest₁, hbody, Parse.keyword?, helse, hotherwise]
    rw [read]
    refine Visits.bind (first.mono ?_ fun _ _ => id).within ?_
    · intro visit among
      exact List.mem_cons_of_mem _ (mem_behind.mpr ⟨(), passes, List.mem_append_left _ among⟩)
    rintro ⟨⟩ s₂ ⟨reaches₂, rest₂, given⟩
    have far₂ := reaches₂.far
    refine (visits_plain (comes_token barrier reaches₂.fit rest₂ (by simp) (by simp))).bind ?_
    rintro _ s₃ ⟨rfl, reaches₃, table₃, rest₃⟩
    have far₃ := reaches₃.far
    have second := nests (.branch :: frames) loops s₃ reaches₃.fit
      (reaches₃.context.trans (reaches₂.context.trans inside₁)) (by omega)
    rw [rest₃, hotherwise, table₃] at second
    refine (second.forget ?_).within
    intro visit among
    rw [table₁] at given
    exact List.mem_cons_of_mem _ (mem_behind.mpr
      ⟨(), passes, List.mem_append_right _ (mem_behind.mpr ⟨_, given, among⟩)⟩)
  · have read : Stmt.parseIf parse word last (ahead tape k s.position) =
        (.ifThen word (Condition.parse last (ahead tape k s.position)).1 body, middle) := by
      simp [Stmt.parseIf, ← rest₁, hbody, Parse.keyword?, helse]
    rw [read]
    refine Visits.bind (first.mono ?_ fun _ _ => id).within ?_
    · intro visit among
      exact List.mem_cons_of_mem _ (mem_behind.mpr ⟨(), passes, among⟩)
    rintro ⟨⟩ s₂ ⟨reaches₂, rest₂, -⟩
    have ended : ahead tape k s₂.position = middle := rest₂
    rw [← ended] at other
    refine (visits_plain (comes_noToken barrier reaches₂.fit other (by simp) (by simp))).bind ?_
    rintro _ _ ⟨rfl, rfl⟩
    exact visits_pure trivial

omit barrier short indexed begins in
/-- The body of a loop is entered with one loop more. -/
theorem visits_loopBody (fit : s.Fit tape loops)
    (inside : s.context = .function index depth opened) (enough : k < s.position + fuel)
    (deep : loops < s.position) :
    (loopBody nested).Visits frames tape s
      ((parse last (ahead tape k s.position)).1.visits ⟨opened.name, opened.ty, depth⟩ (loops + 1)
        s.table) fun _ _ => True := by
  obtain rfl := fit.loopDepth
  refine ⟨?_, fun _ _ _ => trivial⟩
  have body := nests frames _ _ (fit.deeper deep) inside enough
  by_cases few : s.loopDepth + 1 < counterBound
  · rw [(entries_loopBody nested frames tape few)]
    exact body.entries
  · rw [(entries_loopBody_of_many nested frames tape few)]
    exact List.forall_mem_nil _

omit short indexed begins in
theorem visits_whileStatement (word : Place) (fit : s.Fit tape loops)
    (inside : s.context = .function index depth opened) (enough : k < s.position + fuel)
    (deep : loops < s.position) :
    (whileStatement nested).Visits frames tape s
      ((Stmt.parseWhile parse word last (ahead tape k s.position)).1.visits
        ⟨opened.name, opened.ty, depth⟩ loops s.table) fun _ _ => True := by
  refine (visits_plain (comes_condition barrier fit)).bind ?_
  rintro ⟨⟩ s₁ ⟨reaches, table, rest, passes⟩
  have far := reaches.far
  refine Visits.within ?_
  refine (visits_loopBody nests reaches.fit (reaches.context.trans inside) (by omega)
    (by omega)).forget fun visit among => ?_
  rw [table, rest] at among
  rw [Stmt.parseWhile, Parse.bind_apply, Parse.bind_apply, Parse.pure_apply, Stmt.visits]
  exact List.mem_cons_of_mem _ (mem_behind.mpr ⟨(), passes, among⟩)

omit short indexed begins in
theorem visits_forStatement (word : Place) (fit : s.Fit tape loops)
    (inside : s.context = .function index depth opened) (enough : k < s.position + fuel)
    (deep : loops < s.position) :
    (forStatement nested).Visits frames tape s
      ((Stmt.parseFor parse word last (ahead tape k s.position)).1.visits
        ⟨opened.name, opened.ty, depth⟩ loops s.table) fun _ _ => True := by
  refine (visits_plain (comes_forHeader barrier fit)).bind ?_
  rintro ⟨⟩ s₁ ⟨reaches, table, rest, passes⟩
  have far := reaches.far
  refine Visits.within ?_
  refine (visits_loopBody nests reaches.fit (reaches.context.trans inside) (by omega)
    (by omega)).forget fun visit among => ?_
  rw [table, rest] at among
  rw [Stmt.parseFor, Parse.bind_apply, Parse.bind_apply, Parse.pure_apply, Stmt.visits]
  exact List.mem_cons_of_mem _ (mem_behind.mpr ⟨(), passes, among⟩)

end

omit short indexed in
theorem visits_compound_of_other (nested : Tracked Unit) (fit : s.Fit tape loops)
    (other : ∀ t ∈ (ahead tape k s.position).head?, t.value ≠ .delimiter .leftBrace) :
    (compound nested).Visits frames tape s visits fun found s' => found = false ∧ s' = s := by
  refine (visits_plain (comes_noToken barrier fit other nofun nofun)).bind ?_
  rintro _ s₁ ⟨rfl, rfl⟩
  exact visits_pure ⟨rfl, rfl⟩

/-- The statements that are entered in a statement. -/
theorem visits_statementWithin : ∀ fuel fuel' frames loops s, fuel ≤ fuel' → s.Fit tape loops →
    s.context = .function index depth opened → k < s.position + fuel →
    (statementWithin fuel').Visits frames tape s
      ((Stmt.parseWithin fuel last (ahead tape k s.position)).1.visits
        ⟨opened.name, opened.ty, depth⟩ loops s.table) fun _ s' =>
      s.Performs tape k ⟨opened.name, opened.ty, depth⟩ loops
        (Stmt.parseWithin fuel last (ahead tape k s.position)) s' := by
  intro fuel
  induction fuel with
  | zero =>
    intro _ _ _ s _ fit _ few
    exact absurd (Clear.le barrier fit.clear) (by omega)
  | succ fuel ih =>
    rintro (_ | fuel') frames loops s le fit inside enough
    · cases le
    have comes := comes_statementWithin barrier short le enough fit inside
    rw [← parser_statementWithin] at comes
    have nests : ∀ frames loops s, s.Fit tape loops → s.context = .function index depth opened →
        k < s.position + fuel → (statementWithin fuel').Visits frames tape s _ _ :=
      fun frames loops s => ih fuel' frames loops s (Nat.le_of_succ_le_succ le)
    have entered : (statementWithin (fuel' + 1)).Visits frames tape s
        ((Stmt.parseWithin (fuel + 1) last (ahead tape k s.position)).1.visits
          ⟨opened.name, opened.ty, depth⟩ loops s.table) fun _ _ => True := by
      refine Visits.entering ?_ fun _ => ⟨_, mem_visits _ _ _ _,
        isAt_stmt barrier indexed fit inside enough⟩
      rcases Parse.token?_cases (.delimiter .leftBrace) last (ahead tape k s.position) with
          ⟨opening, rest, first, -⟩ | ⟨other, -⟩
      · obtain ⟨closing, read⟩ := Stmt.parseWithin_block fuel last opening rest
        rw [first, read, Stmt.visits]
        have block := visits_compound barrier short indexed nests
          (fun _ _ => isAt_stmt barrier indexed) frames fit inside (by omega) first
        refine (block.mono (fun _ => List.mem_cons_of_mem _) fun _ _ => id).bind ?_
        rintro _ s₁ rfl
        exact visits_pure trivial
      refine (visits_compound_of_other barrier _ fit other).bind ?_
      rintro _ s₁ ⟨rfl, rfl⟩
      have deep := fit.enough
      refine visits_match? barrier _ nofun nofun fit (fun word s₂ first reaches table => ?_)
        fun _ => ?_
      · have far := reaches.far
        rw [first, Stmt.parseWithin_if, ← table]
        exact visits_ifStatement barrier nests word reaches.fit (reaches.context.trans inside)
          (by omega)
      refine visits_match? barrier _ nofun nofun fit (fun word s₂ first reaches table => ?_)
        fun _ => ?_
      · have far := reaches.far
        rw [first, Stmt.parseWithin_while, ← table]
        exact visits_whileStatement barrier nests word reaches.fit (reaches.context.trans inside)
          (by omega) (by omega)
      refine visits_match? barrier _ nofun nofun fit (fun word s₂ first reaches table => ?_)
        fun _ => ?_
      · have far := reaches.far
        rw [first, Stmt.parseWithin_for, ← table]
        exact visits_forStatement barrier nests word reaches.fit (reaches.context.trans inside)
          (by omega) (by omega)
      -- in the other statements nothing is entered
      refine visits_match? barrier _ nofun nofun fit (fun _ _ _ _ _ => visits_last _) fun _ => ?_
      refine visits_match? barrier _ nofun nofun fit (fun _ _ _ _ _ => visits_last _) fun _ => ?_
      refine visits_match? barrier _ nofun nofun fit (fun _ _ _ _ _ => visits_pure trivial)
        fun _ => ?_
      exact visits_last _
    exact entered.come comes

end

end Tracked

end Guarded

end PlainC
