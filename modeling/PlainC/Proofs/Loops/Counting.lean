import PlainC.Proofs.Guarded.Program
import PlainC.Proofs.Loops.Entries

set_option autoImplicit false

/-!
The counter of loops. Only the body of a loop changes it, and takes the change back whatever comes
of the body; so it counts the loops that a declaration or a statement stands in.
-/

namespace PlainC

namespace Guarded

variable {α β : Type} {tape : List Lexeme} {frames : List Frame} {s s' : State}

/-! ### Parts in which no statement is entered -/

namespace Parser

/-- The part leaves the counter of loops as it is, and what is open as well. -/
def Keeps (parser : Parser α) : Prop :=
  ∀ tape s outcome s', (parser tape s).result = .ok (outcome, s') →
    s'.loopDepth = s.loopDepth ∧ s'.context = s.context

theorem keeps_pure (a : α) : Keeps (pure a) := by
  rintro tape s _ _ ⟨⟩
  exact ⟨rfl, rfl⟩

theorem keeps_trap (why : Trap) : Keeps (trap why : Parser α) := by
  rintro tape s _ _ ⟨⟩

theorem keeps_get : Keeps get := by
  rintro tape s _ _ ⟨⟩
  exact ⟨rfl, rfl⟩

theorem keeps_update {change : State → State}
    (same : ∀ s, (change s).loopDepth = s.loopDepth ∧ (change s).context = s.context) :
    Keeps (update change) := by
  rintro tape s _ _ ⟨⟩
  exact same s

theorem bind_result (parser : Parser α) (next : α → Parser β) (tape : List Lexeme) (s : State) :
    ((parser >>= next) tape s).result =
      match (parser tape s).result with
      | .error trap => .error trap
      | .ok (.error fault, s') => .ok (.error fault, s')
      | .ok (.ok a, s') => (next a tape s').result := by
  simp only [Bind.bind]
  rcases (parser tape s).result with trap | ⟨fault | a, s'⟩ <;> rfl

theorem Keeps.bind {parser : Parser α} {next : α → Parser β} (first : Keeps parser)
    (second : ∀ a, Keeps (next a)) : Keeps (parser >>= next) := by
  intro tape s outcome s'' ends
  rw [bind_result] at ends
  rcases run : (parser tape s).result with trap | ⟨fault | a, s'⟩ <;> rw [run] at ends
  · cases ends
  · cases ends
    exact first _ _ _ _ run
  · obtain ⟨loops, context⟩ := first _ _ _ _ run
    obtain ⟨loops', context'⟩ := second a _ _ _ _ ends
    exact ⟨loops'.trans loops, context'.trans context⟩

theorem keeps_lift (parser : Cursor.Parser α) : Keeps (lift parser) := by
  intro tape s outcome s' ends
  unfold lift at ends
  dsimp only at ends
  split at ends <;> cases ends <;> exact ⟨rfl, rfl⟩

/-- A token that must not be there gives no value. -/
theorem unexpected_ne (wanted : Wanted) (tape : List Lexeme) (s : State) (a : α) (s' : State) :
    (lift (Cursor.Parser.unexpected wanted) tape s).result ≠ .ok (.ok a, s') := by
  intro ends
  have refused : ∀ c found, (Cursor.Parser.unexpected wanted tape c : Cursor.Run _ α).result ≠
      .ok found := by
    intro c found
    change ((Cursor.Parser.current tape c).andThen _).result ≠ _
    rcases Cursor.Parser.current tape c with ⟨events, stop | ⟨next, c'⟩⟩ <;> nofun
  unfold lift at ends
  dsimp only at ends
  split at ends
  case h_5 found => exact absurd found (refused _ _)
  all_goals cases ends

theorem keeps_countUp (count : Nat) : Keeps (countUp count) := by
  unfold countUp
  split
  · exact keeps_pure _
  · exact keeps_trap _

theorem keeps_bounded {parser : Nat → Parser α} (keeps : ∀ fuel, Keeps (parser fuel)) :
    Keeps (bounded parser) :=
  fun tape => keeps (tape.length + 1) tape

theorem keeps_repeating {test : Parser (Option β)} {body : α → β → Parser α} (tests : Keeps test)
    (turns : ∀ a b, Keeps (body a b)) : ∀ fuel a, Keeps (repeating test body fuel a) := by
  intro fuel
  induction fuel with
  | zero => exact fun _ => keeps_trap _
  | succ fuel ih =>
    intro a
    refine tests.bind ?_
    rintro (_ | b)
    · exact keeps_pure a
    · exact (turns a b).bind ih

theorem keeps_declare (name : Name) (symbol : Symbol) : Keeps (declare name symbol) := by
  refine keeps_get.bind fun s => ?_
  rcases s.table.add symbol with ⟨previous | index, table⟩
  · exact keeps_lift _
  · have change : Keeps (update fun s : State => { s with table }) :=
      keeps_update fun _ => ⟨rfl, rfl⟩
    exact change.bind fun _ => keeps_pure index

theorem keeps_commas {item : Parser Unit} (items : Keeps item) : Keeps (commas item) := by
  refine items.bind fun _ => ?_
  exact keeps_bounded fun fuel => keeps_repeating (keeps_lift _) (fun _ _ => items) fuel ()

theorem keeps_elements (element : Ty) : ∀ fuel count, Keeps (elements element fuel count) := by
  intro fuel
  induction fuel with
  | zero => exact fun _ => keeps_trap _
  | succ fuel ih =>
    intro count
    refine (keeps_lift _).bind fun start => (keeps_lift _).bind fun value => ?_
    refine (keeps_lift _).bind fun _ => (keeps_countUp count).bind fun count => ?_
    refine (keeps_lift _).bind ?_
    rintro (_ | comma)
    · exact keeps_pure count
    · exact ih count

theorem keeps_initializer (ty : Ty) : Keeps (initializer ty) := by
  refine (keeps_lift _).bind ?_
  rintro (_ | opening)
  · exact (keeps_lift _).bind fun _ => (keeps_lift _).bind fun _ => keeps_lift _
  · refine (keeps_lift _).bind fun _ => (keeps_lift _).bind ?_
    rintro (_ | closing)
    · refine (keeps_bounded fun fuel => keeps_elements _ fuel 0).bind fun given => ?_
      exact (keeps_lift _).bind fun _ => keeps_lift _
    · exact keeps_lift _

theorem keeps_initialized (name : Name) (ty : Ty) : Keeps (initialized name ty) := by
  refine (keeps_lift _).bind ?_
  rintro (_ | op)
  · exact keeps_pure ty
  refine keeps_get.bind fun s => ?_
  cases s.context with
  | struct index opened => exact keeps_lift _
  | global | function index depth opened => exact keeps_initializer ty

theorem keeps_declareMember (index : Nat) (name : Name) (ty : Ty) (member : Symbol) :
    Keeps (declareMember index name ty member) := by
  refine keeps_get.bind fun s => ?_
  by_cases itself : ty.base = .struct index
  · simp only [if_pos itself]
    exact keeps_lift _
  simp only [if_neg itself]
  cases found : s.table.get? index with
  | none => exact keeps_trap _
  | some owner =>
    dsimp only
    cases owner.member? name.value with
    | some previous => exact keeps_lift _
    | none => exact keeps_update fun _ => ⟨rfl, rfl⟩

theorem keeps_declareVariable (name : Name) (ty : Ty) : Keeps (declareVariable name ty) := by
  refine keeps_get.bind fun s => ?_
  cases s.context with
  | struct index opened => exact keeps_declareMember index name ty _
  | global | function index depth opened => exact (keeps_declare name _).bind fun _ => keeps_pure ()

theorem keeps_varDeclaration : Keeps varDeclaration := by
  refine (keeps_lift _).bind ?_
  rintro (_ | base)
  · exact keeps_pure false
  refine (keeps_commas ?_).bind fun _ => (keeps_lift _).bind fun _ => keeps_pure true
  refine (keeps_lift _).bind fun name => (keeps_lift _).bind fun extent => ?_
  exact (keeps_initialized name _).bind fun ty => keeps_declareVariable name ty

theorem keeps_openFunction : Keeps openFunction := by
  refine keeps_get.bind fun s => ?_
  cases s.context with
  | global | struct index opened => exact keeps_trap _
  | function index depth opened =>
    dsimp only
    cases s.table.get? index with
    | none => exact keeps_trap _
    | some function => exact keeps_pure _

theorem keeps_returnValue (word : Place) : Keeps (returnValue word) := by
  refine (keeps_lift _).bind ?_
  rintro (_ | _)
  · refine (keeps_lift _).bind fun value => keeps_openFunction.bind fun scope => ?_
    exact (keeps_lift _).bind fun _ => keeps_lift _
  · exact keeps_openFunction.bind fun scope => (keeps_lift _).bind fun _ => keeps_lift _

theorem keeps_params (index depth : Nat) : Keeps (params index depth) := by
  refine (keeps_lift _).bind ?_
  rintro (_ | _)
  case true => exact keeps_pure ()
  refine keeps_commas ((keeps_lift _).bind ?_)
  rintro (_ | base)
  · exact keeps_lift _
  refine (keeps_lift _).bind fun name => (keeps_lift _).bind fun extent => ?_
  exact (keeps_declare name _).bind fun _ => keeps_update fun _ => ⟨rfl, rfl⟩

theorem keeps_release (mark : Nat) : Keeps (release mark) := by
  refine keeps_get.bind fun s => ?_
  by_cases short : s.table.size < mark + 1
  · simp only [if_pos short]
    exact keeps_trap _
  · simp only [if_neg short]
    exact keeps_update fun _ => ⟨rfl, rfl⟩

end Parser

/-! ### Parts with notes -/

/-- As many loops are counted as there are among the frames, of which there are none where no
function is open. -/
structure State.Stands (s : State) (frames : List Frame) : Prop where
  loops : s.loopDepth = frames.count .loop
  inside : frames ≠ [] → ∃ index depth opened, s.context = .function index depth opened

/-- In front of it the loops around it are counted, and behind it no others are. -/
structure Entry.IsCounted (entry : Entry) : Prop where
  entered : entry.entered.Stands entry.frames
  left : ∀ s, entry.left = .ok s → s.loopDepth = entry.entered.loopDepth

section

variable {index depth : Nat} {opened : Symbol}

theorem State.Stands.next (stands : s.Stands frames) (same : s'.loopDepth = s.loopDepth)
    (inside : s'.context = .function index depth opened) : s'.Stands frames :=
  ⟨same.trans stands.loops, fun _ => ⟨index, depth, opened, inside⟩⟩

/-- Frames other than loops make no difference. -/
theorem State.Stands.deeper (stands : s.Stands frames) {frame : Frame} (other : frame ≠ .loop)
    (inside : s.context = .function index depth opened) : s.Stands (frame :: frames) :=
  ⟨by rw [List.count_cons_of_ne other, stands.loops], fun _ => ⟨index, depth, opened, inside⟩⟩

/-- One loop more is counted. -/
theorem State.Stands.looped (stands : s.Stands frames)
    (inside : s.context = .function index depth opened) :
    State.Stands { s with loopDepth := s.loopDepth + 1 } (.loop :: frames) :=
  ⟨by rw [List.count_cons_self, ← stands.loops], fun _ => ⟨index, depth, opened, inside⟩⟩

end

namespace Tracked

/-- Everything that is entered in the frames is counted, and where that is trapped, so is the whole.
The counter is left as it was, and behind a value the context is open. -/
structure Counts (part : Tracked α) (frames : List Frame) (tape : List Lexeme) (s : State)
    (context : Context) : Prop where
  entries : ∀ entry ∈ part.entries frames tape s, entry.IsCounted
  traps : ∀ entry ∈ part.entries frames tape s, ∀ trap, entry.left = .error trap →
    (part.parser tape s).result = .error trap
  loops : ∀ outcome s', (part.parser tape s).result = .ok (outcome, s') → s'.loopDepth = s.loopDepth
  context : ∀ a s', (part.parser tape s).result = .ok (.ok a, s') → s'.context = context

variable {context context' : Context}

theorem counts_plain {parser : Parser α} (keeps : parser.Keeps) (inside : s.context = context) :
    (plain parser).Counts frames tape s context :=
  ⟨List.forall_mem_nil _, List.forall_mem_nil _, fun _ _ ends => (keeps _ _ _ _ ends).1,
    fun _ _ ends => (keeps _ _ _ _ ends).2.trans inside⟩

theorem counts_pure (a : α) (inside : s.context = context) :
    (pure a : Tracked α).Counts frames tape s context :=
  counts_plain (Parser.keeps_pure a) inside

theorem counts_lift (parser : Cursor.Parser α) (inside : s.context = context) :
    (lift parser).Counts frames tape s context :=
  counts_plain (Parser.keeps_lift parser) inside

theorem entries_bind (part : Tracked α) (next : α → Tracked β) (frames : List Frame)
    (tape : List Lexeme) (s : State) :
    (part >>= next).entries frames tape s = part.entries frames tape s ++
      match (part.parser tape s).result with
      | .ok (.ok a, s') => (next a).entries frames tape s'
      | .ok (.error _, _) | .error _ => [] := rfl

theorem Counts.bind {part : Tracked α} {next : α → Tracked β}
    (first : part.Counts frames tape s context)
    (second : ∀ a s', s'.loopDepth = s.loopDepth → s'.context = context →
      (next a).Counts frames tape s' context') :
    (part >>= next).Counts frames tape s context' := by
  have result := Parser.bind_result part.parser (fun a => (next a).parser) tape s
  have entries := entries_bind part next frames tape s
  rcases run : (part.parser tape s).result with trap | ⟨fault | a, s'⟩ <;> rw [run] at result entries
  · rw [List.append_nil] at entries
    refine ⟨entries ▸ first.entries, ?_, fun _ _ ends => (nomatch result.symm.trans ends),
      fun _ _ ends => (nomatch result.symm.trans ends)⟩
    rw [entries]
    intro entry among why trapped
    cases run.symm.trans (first.traps entry among why trapped)
    exact result
  · rw [List.append_nil] at entries
    refine ⟨entries ▸ first.entries, ?_, fun _ _ ends => ?_,
      fun _ _ ends => (nomatch result.symm.trans ends)⟩
    · rw [entries]
      exact fun entry among trap trapped => (nomatch run.symm.trans
        (first.traps entry among trap trapped))
    · obtain ⟨-, rfl⟩ := Prod.mk.inj (Except.ok.inj (result.symm.trans ends))
      exact first.loops _ _ run
  · have loops := first.loops _ _ run
    have later := second a s' loops (first.context _ _ run)
    refine ⟨?_, ?_, fun _ _ ends => ?_, fun _ _ ends => later.context _ _ (result.symm.trans ends)⟩
    · rw [entries]
      exact List.forall_mem_append.mpr ⟨first.entries, later.entries⟩
    · rw [entries]
      refine List.forall_mem_append.mpr ⟨fun entry among trap trapped => ?_, ?_⟩
      · cases run.symm.trans (first.traps entry among trap trapped)
      · exact fun entry among trap trapped => result.trans (later.traps entry among trap trapped)
    · exact (later.loops _ _ (result.symm.trans ends)).trans loops

theorem Counts.entering {part : Tracked α} (counts : part.Counts frames tape s context)
    (stands : s.Stands frames) : (entering part).Counts frames tape s context := by
  refine ⟨List.forall_mem_cons.mpr ⟨⟨stands, ?_⟩, counts.entries⟩,
    List.forall_mem_cons.mpr ⟨?_, counts.traps⟩, counts.loops, counts.context⟩
  · intro s' left
    change (part.parser tape s).result.map Prod.snd = .ok s' at left
    rcases run : (part.parser tape s).result with trap | ⟨outcome, s''⟩ <;> rw [run] at left
    · cases left
    · obtain rfl := Except.ok.inj left
      exact counts.loops _ _ run
  · intro trap left
    change (part.parser tape s).result.map Prod.snd = .error trap at left
    rcases run : (part.parser tape s).result with trap' | ⟨outcome, s''⟩ <;> rw [run] at left
    · exact run.trans (congrArg _ (Except.error.inj left))
    · cases left

theorem Counts.within {part : Tracked α} {frame : Frame}
    (counts : part.Counts (frame :: frames) tape s context) :
    (within frame part).Counts frames tape s context :=
  ⟨counts.entries, counts.traps, counts.loops, counts.context⟩

theorem counts_bounded {part : Nat → Tracked α}
    (counts : ∀ fuel, (part fuel).Counts frames tape s context) :
    (bounded part).Counts frames tape s context := by
  obtain ⟨entries, traps, loops, context⟩ := counts (tape.length + 1)
  exact ⟨entries, traps, loops, context⟩

/-- Each turn begins with the counter and the context that the loop begins with. -/
theorem counts_repeating {test : Tracked (Option β)} {body : α → β → Tracked α}
    (loops : Nat)
    (tests : ∀ s, s.loopDepth = loops → s.context = context → test.Counts frames tape s context)
    (turns : ∀ a b s, s.loopDepth = loops → s.context = context →
      (body a b).Counts frames tape s context) :
    ∀ fuel a s, s.loopDepth = loops → s.context = context →
      (repeating test body fuel a).Counts frames tape s context := by
  intro fuel
  induction fuel with
  | zero => exact fun _ _ _ inside => counts_plain (Parser.keeps_trap _) inside
  | succ fuel ih =>
    intro a s same inside
    refine (tests s same inside).bind ?_
    rintro (_ | b) s' same' inside'
    · exact counts_pure a inside'
    · refine (turns a b s' (same'.trans same) inside').bind ?_
      intro a' s'' same'' inside''
      exact ih a' s'' (same''.trans (same'.trans same)) inside''

/-! ### Statements -/

theorem counts_varDeclaration (stands : s.Stands frames) (inside : s.context = context) :
    varDeclaration.Counts frames tape s context :=
  (counts_plain Parser.keeps_varDeclaration inside).entering stands

section

variable {nested : Tracked Unit} {index depth : Nat} {opened : Symbol}
  (nests : ∀ frames s, s.Stands frames → s.context = .function index depth opened →
    nested.Counts frames tape s (.function index depth opened))
  (stands : s.Stands frames) (inside : s.context = .function index depth opened)

include nests stands inside

theorem counts_item : (item nested).Counts frames tape s (.function index depth opened) := by
  refine (counts_lift _ inside).bind ?_
  rintro (_ | _) s₁ same₁ inside₁
  case true => exact counts_lift _ inside₁
  have stands₁ := stands.next same₁ inside₁
  refine (counts_varDeclaration stands₁ inside₁).bind ?_
  rintro (_ | _) s₂ same₂ inside₂
  case true => exact counts_pure () inside₂
  exact nests frames s₂ (stands₁.next same₂ inside₂) inside₂

theorem counts_items : (items nested).Counts frames tape s (.function index depth opened) := by
  refine counts_bounded fun fuel => ?_
  refine counts_repeating _ (fun s _ inside => counts_lift _ inside) ?_ fuel () s rfl inside
  intro _ _ s₁ same₁ inside₁
  exact counts_item nests (stands.next same₁ inside₁) inside₁

theorem counts_compound :
    (compound nested).Counts frames tape s (.function index depth opened) := by
  refine (counts_lift _ inside).bind ?_
  rintro (_ | opening) s₁ same₁ inside₁
  · exact counts_pure false inside₁
  have stands₁ : s₁.Stands (.block :: frames) := (stands.next same₁ inside₁).deeper nofun inside₁
  refine (counts_items nests stands₁ inside₁).within.bind ?_
  intro _ s₂ _ inside₂
  exact (counts_lift _ inside₂).bind fun _ s₃ _ inside₃ => counts_pure true inside₃

theorem counts_ifStatement :
    (ifStatement nested).Counts frames tape s (.function index depth opened) := by
  have branch : ∀ s', s'.loopDepth = s.loopDepth → s'.context = .function index depth opened →
      (within .branch nested).Counts frames tape s' (.function index depth opened) := by
    intro s' same inside'
    have stands' : s'.Stands (.branch :: frames) := (stands.next same inside').deeper nofun inside'
    exact (nests _ s' stands' inside').within
  refine (counts_lift _ inside).bind ?_
  intro _ s₁ same₁ inside₁
  refine (branch s₁ same₁ inside₁).bind ?_
  intro _ s₂ same₂ inside₂
  refine (counts_lift _ inside₂).bind ?_
  rintro (_ | word) s₃ same₃ inside₃
  · exact counts_pure () inside₃
  · exact branch s₃ (same₃.trans (same₂.trans same₁)) inside₃

/-! The body of a loop begins with one loop more, and one less is counted behind it. There are no
loops in front of which the counter has got to its bound. -/

omit nests stands inside in
theorem result_loopBody (nested : Tracked Unit) (tape : List Lexeme)
    (few : s.loopDepth + 1 < counterBound) :
    ((loopBody nested).parser tape s).result =
      (Parser.ending nested.parser Parser.leaveLoop tape
        { s with loopDepth := s.loopDepth + 1 }).result := by
  have counted : Parser.countUp s.loopDepth = pure (s.loopDepth + 1) := countUp_eq few
  change ((Parser.countUp s.loopDepth >>= _) tape s).result = _
  rw [counted]
  rfl

omit nests stands inside in
theorem entries_loopBody (nested : Tracked Unit) (frames : List Frame) (tape : List Lexeme)
    (few : s.loopDepth + 1 < counterBound) :
    (loopBody nested).entries frames tape s =
      nested.entries frames tape { s with loopDepth := s.loopDepth + 1 } := by
  have counted : Parser.countUp s.loopDepth = pure (s.loopDepth + 1) := countUp_eq few
  change (plain (Parser.countUp s.loopDepth) >>= _).entries frames tape s = _
  rw [counted]
  rfl

omit nests stands inside in
theorem result_loopBody_of_many (nested : Tracked Unit) (tape : List Lexeme)
    (many : ¬s.loopDepth + 1 < counterBound) :
    ((loopBody nested).parser tape s).result = .error .wrapped := by
  have wrapped : Parser.countUp s.loopDepth = Parser.trap .wrapped := if_neg many
  change ((Parser.countUp s.loopDepth >>= _) tape s).result = _
  rw [wrapped]
  rfl

omit nests stands inside in
theorem entries_loopBody_of_many (nested : Tracked Unit) (frames : List Frame)
    (tape : List Lexeme) (many : ¬s.loopDepth + 1 < counterBound) :
    (loopBody nested).entries frames tape s = [] := by
  have wrapped : Parser.countUp s.loopDepth = Parser.trap .wrapped := if_neg many
  change (plain (Parser.countUp s.loopDepth) >>= _).entries frames tape s = _
  rw [wrapped]
  rfl

omit nests stands inside in
theorem result_ending_leaveLoop {parser : Parser Unit} {loops : Nat} {outcome : Except Fault Unit}
    (counted : ∀ outcome s', (parser tape s).result = .ok (outcome, s') → s'.loopDepth = loops + 1)
    (ends : (Parser.ending parser Parser.leaveLoop tape s).result = .ok (outcome, s')) :
    ∃ s₁, (parser tape s).result = .ok (outcome, s₁) ∧ s' = { s₁ with loopDepth := loops } := by
  simp only [Parser.ending] at ends
  rcases run : (parser tape s).result with trap | ⟨outcome', s₁⟩ <;> rw [run] at ends
  · cases ends
  · simp only [Parser.leaveLoop, counted _ _ run] at ends
    cases ends
    exact ⟨s₁, rfl, rfl⟩

omit nests stands inside in
theorem result_ending_of_trap {parser : Parser α} {last : State → Except Trap State} {trap : Trap}
    (trapped : (parser tape s).result = .error trap) :
    (Parser.ending parser last tape s).result = .error trap := by
  simp only [Parser.ending, trapped]

/-- The body is in one loop more, which is taken back whatever comes of it. -/
theorem counts_loopBody :
    (within .loop (loopBody nested)).Counts frames tape s (.function index depth opened) := by
  have same (frames) : (within .loop (loopBody nested)).entries frames tape s =
      (loopBody nested).entries (.loop :: frames) tape s := rfl
  by_cases few : s.loopDepth + 1 < counterBound
  · have result := result_loopBody nested tape few
    have entries := entries_loopBody nested (.loop :: frames) tape few
    have body := nests _ _ (stands.looped inside) inside
    refine ⟨?_, ?_, fun _ _ ends => ?_, fun _ _ ends => ?_⟩
    · rw [same, entries]
      exact body.entries
    · rw [same, entries]
      exact fun entry among trap trapped => result.trans
        (result_ending_of_trap (body.traps entry among trap trapped))
    · obtain ⟨s₁, -, rfl⟩ := result_ending_leaveLoop body.loops (result.symm.trans ends)
      rfl
    · obtain ⟨s₁, run, rfl⟩ := result_ending_leaveLoop body.loops (result.symm.trans ends)
      exact body.context _ s₁ run
  · have result := result_loopBody_of_many nested tape few
    have entries := entries_loopBody_of_many nested (.loop :: frames) tape few
    refine ⟨?_, ?_, fun _ _ ends => (nomatch result.symm.trans ends),
      fun _ _ ends => (nomatch result.symm.trans ends)⟩
    · rw [same, entries]
      exact List.forall_mem_nil _
    · rw [same, entries]
      exact List.forall_mem_nil _

theorem counts_whileStatement :
    (whileStatement nested).Counts frames tape s (.function index depth opened) := by
  refine (counts_lift _ inside).bind ?_
  intro _ s₁ same₁ inside₁
  exact counts_loopBody nests (stands.next same₁ inside₁) inside₁

theorem counts_forStatement :
    (forStatement nested).Counts frames tape s (.function index depth opened) := by
  refine (counts_lift _ inside).bind ?_
  intro _ s₁ same₁ inside₁
  exact counts_loopBody nests (stands.next same₁ inside₁) inside₁

end

section

variable {index depth : Nat} {opened : Symbol}

theorem counts_statementWithin : ∀ fuel frames s, s.Stands frames →
    s.context = .function index depth opened →
    (statementWithin fuel).Counts frames tape s (.function index depth opened) := by
  intro fuel
  induction fuel with
  | zero => exact fun _ _ _ inside => counts_plain (Parser.keeps_trap _) inside
  | succ fuel ih =>
    intro frames s stands inside
    refine Counts.entering ?_ stands
    refine (counts_compound ih stands inside).bind ?_
    rintro (_ | _) s₁ same₁ inside₁
    case true => exact counts_pure () inside₁
    have stands₁ := stands.next same₁ inside₁
    refine (counts_lift _ inside₁).bind ?_
    rintro (_ | _) s₂ same₂ inside₂
    all_goals have stands₂ := stands₁.next same₂ inside₂
    case some => exact counts_ifStatement ih stands₂ inside₂
    refine (counts_lift _ inside₂).bind ?_
    rintro (_ | _) s₃ same₃ inside₃
    all_goals have stands₃ := stands₂.next same₃ inside₃
    case some => exact counts_whileStatement ih stands₃ inside₃
    refine (counts_lift _ inside₃).bind ?_
    rintro (_ | _) s₄ same₄ inside₄
    case some => exact counts_forStatement ih (stands₃.next same₄ inside₄) inside₄
    refine (counts_lift _ inside₄).bind ?_
    rintro (_ | word) s₅ - inside₅
    case some => exact counts_lift _ inside₅
    refine (counts_lift _ inside₅).bind ?_
    rintro (_ | word) s₆ - inside₆
    case some => exact counts_plain (Parser.keeps_returnValue word) inside₆
    refine (counts_lift _ inside₆).bind ?_
    rintro (_ | _) s₇ - inside₇
    case some => exact counts_pure () inside₇
    exact counts_lift _ inside₇

theorem counts_compoundStatement (stands : s.Stands frames)
    (inside : s.context = .function index depth opened) :
    compoundStatement.Counts frames tape s (.function index depth opened) := by
  refine counts_compound (fun frames s stands inside => ?_) stands inside
  exact counts_bounded fun fuel => counts_statementWithin fuel frames s stands inside

end

/-! ### Declarations -/

/-- Outside of all functions there are no loops. -/
theorem State.stands_nil (outside : s.loopDepth = 0) : s.Stands [] :=
  ⟨outside, fun some => absurd rfl some⟩

theorem counts_get {next : State → Tracked α} (counts : (next s).Counts frames tape s context) :
    (plain Parser.get >>= next).Counts frames tape s context :=
  ⟨counts.entries, counts.traps, counts.loops, counts.context⟩

/-- What is open is changed. -/
theorem counts_update {change : State → State} (loops : (change s).loopDepth = s.loopDepth)
    (inside : (change s).context = context) :
    (plain (Parser.update change)).Counts frames tape s context := by
  refine ⟨List.forall_mem_nil _, List.forall_mem_nil _, ?_, ?_⟩
  · rintro _ _ ⟨⟩
    exact loops
  · rintro _ _ ⟨⟩
    exact inside

/-- Behind a token that must not be there nothing is open, because there is nothing. -/
theorem counts_unexpected (wanted : Wanted) :
    (lift (Cursor.Parser.unexpected wanted) : Tracked α).Counts frames tape s context :=
  ⟨List.forall_mem_nil _, List.forall_mem_nil _,
    fun _ _ ends => (Parser.keeps_lift _ _ _ _ _ ends).1,
    fun a s' ends => (Parser.unexpected_ne wanted tape s a s' ends).elim⟩

theorem counts_members (outside : s.loopDepth = 0) (inside : s.context = context) :
    members.Counts [] tape s context := by
  refine counts_bounded fun fuel => ?_
  refine counts_repeating 0 ?_ (fun _ _ s _ inside => counts_pure () inside) fuel () s
    outside inside
  intro s outside inside
  refine (counts_varDeclaration (State.stands_nil outside) inside).bind ?_
  rintro (_ | _) s' - inside'
  · exact counts_pure none inside'
  · exact counts_pure (some ()) inside'

theorem counts_structBody (tape : List Lexeme) (name : Name) (outside : s.loopDepth = 0) :
    (structBody name).Counts [] tape s s.context := by
  refine counts_get ?_
  cases s.table.find? name.value with
  | some previous => exact counts_lift _ rfl
  | none =>
    refine (counts_plain (Parser.keeps_declare _ _) rfl).bind fun _ s₁ same₁ _ => ?_
    refine (counts_update rfl rfl).bind fun _ s₂ same₂ inside₂ => ?_
    refine (counts_members (same₂.trans (same₁.trans outside)) inside₂).bind fun _ s₃ _ _ => ?_
    refine (counts_update rfl rfl).bind fun _ s₄ _ inside₄ => ?_
    refine (counts_lift _ inside₄).bind fun _ s₅ _ inside₅ => ?_
    exact counts_lift _ inside₅

theorem counts_structDeclaration (outside : s.loopDepth = 0) :
    structDeclaration.Counts [] tape s s.context := by
  refine Counts.entering ?_ (State.stands_nil outside)
  refine counts_get ?_
  refine (counts_lift _ rfl).bind ?_
  rintro (_ | word) s₁ same₁ inside₁
  · exact counts_pure false inside₁
  refine (counts_lift _ inside₁).bind fun name s₂ same₂ inside₂ => ?_
  refine (counts_lift _ inside₂).bind ?_
  rintro (_ | opening) s₃ same₃ inside₃
  · exact (counts_lift _ inside₃).bind fun _ s₄ _ inside₄ => counts_pure false inside₄
  · have body := counts_structBody tape name (same₃.trans (same₂.trans (same₁.trans outside)))
    exact (inside₃ ▸ body).bind fun _ s₄ _ inside₄ => counts_pure true inside₄

theorem counts_functionBody (tape : List Lexeme) (ty : Ty) (name : Name)
    (outside : s.loopDepth = 0) :
    (functionBody ty name).Counts [] tape s s.context := by
  refine counts_get ?_
  refine (counts_plain (Parser.keeps_declare _ _) rfl).bind fun index s₁ same₁ inside₁ => ?_
  refine (counts_plain (Parser.keeps_countUp _) inside₁).bind fun depth s₂ same₂ _ => ?_
  refine (counts_update rfl rfl).bind fun _ s₃ same₃ inside₃ => ?_
  refine (counts_plain (Parser.keeps_params _ _) inside₃).bind fun _ s₄ same₄ inside₄ => ?_
  refine (counts_lift _ inside₄).bind fun _ s₅ same₅ inside₅ => ?_
  have outside₅ : s₅.loopDepth = 0 :=
    same₅.trans (same₄.trans (same₃.trans (same₂.trans (same₁.trans outside))))
  refine (counts_compoundStatement (State.stands_nil outside₅) inside₅).bind ?_
  rintro (_ | _) s₆ - inside₆
  · exact counts_unexpected _
  · refine (counts_update rfl rfl).bind fun _ s₇ _ inside₇ => ?_
    exact counts_plain (Parser.keeps_release _) inside₇

theorem counts_functionDeclaration (outside : s.loopDepth = 0) :
    functionDeclaration.Counts [] tape s s.context := by
  refine Counts.entering ?_ (State.stands_nil outside)
  refine counts_get ?_
  refine (counts_lift _ rfl).bind ?_
  rintro (_ | ty) s₁ same₁ inside₁
  · exact counts_pure false inside₁
  refine (counts_lift _ inside₁).bind ?_
  rintro (_ | name) s₂ same₂ inside₂
  · exact (counts_lift _ inside₂).bind fun _ s₃ _ inside₃ => counts_pure false inside₃
  refine (counts_lift _ inside₂).bind ?_
  rintro (_ | opening) s₃ same₃ inside₃
  · exact (counts_lift _ inside₃).bind fun _ s₄ _ inside₄ => counts_pure false inside₄
  · have body := counts_functionBody tape ty name
      (same₃.trans (same₂.trans (same₁.trans outside)))
    exact (inside₃ ▸ body).bind fun _ s₄ _ inside₄ => counts_pure true inside₄

theorem counts_declaration (outside : s.loopDepth = 0) :
    declaration.Counts [] tape s s.context := by
  refine Counts.entering ?_ (State.stands_nil outside)
  refine (counts_structDeclaration outside).bind ?_
  rintro (_ | _) s₁ same₁ inside₁
  case true => exact counts_pure () inside₁
  have outside₁ := same₁.trans outside
  refine (inside₁ ▸ counts_functionDeclaration outside₁).bind ?_
  rintro (_ | _) s₂ same₂ inside₂
  case true => exact counts_pure () inside₂
  refine (counts_varDeclaration (State.stands_nil (same₂.trans outside₁)) inside₂).bind ?_
  rintro (_ | _) s₃ same₃ inside₃
  · exact counts_unexpected _
  · exact counts_pure () inside₃

theorem counts_program (outside : s.loopDepth = 0) : program.Counts [] tape s s.context := by
  have turns : declarations.Counts [] tape s s.context := by
    refine counts_bounded fun fuel => ?_
    refine counts_repeating _ (fun s _ inside => counts_lift _ inside) ?_ fuel () s outside rfl
    intro _ _ s' outside' inside'
    exact inside' ▸ counts_declaration outside'
  exact turns.bind fun _ s₁ _ inside₁ => counts_get (counts_pure _ inside₁)

end Tracked

/-- What is entered is entered by the parser; if it does not run, then it is nothing. -/
theorem entries_cases (tokens : List Token) : entries tokens = [] ∨ Program.Ends tokens ∧
    entries tokens = Tracked.program.entries [] (Lexeme.number 0 tokens) (.outset .initial) ∧
      ofTokens tokens = Tracked.program.parser (Lexeme.number 0 tokens) (.outset .initial) := by
  cases found : (Lexeme.number 0 tokens).getLast? with
  | none => exact .inl (by simp only [entries, found])
  | some final =>
    by_cases isEnd : final.value = .endOfInput
    · refine .inr ⟨Program.ends_iff.mpr ⟨final, found, isEnd⟩, ?_, ?_⟩
      · simp only [entries, found, isEnd, ne_eq, not_true_eq_false, if_false, addExternals_empty]
      · simp only [ofTokens, found, isEnd, ne_eq, not_true_eq_false, if_false, addExternals_empty,
          Tracked.parser_program]
    · exact .inl (by simp only [entries, found, ne_eq, isEnd, not_false_eq_true, if_true])

/-- Whatever an analysis enters, the loops around it are counted in front of it, and behind it no
others are. -/
theorem counted_of_mem_entries {tokens : List Token} (unharmed : Unharmed tokens) :
    ∀ entry ∈ entries tokens, entry.IsCounted ∧ ∃ s, entry.left = .ok s := by
  intro entry among
  rcases entries_cases tokens with none | ⟨-, same, run⟩
  · rw [none] at among
    cases among
  have counts : Tracked.program.Counts [] (Lexeme.number 0 tokens) (.outset .initial) .global :=
    Tracked.counts_program rfl
  rw [same] at among
  refine ⟨counts.entries entry among, ?_⟩
  obtain ⟨s, result⟩ := unharmed.result
  cases left : entry.left with
  | ok s' => exact ⟨s', rfl⟩
  | error trap =>
    rw [run] at result
    cases result.symm.trans (counts.traps entry among trap left)

end Guarded

end PlainC
