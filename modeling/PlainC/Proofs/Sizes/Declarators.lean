import PlainC.Proofs.Cursor.Productions
import PlainC.Proofs.Grammar.Trees
import PlainC.Proofs.Sizes.Evaluator

set_option autoImplicit false

/-!
Declarators of arrays. The parser takes the size from the evaluator, goes over as many tokens as the
evaluator did, and refuses what is no number of elements at the first token of the size.
-/

namespace PlainC

namespace Size

open Grammar Grammar.Form

/-- The lexemes are those of a well-formed size. -/
def IsTreeOf (size : Size) (written : List Lexeme) : Prop :=
  size.Formed ∧ Gapless size.parts ∧ lexemesOf size.parts = written

/-- The grammar derives the kinds of just those lexemes that a well-formed size is made of. -/
theorem derives_iff (written : List Lexeme) :
    Derives (rule .constIntExpr) (written.map At.value) ↔ ∃ size : Size, size.IsTreeOf written := by
  constructor
  · intro derived
    obtain ⟨size, ⟨formed, -⟩, gapless, rfl⟩ := derived.holds hasTree_closed written rfl
    exact ⟨size, formed, gapless, rfl⟩
  · rintro ⟨size, formed, gapless, rfl⟩
    exact size.derives formed gapless

/-- The extent of an array with a number of elements, which is refused at a place if it is none. -/
def elements (start : Place) (value : Int) : Except Fault Extent :=
  if 1 ≤ value ∧ value ≤ 0xffffffff then .ok (.sized value.toNat)
  else .error ⟨.violation (if value ≤ 0 then .sizeNotPositive value else .sizeTooLarge value), start⟩

/-- A size begins at its first lexeme. -/
theorem exists_head {size : Size} (gapless : Gapless size.parts) :
    ∃ first behind, lexemesOf size.parts = first :: behind ∧ first.place = size.start := by
  induction size with
  | literal | signed | paren => exact ⟨_, _, rfl, rfl⟩
  | missing => simp [parts] at gapless
  | binary op left right ih =>
    simp only [parts, gapless_append] at gapless
    obtain ⟨first, behind, same, place⟩ := ih gapless.1.1
    exact ⟨first, _, by rw [parts, lexemesOf_append, lexemesOf_append, same]; rfl, place⟩

end Size

namespace Cursor

namespace Walk

variable {σ α β : Type} {tape : List Lexeme} {s s' : σ} {walk : Walk σ α} {next : α → Walk σ β}

theorem result_bind_of_ok {a : α} (first : (walk tape s).result = .ok (a, s')) :
    ((walk >>= next) tape s).result = (next a tape s').result := by
  change ((walk tape s).andThen fun a s' => next a tape s').result = _
  rw [Run.andThen, first]

theorem result_bind_of_error {stop : Stop} (first : (walk tape s).result = .error stop) :
    ((walk >>= next) tape s).result = .error stop := by
  change ((walk tape s).andThen fun a s' => next a tape s').result = _
  rw [Run.andThen, first]

end Walk

namespace Parser

open Walk

variable {α : Type} {tape rest : List Lexeme} {s : State} {t : Lexeme} {size : Size}

theorem result_current (here : tape.drop s.position = t :: rest) :
    (current tape s).result = .ok (t, s) := by
  rw [current, result_bind_of_ok (rfl : (Walk.get tape s).result = .ok (s, s)), token,
    Evaluator.getElem?_of_drop here]

theorem result_advance (here : tape.drop s.position = t :: rest) (notEnd : t.value ≠ .endOfInput) :
    (advance tape s).result = .ok (t, { s with position := s.position + 1 }) := by
  have looked : (atEnd tape s).result = .ok (false, s) := by
    rw [atEnd, result_bind_of_ok (result_current here), decide_eq_false notEnd]
    rfl
  rw [advance, result_bind_of_ok (result_current here), result_bind_of_ok looked]
  rfl

theorem result_accept? {read : Kind → Option α} {a : α}
    (here : tape.drop s.position = t :: rest) (reads : read t.value = some a)
    (notEnd : t.value ≠ .endOfInput) :
    (accept? read tape s).result = .ok (some ⟨a, t.place⟩, { s with position := s.position + 1 }) := by
  rw [accept?, result_bind_of_ok (result_current here), reads,
    result_bind_of_ok (result_advance here notEnd)]
  rfl

theorem result_accept?_none {read : Kind → Option α} (here : tape.drop s.position = t :: rest)
    (reads : read t.value = none) : (accept? read tape s).result = .ok (none, s) := by
  rw [accept?, result_bind_of_ok (result_current here), reads]
  rfl

theorem result_match? {kind : Kind} {place : Place}
    (here : tape.drop s.position = ⟨kind, place⟩ :: rest) (notEnd : kind ≠ .endOfInput) :
    (match? kind tape s).result = .ok (some place, { s with position := s.position + 1 }) := by
  rw [match?, result_bind_of_ok (result_accept? here (if_pos rfl) notEnd)]
  rfl

theorem result_match?_none {kind : Kind} (here : tape.drop s.position = t :: rest)
    (other : t.value ≠ kind) : (match? kind tape s).result = .ok (none, s) := by
  rw [match?, result_bind_of_ok (result_accept?_none here (if_neg other))]
  rfl

/-! ### Sizes -/

/-- The evaluator tells how many tokens it went over. -/
theorem ends_evaluate (formed : size.Formed) (gapless : Gapless size.parts)
    (stops : Size.Stops 5 rest) (here : tape.drop s.position = lexemesOf size.parts ++ rest) :
    (evaluate tape s).result = match size.value.result with
      | .ok value => .ok ((value, (lexemesOf size.parts).length), s)
      | .error fault => .error (.fault fault) := by
  have ends := Evaluator.ends_size formed gapless stops
  rw [Run.Ends] at ends
  simp only [evaluate, here, ends]
  cases size.value.result <;> rfl

theorem ends_closedBehind {closing start : Place} {value : Int}
    (here : tape.drop s.position = ⟨.delimiter .rightBracket, closing⟩ :: rest) :
    (closedBehind start value tape s).Ends (extentOf start value)
      { s with position := s.position + 1 } := by
  rw [← bind_pure (extentOf start value)]
  refine ends_behind (result_current here) ?_
  rw [if_pos rfl]
  have closed : (settle (ArrayPart.requireClosing (.found closing)) tape s).result = .ok ((), s) := rfl
  refine ends_behind closed ?_
  refine ends_bind (ends_settle _) fun extent _ => ?_
  exact ends_behind (result_advance here (by nofun)) (ends_pure extent)

theorem ends_sized {closing : Place} (formed : size.Formed) (gapless : Gapless size.parts)
    (here : tape.drop s.position =
      lexemesOf size.parts ++ ⟨.delimiter .rightBracket, closing⟩ :: rest) :
    (sized tape s).Ends (size.value >>= extentOf size.start)
      { s with position := s.position + (lexemesOf size.parts).length + 1 } := by
  obtain ⟨first, behind, written, place⟩ := size.exists_head gapless
  have evaluated := ends_evaluate formed gapless (by simp [Size.Stops]) here
  have begins : tape.drop s.position =
      first :: (behind ++ ⟨.delimiter .rightBracket, closing⟩ :: rest) := by
    rw [here, written]
    rfl
  refine ends_behind (result_current begins) ?_
  rw [place]
  cases gives : size.value.result with
  | error fault =>
    rw [gives] at evaluated
    rw [Run.Ends, result_bind_of_error evaluated, Checked.result_bind_of_fails gives]
  | ok value =>
    rw [gives] at evaluated
    rw [Run.Ends, Checked.result_bind_of_gives gives]
    refine ends_behind evaluated ?_
    refine ends_behind (rfl : (Walk.get tape s).result = .ok (s, s)) ?_
    refine ends_behind (a := ()) rfl ?_
    exact ends_closedBehind (Evaluator.drop_add here)

theorem ends_extent {opening closing : Place} (formed : size.Formed) (gapless : Gapless size.parts)
    (here : tape.drop s.position = ⟨.delimiter .leftBracket, opening⟩ ::
      (lexemesOf size.parts ++ ⟨.delimiter .rightBracket, closing⟩ :: rest)) :
    (extent tape s).Ends (size.value >>= extentOf size.start)
      { s with position := s.position + (lexemesOf size.parts).length + 2 } := by
  have behind := Evaluator.drop_succ here
  have noBracket : (match? (.delimiter .rightBracket) tape
      { s with position := s.position + 1 }).result =
        .ok (none, { s with position := s.position + 1 }) := by
    obtain ⟨first, others, written, -⟩ := size.exists_head gapless
    have other := Size.head_ne_rightBracket formed gapless
      (⟨.delimiter .rightBracket, closing⟩ :: rest)
    rw [written] at other behind
    exact result_match?_none behind (other first rfl)
  have ended := ends_sized (s := { s with position := s.position + 1 }) formed gapless behind
  rw [show s.position + 1 + (lexemesOf size.parts).length + 1 =
    s.position + (lexemesOf size.parts).length + 2 by omega] at ended
  have declared : (arrayDecl tape s).Ends
      ((size.value >>= extentOf size.start) >>= fun extent => pure (some extent))
      { s with position := s.position + (lexemesOf size.parts).length + 2 } := by
    refine ends_behind (result_match? here nofun) ?_
    refine ends_behind noBracket ?_
    exact ends_bind ended fun extent _ => ends_pure (some extent)
  have whole := ends_bind declared fun extent _ => ends_pure (extent.getD .scalar)
  simp only [bind_assoc, pure_bind, Option.getD_some, bind_pure] at whole
  exact whole

/-- A declarator of an array without an initializer declares the name with the extent. -/
theorem result_declarator {name : Name} {opening closing : Place} {next : Lexeme} (base : Base)
    (formed : size.Formed) (gapless : Gapless size.parts)
    (here : tape.drop s.position = ⟨.identifier name.value, name.place⟩ ::
      ⟨.delimiter .leftBracket, opening⟩ ::
        (lexemesOf size.parts ++ ⟨.delimiter .rightBracket, closing⟩ :: next :: rest))
    (uninitialized : next.value ≠ .operator .assign) :
    (declarator base tape s).result =
      match (size.value >>= extentOf size.start).result with
      | .ok extent =>
        (store (fun table => s.memory.region.declare table name ⟨base, extent⟩) tape
          { s with position := s.position + (lexemesOf size.parts).length + 3 }).result
      | .error fault => .error (.fault fault) := by
  have behind := Evaluator.drop_succ here
  have named : (expectName .variableName tape s).result =
      .ok (name, { s with position := s.position + 1 }) := by
    rw [expectName, result_bind_of_ok (result_accept? here (a := name.value) rfl nofun)]
    rfl
  have ended := ends_extent (s := { s with position := s.position + 1 }) formed gapless behind
  have further : tape.drop (s.position + (lexemesOf size.parts).length + 3) = next :: rest := by
    have inside := Evaluator.drop_add (Evaluator.drop_succ behind)
    have closed := Evaluator.drop_succ inside
    rwa [show s.position + 1 + 1 + (lexemesOf size.parts).length + 1 =
      s.position + (lexemesOf size.parts).length + 3 by omega] at closed
  simp only [show s.position + 1 + (lexemesOf size.parts).length + 2 =
    s.position + (lexemesOf size.parts).length + 3 by omega] at ended
  generalize arrived : ({ s with position := s.position + (lexemesOf size.parts).length + 3 } : State) =
    s' at ended ⊢
  rw [Run.Ends] at ended
  rw [declarator, result_bind_of_ok named]
  cases gives : (size.value >>= extentOf size.start).result with
  | error fault =>
    rw [gives] at ended
    exact result_bind_of_error ended
  | ok extent =>
    rw [gives] at ended
    have unchanged (region : Region) (ty : Ty) :
        (initialized region name ty tape s').result = .ok (ty, s') := by
      subst arrived
      rw [initialized, result_bind_of_ok (result_match?_none further uninitialized)]
      rfl
    have same : s.memory.region = s'.memory.region := by rw [← arrived]
    rw [result_bind_of_ok ended, same]
    exact (result_bind_of_ok (rfl : (Walk.get tape s').result = .ok (s', s'))).trans
      (result_bind_of_ok (unchanged _ _))

theorem result_extentOf (start : Place) (value : Int) :
    (extentOf start value).result = Size.elements start value := by
  unfold extentOf maxExtent Size.elements
  by_cases small : value ≤ 0
  · rw [if_pos small, if_neg (by omega), if_pos small]
    rfl
  · by_cases large : value > (0xffffffff : Nat)
    · rw [if_neg small, if_pos large, if_neg (by omega), if_neg small]
      rfl
    · rw [if_neg small, if_neg large, if_pos (by omega)]
      rfl

end Parser

end Cursor

/-! ### Exact sizes -/

theorem ArrayPart.extent_sized (opening closing : Place) (size : Size) :
    (ArrayPart.sized opening size (.found closing)).extent =
      size.value >>= Cursor.Parser.extentOf size.start := rfl

/-- Whatever follows is no operator of a size. -/
def NoOperator (rest : List Lexeme) : Prop :=
  ∀ t ∈ rest.head?, ∀ op ∈ [Operator.plus, .minus, .star, .slash, .percent], t.value ≠ .operator op

theorem NoOperator.stops {rest : List Lexeme} (other : NoOperator rest) : Size.Stops 5 rest := by
  intro t first op same
  refine Nat.lt_of_not_le fun arithmetic => other t first op ?_ same
  cases op <;> simp [Operator.level] at arithmetic ⊢

/-- A size is computed by exact arithmetic, by the check of its tree as well as by the evaluator on its
way over the tokens. -/
structure Size.IsExact (size : Size) : Prop where
  /-- Just its tokens are read. -/
  read : ∀ last rest, NoOperator rest →
    Size.parse last (lexemesOf size.parts ++ rest) = (size, rest)
  value : size.value.result = size.outcome
  /-- The evaluator gives the value and the number of tokens. -/
  evaluated : ∀ tape (s : Cursor.State) rest, tape.drop s.position = lexemesOf size.parts ++ rest →
    NoOperator rest →
    (Cursor.Parser.evaluate tape s).result = match size.outcome with
      | .ok value => .ok ((value, (lexemesOf size.parts).length), s)
      | .error fault => .error (.fault fault)
  /-- A variable is declared with as many elements. -/
  declared : ∀ region base table (name : Name) opening closing,
    (Declarator.declare region base table
      ⟨.found name, .sized opening size (.found closing), none⟩).result =
        (size.outcome >>= elements size.start) >>= fun extent =>
          (region.declare table name ⟨base, extent⟩).result
  /-- And so it is where the evaluator hands the number of tokens over to the cursor. -/
  handed : ∀ tape (s : Cursor.State) rest base (name : Name) opening closing (next : Lexeme),
    tape.drop s.position = ⟨.identifier name.value, name.place⟩ ::
      ⟨.delimiter .leftBracket, opening⟩ ::
        (lexemesOf size.parts ++ ⟨.delimiter .rightBracket, closing⟩ :: next :: rest) →
    next.value ≠ .operator .assign →
    (Cursor.Parser.declarator base tape s).result =
      match size.outcome >>= elements size.start with
      | .ok extent =>
        (Cursor.Parser.store (fun table => s.memory.region.declare table name ⟨base, extent⟩) tape
          { s with position := s.position + (lexemesOf size.parts).length + 3 }).result
      | .error fault => .error (.fault fault)

/-- What the grammar derives as a constant expression has a tree, and if its literals have values, it is
computed exactly. -/
theorem Size.isExact (written : List Lexeme)
    (derived : Grammar.Derives (.rule .constIntExpr) (written.map At.value)) :
    (∃ size : Size, size.IsTreeOf written) ∧
      ∀ size : Size, size.IsTreeOf written → size.Decodes → size.IsExact := by
  refine ⟨(derives_iff written).mp derived, ?_⟩
  rintro size ⟨formed, gapless, -⟩ decodes
  have value := size.result_value formed gapless decodes
  have extent : (size.value >>= Cursor.Parser.extentOf size.start).result =
      size.outcome >>= elements size.start := by
    rw [Logged.result_bind, value]
    exact bind_congr (Cursor.Parser.result_extentOf size.start)
  refine ⟨fun last rest other => ?_, value, fun tape s rest here other => ?_, ?_, ?_⟩
  · exact parseWithin_readsBack _ last size rest (Nat.lt_succ_self _) formed
      (five_le_tightness formed) gapless other.stops
  · rw [Cursor.Parser.ends_evaluate formed gapless other.stops here, value]
  · intro region base table name opening closing
    have same : Declarator.declare region base table
        ⟨.found name, .sized opening size (.found closing), none⟩ =
          (size.value >>= Cursor.Parser.extentOf size.start) >>= fun extent =>
            region.declare table name ⟨base, extent⟩ := by
      simp [Declarator.declare, Declarator.type, ArrayPart.extent_sized, Checked.require]
    rw [same, Logged.result_bind, extent]
  · intro tape s rest base name opening closing next here uninitialized
    rw [Cursor.Parser.result_declarator base formed gapless here uninitialized, extent]

/-- The tokens of `x[7 / 2];`. -/
def quotientTape : List Lexeme :=
  [⟨.identifier "x", ⟨0, ⟨0, 1⟩, 1⟩⟩, ⟨.delimiter .leftBracket, ⟨1, ⟨1, 2⟩, 1⟩⟩,
    ⟨.literal .integer "7", ⟨2, ⟨2, 3⟩, 1⟩⟩, ⟨.operator .slash, ⟨3, ⟨4, 5⟩, 1⟩⟩,
    ⟨.literal .integer "2", ⟨4, ⟨6, 7⟩, 1⟩⟩, ⟨.delimiter .rightBracket, ⟨5, ⟨7, 8⟩, 1⟩⟩,
    ⟨.delimiter .semicolon, ⟨6, ⟨8, 9⟩, 1⟩⟩]

/-- In `x[7 / 2];` the evaluator goes over three tokens, and the extent is 3. -/
theorem Size.isExact_quotient :
    Grammar.Derives (.rule .constIntExpr)
      [.literal .integer "7", .operator .slash, .literal .integer "2"] ∧
    (Cursor.Parser.evaluate quotientTape ⟨2, ⟨.initial, .topLevel, 0, 0⟩⟩).result =
      .ok ((3, 3), ⟨2, ⟨.initial, .topLevel, 0, 0⟩⟩) ∧
    (Cursor.Parser.declarator .int quotientTape ⟨0, ⟨.initial, .topLevel, 0, 0⟩⟩).result =
      (Cursor.Parser.store (fun table =>
        Region.topLevel.declare table ⟨"x", ⟨0, ⟨0, 1⟩, 1⟩⟩ ⟨.int, .sized 3⟩)
        quotientTape ⟨6, ⟨.initial, .topLevel, 0, 0⟩⟩).result := by
  have tree : (binary ⟨.slash, ⟨3, ⟨4, 5⟩, 1⟩⟩ (literal ⟨"7", ⟨2, ⟨2, 3⟩, 1⟩⟩)
      (literal ⟨"2", ⟨4, ⟨6, 7⟩, 1⟩⟩)).IsTreeOf [⟨.literal .integer "7", ⟨2, ⟨2, 3⟩, 1⟩⟩,
        ⟨.operator .slash, ⟨3, ⟨4, 5⟩, 1⟩⟩, ⟨.literal .integer "2", ⟨4, ⟨6, 7⟩, 1⟩⟩] :=
    ⟨by simp [Formed, Operator.level, tightness], rfl, rfl⟩
  have derived := (derives_iff _).mpr ⟨_, tree⟩
  obtain ⟨-, exact⟩ := isExact _ derived
  obtain ⟨-, -, evaluated, -, handed⟩ := exact _ tree ⟨⟨7, rfl⟩, ⟨2, rfl⟩⟩
  exact ⟨derived, evaluated _ _ _ rfl (by simp [NoOperator]),
    handed _ _ _ _ _ _ _ _ rfl (by simp)⟩

end PlainC
