import PlainC.Proofs.Cursor.Refinement
import PlainC.Proofs.Cursor.Sizes

set_option autoImplicit false

/-!
Types: what the parser with a cursor makes of them is what the analysis does, with the tokens that the
evaluator of sizes goes over.
-/

namespace PlainC

namespace OnePass

open Analysis

theorem read_bind_apply {α β : Type} (parse : Parse α) (next : α → Analysis β) (last : Lexeme)
    (s : State) : (Analysis.read parse >>= next) last s =
      next (parse last s.ahead).1 last { s with ahead := (parse last s.ahead).2 } := rfl

/-- A mark is taken, or it is not there. -/
theorem expect_eq (mark : Delimiter) : expect mark =
    (do match ← Analysis.read (Parse.mark? mark) with
        | some _ => return ()
        | none => unexpected (.mark mark)) := by
  funext last s
  rcases Parse.token?_cases (.delimiter mark) last s.ahead with ⟨place, behind, -, h⟩ | ⟨-, h⟩
  · simp only [expect, read_bind_apply, Parse.mark, Parse.mark?, Parse.token, Parse.bind_apply, h]
    rfl
  · simp only [expect, read_bind_apply, Parse.mark, Parse.mark?, Parse.token, Parse.bind_apply, h]
    rfl

theorem bind_apply {α β : Type} (analysis : Analysis α) (next : α → Analysis β) (last : Lexeme)
    (s : State) :
    (analysis >>= next) last s = (analysis last s).andThen fun a s' => next a last s' := rfl

theorem expectName_apply (wanted : Wanted) (last : Lexeme) (s : State) :
    expectName wanted last s =
      match Parse.name? last s.ahead with
      | (some name, behind) => ⟨[], .ok (name, { s with ahead := behind })⟩
      | (none, _) => unexpected wanted last s := by
  rcases Parse.name?_cases last s.ahead with ⟨name, behind, -, h⟩ | ⟨-, h⟩
  · simp only [expectName, read_bind_apply, Parse.name, Parse.bind_apply, h]
    rfl
  · simp only [expectName, read_bind_apply, Parse.name, Parse.bind_apply, h]
    rfl

theorem expectName_eq (wanted : Wanted) : expectName wanted =
    (do match ← Analysis.read Parse.name? with
        | some name => return name
        | none => unexpected wanted) := by
  funext last s
  rcases Parse.name?_cases last s.ahead with ⟨name, behind, -, h⟩ | ⟨-, h⟩
  · simp only [expectName_apply, read_bind_apply, h]
    rfl
  · simp only [expectName_apply, read_bind_apply, h]

theorem typeBase_eq : typeBase =
    (do if let some _ ← Analysis.read (Parse.keyword? .intKw) then
          return some .int
        if let some _ ← Analysis.read (Parse.keyword? .doubleKw) then
          return some .double
        if let some _ ← Analysis.read (Parse.keyword? .charKw) then
          return some .char
        match ← Analysis.read (Parse.keyword? .structKw) with
        | none => return none
        | some word =>
          let name ← expectName .structName
          return some (← check fun table => BaseName.resolve table (.struct word (.found name)))) := by
  funext last s
  rcases hint : Parse.keyword? .intKw last s.ahead with ⟨_ | word, ts⟩
  · rcases hdouble : Parse.keyword? .doubleKw last ts with ⟨_ | word, ts₁⟩
    · rcases hchar : Parse.keyword? .charKw last ts₁ with ⟨_ | word, ts₂⟩
      · rcases hstruct : Parse.keyword? .structKw last ts₂ with ⟨_ | word, ts₃⟩
        · simp only [typeBase, BaseName.parse?, read_bind_apply, Parse.bind_apply, hint, hdouble,
            hchar, hstruct]
          rfl
        · rcases Parse.name?_cases last ts₃ with ⟨name, behind, -, hname⟩ | ⟨-, hname⟩ <;>
          · simp only [typeBase, BaseName.parse?, Parse.name, read_bind_apply, Parse.bind_apply,
              hint, hdouble, hchar, hstruct, hname]
            rw [bind_apply (expectName _), expectName_apply, hname]
            rfl
      · simp only [typeBase, BaseName.parse?, read_bind_apply, Parse.bind_apply, hint, hdouble,
          hchar]
        rfl
    · simp only [typeBase, BaseName.parse?, read_bind_apply, Parse.bind_apply, hint, hdouble]
      rfl
  · simp only [typeBase, BaseName.parse?, read_bind_apply, Parse.bind_apply, hint]
    rfl

/-- The part of an array declaration behind its opening bracket, if there is a size. -/
def sized (opening : Place) : Analysis Extent := do
  let size ← Analysis.read Size.parse
  let closing ← Analysis.read (Parse.mark .rightBracket)
  check fun _ => (ArrayPart.sized opening size closing).extent

theorem arrayDecl_eq : arrayDecl =
    (do match ← Analysis.read (Parse.mark? .leftBracket) with
        | none => return none
        | some opening =>
          match ← Analysis.read (Parse.mark? .rightBracket) with
          | some _ => return some .unsized
          | none => return some (← sized opening)) := by
  funext last s
  rcases hopening : Parse.mark? .leftBracket last s.ahead with ⟨_ | opening, ts⟩
  · simp only [arrayDecl, ArrayPart.parse, read_bind_apply, Parse.bind_apply, hopening]
    rfl
  · rcases hclosing : Parse.mark? .rightBracket last ts with ⟨_ | closing, ts₁⟩ <;>
    · simp only [arrayDecl, ArrayPart.parse, read_bind_apply, Parse.bind_apply, hopening, hclosing]
      rfl

end OnePass

namespace Cursor

namespace Parser

open Run Walk

variable {tape : List Lexeme} {k : Nat} {last : Lexeme} {barrier : Barrier tape k last}

theorem refines_mark? (mark : Delimiter) :
    Refines barrier Eq (match? (.delimiter mark)) (OnePass.Analysis.read (Parse.mark? mark)) :=
  (reads_match? (.delimiter mark) nofun nofun).refines

theorem refines_keyword? (word : Keyword) :
    Refines barrier Eq (match? (.keyword word)) (OnePass.Analysis.read (Parse.keyword? word)) :=
  (reads_match? (.keyword word) nofun nofun).refines

theorem refines_operatorToken? (op : Operator) :
    Refines barrier Eq (match? (.operator op))
      (OnePass.Analysis.read (Parse.token? (.operator op))) :=
  (reads_match? (.operator op) nofun nofun).refines

theorem refines_operator? (ops : List Operator) :
    Refines barrier Eq (accept? (Parse.operatorAmong ops))
      (OnePass.Analysis.read (Parse.operator? ops)) :=
  (reads_accept? rfl rfl).refines

theorem refines_name? :
    Refines barrier Eq (accept? Parse.nameOf) (OnePass.Analysis.read Parse.name?) :=
  (reads_accept? rfl rfl).refines

theorem refines_peek : Refines barrier Eq current (OnePass.Analysis.read Parse.peek) :=
  reads_current.refines

theorem refines_expect (mark : Delimiter) :
    Refines barrier Eq (expect mark) (OnePass.expect mark) := by
  rw [OnePass.expect_eq]
  refine (refines_mark? _).seq ?_
  rintro (_ | place)
  · exact refines_unexpected _
  · exact refines_pure rfl

theorem refines_expectName (wanted : Wanted) :
    Refines barrier Eq (expectName wanted) (OnePass.expectName wanted) := by
  rw [OnePass.expectName_eq]
  refine refines_name?.seq ?_
  rintro (_ | name)
  · exact refines_unexpected _
  · exact refines_pure rfl

/-! ### Types -/

theorem refines_typeBase : Refines barrier Eq typeBase OnePass.typeBase := by
  rw [OnePass.typeBase_eq]
  refine (refines_keyword? _).seq ?_
  rintro (_ | word)
  · refine (refines_keyword? _).seq ?_
    rintro (_ | word)
    · refine (refines_keyword? _).seq ?_
      rintro (_ | word)
      · refine (refines_keyword? _).seq ?_
        rintro (_ | word)
        · exact refines_pure rfl
        · refine (refines_expectName _).seq fun name => ?_
          refine (refines_check _).seq fun base => ?_
          exact refines_pure rfl
      · exact refines_pure rfl
    · exact refines_pure rfl
  · exact refines_pure rfl

/-- A mark is read from the next token. -/
theorem mark_apply (barrier : Barrier tape k last) {index : Nat} (clear : Clear tape index)
    {mark : Delimiter} {next : Lexeme} (here : next = (ahead tape k index).headD last) :
    Parse.mark mark last (ahead tape k index) =
      if next.value = .delimiter mark then (.found next.place, ahead tape k (index + 1))
      else (.missing next, ahead tape k index) := by
  obtain ⟨⟨value, place⟩, -, -, -, front⟩ | ⟨-, -, front⟩ := clear.cases barrier
  · obtain rfl : next = ⟨value, place⟩ := by rw [here, front, List.headD_cons]
    by_cases same : value = .delimiter mark
    · subst same
      rw [front, if_pos rfl, Parse.mark_of_head]
    · rw [if_neg same, Parse.mark, Parse.token_of_ne, ← here]
      rw [front]
      rintro _ ⟨⟩
      exact same
  · obtain rfl : next = last := by rw [here, front, List.headD_nil]
    rw [front, barrier.isEnd, if_neg (by rintro ⟨⟩)]
    rfl

theorem extent_sized (opening : Place) (size : Size) (closing : Slot Place) :
    (ArrayPart.sized opening size closing).extent =
      size.value >>= fun value => ArrayPart.requireClosing closing >>= fun _ =>
        extentOf size.start value := rfl

theorem closing_of_passes {closing : Slot Place} (passes : (ArrayPart.requireClosing closing).Gives ()) :
    ∃ place, closing = .found place := by
  cases closing with
  | found place => exact ⟨place, rfl⟩
  | missing instead =>
    rw [ArrayPart.requireClosing] at passes
    split at passes <;> cases passes

/-- Without a bracket the size is not looked at, and nothing is gone over without a size. -/
theorem meets_closedBehind (barrier : Barrier tape k last) (s : State) (clear : Clear tape s.position)
    (start : Place) (value : Int) {closing : Slot Place} {rest : List Lexeme}
    (marked : Parse.mark .rightBracket last (ahead tape k s.position) = (closing, rest)) :
    (closedBehind start value tape s).Meets tape
      (Stop.IsFaultOf (ArrayPart.requireClosing closing >>= fun _ => extentOf start value))
      fun extent s' => Clear tape s'.position ∧ s'.memory = s.memory ∧
        rest = ahead tape k s'.position ∧
        (ArrayPart.requireClosing closing >>= fun _ => extentOf start value).Gives extent := by
  refine (meets_current barrier s clear).bind ?_
  rintro next s ⟨here, rfl⟩
  rw [mark_apply barrier clear here] at marked
  have slot : (if next.value = .delimiter .rightBracket then .found next.place
      else .missing next) = closing := by
    split at marked <;> rename_i closed <;> simp only [closed] <;> exact congrArg Prod.fst marked
  rw [slot]
  refine ((meets_settle _).mono (fun _ isFault => isFault.bind _) fun _ _ => id).bind ?_
  rintro ⟨⟩ _ ⟨passes, rfl⟩
  refine ((meets_settle _).mono (fun _ isFault => .behind passes isFault) fun _ _ => id).bind ?_
  rintro extent s ⟨fits, rfl⟩
  obtain ⟨place, rfl⟩ := closing_of_passes passes
  have closed : next.value = .delimiter .rightBracket := by
    split at slot
    · assumption
    · cases slot
  rw [if_pos closed] at marked
  obtain ⟨-, rfl⟩ := Prod.mk.inj marked
  obtain ⟨token, -, found, notEnd, front⟩ | ⟨-, -, front⟩ := clear.cases barrier
  · rw [here, front, List.headD_cons] at closed
    have further := clear.succ found (by simp [closed]) notEnd
    refine (meets_advance barrier _ clear front further).bind ?_
    rintro _ _ ⟨rfl, rfl⟩
    exact meets_pure ⟨further, rfl, rfl, Checked.gives_bind.mpr ⟨(), passes, fits⟩⟩
  · rw [here, front, List.headD_nil, barrier.isEnd] at closed
    cases closed

theorem refines_sized (opening : Place) :
    Refines barrier Eq sized (OnePass.sized opening) := by
  intro s clear _
  rcases read : Size.parse last (ahead tape k s.position) with ⟨size, rest⟩
  rcases marked : Parse.mark .rightBracket last rest with ⟨closing, rest'⟩
  have result : (OnePass.sized opening last (s.view tape k)).result =
      (ArrayPart.sized opening size closing).extent.result.map
        (·, ⟨rest', s.memory.table, s.memory.region, s.memory.functions, s.memory.loops⟩) := by
    simp only [OnePass.sized, OnePass.read_bind_apply, State.view, read, marked]
    rfl
  have start : size.start = ((ahead tape k s.position).headD last).place := by
    have begins := Size.parseWithin_begins ((ahead tape k s.position).length + 1) last
      (ahead tape k s.position)
    rwa [show Size.parseWithin _ _ _ = _ from read] at begins
  rw [result, extent_sized, start]
  simp only [Checked.result_map_eq_error]
  refine (meets_current barrier s clear).bind ?_
  rintro _ s ⟨rfl, rfl⟩
  refine ((meets_evaluate barrier s clear read).mono (fun _ isFault => isFault.bind _)
    fun _ _ => id).bind ?_
  rintro ⟨value, consumed⟩ s ⟨rfl, gives, further, behind⟩
  refine meets_get.bind ?_
  rintro _ s ⟨rfl, rfl⟩
  refine (meets_moveTo further s).bind ?_
  rintro _ _ rfl
  rw [show rest = _ from behind] at marked
  refine (meets_closedBehind barrier _ further _ value marked).mono
    (fun _ isFault => .behind gives isFault) ?_
  rintro extent s' ⟨clear', same, rfl, fits⟩
  refine ⟨clear', extent, ?_, rfl⟩
  rw [Checked.result_bind_of_gives gives, fits, State.view, same]
  rfl

theorem refines_arrayDecl : Refines barrier Eq arrayDecl OnePass.arrayDecl := by
  rw [OnePass.arrayDecl_eq]
  refine (refines_mark? _).seq ?_
  rintro (_ | opening)
  · exact refines_pure rfl
  · refine (refines_mark? _).seq ?_
    rintro (_ | closing)
    · refine (refines_sized opening).seq fun extent => ?_
      exact refines_pure rfl
    · exact refines_pure rfl

end Parser

end Cursor

end PlainC
