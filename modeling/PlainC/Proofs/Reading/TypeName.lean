import PlainC.Proofs.Reading.Repetition
import PlainC.TypeName.Parse

set_option autoImplicit false

/-!
Reading array sizes and types: what is read is well formed and made of the lexemes that were taken,
and a well-formed tree without gaps is read back from its lexemes.
-/

namespace PlainC

theorem Operator.mem_additive_iff (op : Operator) : op ∈ [plus, minus] ↔ op.level = 5 := by
  cases op <;> simp [level]

theorem Operator.mem_multiplicative_iff (op : Operator) :
    op ∈ [star, slash, percent] ↔ op.level = 6 := by
  cases op <;> simp [level]

namespace Size

/-! ### Levels -/

/-- A size at a level is a chain of operands of the next one. -/
theorem chain_iff {ops : List Operator} {level : Nat} (mem : ∀ op, op ∈ ops ↔ op.level = level)
    (positive : 5 ≤ level) (below : level < 7) (size : Size) :
    Parse.Chain .binary ops (fun s => s.Formed ∧ level + 1 ≤ s.tightness) size ↔
      size.Formed ∧ level ≤ size.tightness := by
  constructor
  · intro chain
    induction chain with
    | first operand => exact ⟨operand.1, by omega⟩
    | @next op left right among _ operand ih =>
      have same := (mem op.value).mp among
      exact ⟨⟨by omega, ih.1, by omega, operand.1, by omega⟩, by simp only [tightness]; omega⟩
  · rintro ⟨formed, tight⟩
    induction size with
    | binary op left right ihLeft =>
      obtain ⟨isBinary, formedLeft, tightLeft, formedRight, tightRight⟩ := formed
      simp only [tightness] at tight
      by_cases same : op.value.level = level
      · exact .next ((mem _).mpr same) (ihLeft formedLeft (by omega)) ⟨formedRight, by omega⟩
      · exact .first ⟨⟨isBinary, formedLeft, tightLeft, formedRight, tightRight⟩,
          by simp only [tightness]; omega⟩
    | signed => exact .first ⟨formed, by simp only [tightness] at tight ⊢; omega⟩
    | literal | paren | missing => exact .first ⟨formed, by simp only [tightness]; omega⟩

/-! ### What is read is well formed -/

/-- Reads fewer than `n` lexemes as sizes at a level. -/
def Reader (level n : Nat) (parser : Parse Size) : Prop :=
  ∀ last ts, ts.length < n → ∃ size rest, parser last ts = (size, rest) ∧
    Spans last size.parts ts rest ∧ size.Formed ∧ level ≤ size.tightness

variable {nested operand : Parse Size} {n fuel : Nat}

theorem gap_reads (last : Lexeme) (ts : List Lexeme) :
    gap last ts = (.missing (ts.headD last), ts) := rfl

theorem parsePrimary_reader (reads : Reader 5 n nested) : Reader 8 (n + 1) (parsePrimary nested) := by
  intro last ts short
  rcases Parse.accept?_cases integerText last ts with ⟨t, behind, text, rfl, found, h⟩ | ⟨-, h⟩
  · obtain ⟨value, place⟩ := t
    refine ⟨.literal ⟨text, place⟩, behind, by simp [parsePrimary, h], ?_, trivial, by simp [tightness]⟩
    unfold integerText at found
    split at found <;> simp_all [parts]
  · rcases Parse.token?_cases (.delimiter .leftParen) last ts with
        ⟨opening, behind, rfl, hopening⟩ | ⟨-, hopening⟩
    · obtain ⟨inner, middle, hinner, spans, formed, -⟩ := reads last behind (by simpa using short)
      obtain ⟨closing, rest, hclosing, spans', -⟩ := Parse.mark_reads .rightParen last middle
      refine ⟨.paren opening inner closing, rest,
        by simp [parsePrimary, h, Parse.mark?, hopening, hinner, hclosing], ?_, formed,
        by simp [tightness]⟩
      simp only [parts, spans_append, Delimiter.part, Kind.part, spans_found, spans_nil]
      exact ⟨middle, ⟨_, ⟨_, rfl, rfl⟩, spans⟩, spans'⟩
    · exact ⟨.missing (ts.headD last), ts,
        by simp [parsePrimary, h, Parse.mark?, hopening, gap_reads], by simp [parts], trivial,
        by simp [tightness]⟩

theorem parseSigned_reader (reads : Reader 5 n nested) :
    ∀ {fuel}, fuel ≤ n + 1 → Reader 7 fuel (parseSigned nested fuel) := by
  intro fuel
  induction fuel with
  | zero => intro _ last ts short; simp at short
  | succ fuel ih =>
    intro bound last ts short
    rcases Parse.operator?_cases [.minus, .plus] last ts with
        ⟨sign, behind, among, rfl, hsign⟩ | ⟨-, hsign⟩
    · obtain ⟨operand, rest, hoperand, spans, formed, tight⟩ :=
        ih (by omega) last behind (by simpa using short)
      exact ⟨.signed sign operand, rest, by simp [parseSigned, hsign, hoperand],
        by simpa [parts] using spans, ⟨among, formed, tight⟩, by simp [tightness]⟩
    · obtain ⟨size, rest, hsize, spans, formed, tight⟩ :=
        parsePrimary_reader reads last ts (by omega)
      exact ⟨size, rest, by simp [parseSigned, hsign, hsize], spans, formed, by omega⟩

theorem leftAssociative_reader {ops : List Operator} {level : Nat}
    (mem : ∀ op, op ∈ ops ↔ op.level = level) (positive : 5 ≤ level) (below : level < 7)
    (reads : Reader (level + 1) n operand) (enough : n ≤ fuel + 1) :
    Reader level n (Parse.leftAssociative .binary ops fuel operand) := by
  intro last ts short
  obtain ⟨size, rest, h, spans, chain, -⟩ := Parse.leftAssociative_reads .binary ops parts
    (fun s => s.Formed ∧ level + 1 ≤ s.tightness) (fun _ _ => True)
    (fun _ _ _ => rfl) (fun _ _ _ _ => Iff.rfl)
    (fun last ts short =>
      have ⟨size, rest, h, spans, good⟩ := reads last ts short
      ⟨size, rest, h, spans, good, trivial⟩)
    enough last short
  exact ⟨size, rest, h, spans, (chain_iff mem positive below size).mp chain⟩

theorem parseWithin_reader (fuel : Nat) : Reader 5 fuel (parseWithin fuel) := by
  induction fuel with
  | zero => intro last ts short; simp at short
  | succ fuel ih =>
    have factor := parseSigned_reader ih (Nat.le_refl (fuel + 1))
    have term := leftAssociative_reader Operator.mem_multiplicative_iff (by omega) (by omega) factor
      (Nat.le_refl (fuel + 1))
    exact leftAssociative_reader Operator.mem_additive_iff (by omega) (by omega) term
      (Nat.le_refl (fuel + 1))

theorem parse_reads : Parse.Reads Size.parse parts Formed := by
  intro last ts
  obtain ⟨size, rest, h, spans, formed, -⟩ := parseWithin_reader (ts.length + 1) last ts (by omega)
  exact ⟨size, rest, h, spans, formed⟩

/-! ### Well-formed sizes are read back -/

/-- The lexemes do not go on with an operator of the level or of a tighter one. -/
def Stops (level : Nat) (rest : List Lexeme) : Prop :=
  ∀ t ∈ rest.head?, ∀ op, t.value = .operator op → op.level < level

theorem stops_of_closed {rest : List Lexeme} (closed : Closed rest) (level : Nat) :
    Stops level rest := by
  intro t ht op same
  obtain ⟨mark, -, value⟩ := closed t ht
  simp [same] at value

/-- Reads back every size at a level from fewer than `n` lexemes. -/
def ReadsBack (level n : Nat) (parser : Parse Size) : Prop :=
  ∀ last (size : Size) rest, (lexemesOf size.parts ++ rest).length < n →
    size.Formed → level ≤ size.tightness → Gapless size.parts → Stops level rest →
    parser last (lexemesOf size.parts ++ rest) = (size, rest)

theorem parsePrimary_readsBack (reads : ReadsBack 5 n nested) :
    ReadsBack 8 (n + 1) (parsePrimary nested) := by
  intro last size rest short formed tight gapless stops
  cases size with
  | literal text => simp [parts, parsePrimary, Parse.accept?, integerText]
  | paren opening inner closing =>
    cases closing with
    | missing instead => simp [parts] at gapless
    | found closing =>
      simp only [parts, Delimiter.part, Kind.part, Slot.parts, gapless_append, gapless_found,
        gapless_nil, and_true, true_and] at gapless
      simp only [parts, Delimiter.part, Kind.part, Slot.parts, lexemesOf_append, lexemesOf_found,
        lexemesOf_nil, List.cons_append, List.nil_append, List.append_assoc,
        List.length_cons] at short ⊢
      have hinner := reads last inner (⟨.delimiter .rightParen, closing⟩ :: rest) (by omega) formed
        (by cases inner <;> simp [tightness, Formed] at formed ⊢; omega) gapless
        (by simp [Stops])
      simp [parsePrimary, Parse.accept?, integerText, Parse.mark?, Parse.mark, Parse.token?_of_head,
        Parse.token_of_head, hinner]
  | missing instead => simp [parts] at gapless
  | signed sign operand => simp [tightness] at tight
  | binary op left right =>
    simp only [tightness] at tight
    cases h : op.value <;> simp [h, Operator.level] at tight

theorem parseSigned_readsBack (reads : ReadsBack 5 n nested) :
    ∀ {fuel}, fuel ≤ n + 1 → ReadsBack 7 fuel (parseSigned nested fuel) := by
  intro fuel
  induction fuel with
  | zero => intro _ last size rest short; simp at short
  | succ fuel ih =>
    intro bound last size rest short formed tight gapless stops
    by_cases primary : 8 ≤ size.tightness
    · have other : Parse.operator? [.minus, .plus] last (lexemesOf size.parts ++ rest) =
          (none, lexemesOf size.parts ++ rest) := by
        apply Parse.operator?_of_ne
        cases size with
        | literal | paren => simp [parts]
        | missing => simp [parts] at gapless
        | signed => simp [tightness] at primary
        | binary op left right =>
          simp only [tightness] at primary
          cases h : op.value <;> simp [h, Operator.level] at primary
      have hsize := parsePrimary_readsBack reads last size rest (by omega) formed primary gapless
        (fun t ht op same => Nat.lt_succ_of_lt (stops t ht op same))
      simp [parseSigned, other, hsize]
    · cases size with
      | signed sign operand =>
        obtain ⟨among, formed, tight⟩ := formed
        simp only [parts, operatorPart, Kind.part, List.cons_append, List.nil_append,
          lexemesOf_found, gapless_found, List.length_cons] at short gapless ⊢
        have hoperand := ih (by omega) last operand rest (by omega) formed tight gapless stops
        simp [parseSigned, Parse.operator?_of_head among, hoperand]
      | literal | paren | missing => simp [tightness] at primary
      | binary op left right =>
        simp only [tightness] at tight
        cases h : op.value <;> simp [h, Operator.level] at tight

theorem leftAssociative_readsBack {ops : List Operator} {level : Nat}
    (mem : ∀ op, op ∈ ops ↔ op.level = level) (positive : 5 ≤ level) (below : level < 7)
    (reads : ReadsBack (level + 1) n operand) (enough : n ≤ fuel + 1) :
    ReadsBack level n (Parse.leftAssociative .binary ops fuel operand) := by
  intro last size rest short formed tight gapless stops
  refine Parse.leftAssociative_lexemes .binary ops parts
    (fun s => s.Formed ∧ level + 1 ≤ s.tightness) (fun _ => Stops (level + 1))
    (fun _ _ _ => rfl) (fun _ _ _ _ => Iff.rfl) ?_
    (fun last a rest short good gapless stops => reads last a rest short good.1 good.2 gapless stops)
    enough ((chain_iff mem positive below size).mpr ⟨formed, tight⟩) last rest short gapless ?_ ?_
  · intro _ op place rest among
    have same := (mem op).mp among
    simp [Stops, same]
  · exact fun t ht op same => Nat.lt_succ_of_lt (stops t ht op same)
  · intro t ht op among same
    have small := stops t ht op same
    rw [(mem op).mp among] at small
    omega

theorem parseWithin_readsBack (fuel : Nat) : ReadsBack 5 fuel (parseWithin fuel) := by
  induction fuel with
  | zero => intro last size rest short; simp at short
  | succ fuel ih =>
    have factor := parseSigned_readsBack ih (Nat.le_refl (fuel + 1))
    have term := leftAssociative_readsBack Operator.mem_multiplicative_iff (by omega) (by omega)
      factor (Nat.le_refl (fuel + 1))
    exact leftAssociative_readsBack Operator.mem_additive_iff (by omega) (by omega) term
      (Nat.le_refl (fuel + 1))

theorem parse_lexemes (last : Lexeme) (size : Size) (rest : List Lexeme) (formed : size.Formed)
    (gapless : Gapless size.parts) (closed : Closed rest) :
    Size.parse last (lexemesOf size.parts ++ rest) = (size, rest) :=
  parseWithin_readsBack _ last size rest (Nat.lt_succ_self _) formed (five_le_tightness formed)
    gapless (stops_of_closed closed 5)

/-- Empty brackets are no size: one begins with a number, a sign or a parenthesis. -/
theorem head_ne_rightBracket {size : Size} (formed : size.Formed) (gapless : Gapless size.parts)
    (rest : List Lexeme) :
    ∀ t ∈ (lexemesOf size.parts ++ rest).head?, t.value ≠ .delimiter .rightBracket := by
  induction size generalizing rest with
  | literal | signed | paren => simp [parts]
  | missing => simp [parts] at gapless
  | binary op left right ih =>
    simp only [parts, gapless_append] at gapless
    simpa only [parts, lexemesOf_append, List.append_assoc] using ih formed.2.1 gapless.1.1 _

end Size

/-! ### Types -/

namespace BaseName

theorem parse?_cases (last : Lexeme) (ts : List Lexeme) :
    (∃ base rest, parse? last ts = (some base, rest) ∧ Spans last base.parts ts rest ∧
      ∃ t behind, ts = t :: behind ∧ t.value.beginsType = true ∧ rest.length ≤ behind.length) ∨
    ((∀ t ∈ ts.head?, t.value.beginsType = false) ∧ parse? last ts = (none, ts)) := by
  rcases Parse.token?_cases (.keyword .intKw) last ts with
      ⟨word, behind, rfl, hint⟩ | ⟨notInt, hint⟩
  · exact .inl ⟨.int word, behind, by simp [parse?, Parse.keyword?, hint], by simp [parts],
      _, _, rfl, rfl, Nat.le_refl _⟩
  rcases Parse.token?_cases (.keyword .doubleKw) last ts with
      ⟨word, behind, rfl, hdouble⟩ | ⟨notDouble, hdouble⟩
  · exact .inl ⟨.double word, behind, by simp [parse?, Parse.keyword?, hint, hdouble],
      by simp [parts], _, _, rfl, rfl, Nat.le_refl _⟩
  rcases Parse.token?_cases (.keyword .charKw) last ts with
      ⟨word, behind, rfl, hchar⟩ | ⟨notChar, hchar⟩
  · exact .inl ⟨.char word, behind, by simp [parse?, Parse.keyword?, hint, hdouble, hchar],
      by simp [parts], _, _, rfl, rfl, Nat.le_refl _⟩
  rcases Parse.token?_cases (.keyword .structKw) last ts with
      ⟨word, behind, rfl, hstruct⟩ | ⟨notStruct, hstruct⟩
  · obtain ⟨name, rest, hname, spans, -⟩ := Parse.name_reads last behind
    exact .inl ⟨.struct word name, rest,
      by simp [parse?, Parse.keyword?, hint, hdouble, hchar, hstruct, hname],
      by simpa [parts] using spans, _, _, rfl, rfl, spans.length_le⟩
  · refine .inr ⟨?_, by simp [parse?, Parse.keyword?, hint, hdouble, hchar, hstruct]⟩
    intro t ht
    have h₁ := notInt t ht
    have h₂ := notDouble t ht
    have h₃ := notChar t ht
    have h₄ := notStruct t ht
    unfold Kind.beginsType
    split <;> simp_all

theorem parse?_of_not_begins {last : Lexeme} {ts : List Lexeme}
    (h : ∀ t ∈ ts.head?, t.value.beginsType = false) : parse? last ts = (none, ts) := by
  rcases parse?_cases last ts with ⟨_, _, -, -, t, behind, rfl, begins, -⟩ | ⟨-, none⟩
  · simp [begins] at h
  · exact none

theorem parse?_lexemes (last : Lexeme) (base : BaseName) (rest : List Lexeme)
    (gapless : Gapless base.parts) :
    parse? last (lexemesOf base.parts ++ rest) = (some base, rest) := by
  cases base with
  | int | double | char =>
    simp [parts, parse?, Parse.keyword?, Parse.token?, Parse.accept?]
  | struct word name =>
    cases name with
    | missing => simp [parts] at gapless
    | found name =>
      simp [parts, parse?, Parse.keyword?, Parse.token?, Parse.accept?, Parse.name_of_head]

/-- A base type begins with a word for one. -/
theorem exists_head (base : BaseName) (rest : List Lexeme) :
    ∃ t behind, lexemesOf base.parts ++ rest = t :: behind ∧ t.value.beginsType = true := by
  cases base <;> simp [parts, Kind.beginsType]

end BaseName

namespace ArrayPart

theorem parse_reads : Parse.Reads ArrayPart.parse parts Formed := by
  intro last ts
  rcases Parse.token?_cases (.delimiter .leftBracket) last ts with
      ⟨opening, behind, rfl, hopening⟩ | ⟨-, hopening⟩
  · rcases Parse.token?_cases (.delimiter .rightBracket) last behind with
        ⟨closing, rest, rfl, hclosing⟩ | ⟨-, hclosing⟩
    · exact ⟨.unsized opening closing, rest,
        by simp [ArrayPart.parse, Parse.mark?, hopening, hclosing], by simp [parts], trivial⟩
    · obtain ⟨size, middle, hsize, spans, formed⟩ := Size.parse_reads last behind
      obtain ⟨closing, rest, hmark, spans', -⟩ := Parse.mark_reads .rightBracket last middle
      refine ⟨.sized opening size closing, rest,
        by simp [ArrayPart.parse, Parse.mark?, hopening, hclosing, hsize, hmark], ?_, formed⟩
      simp only [parts, spans_append, Delimiter.part, Kind.part, spans_found, spans_nil]
      exact ⟨middle, ⟨_, ⟨_, rfl, rfl⟩, spans⟩, spans'⟩
  · exact ⟨.absent, ts, by simp [ArrayPart.parse, Parse.mark?, hopening], by simp [parts], trivial⟩

theorem parse_lexemes (last : Lexeme) (array : ArrayPart) (rest : List Lexeme)
    (formed : array.Formed) (gapless : Gapless array.parts)
    (other : ∀ t ∈ rest.head?, t.value ≠ .delimiter .leftBracket) :
    ArrayPart.parse last (lexemesOf array.parts ++ rest) = (array, rest) := by
  cases array with
  | absent => simp [parts, ArrayPart.parse, Parse.mark?, Parse.token?_of_ne _ _ _ other]
  | unsized opening closing => simp [parts, ArrayPart.parse, Parse.mark?, Parse.token?_of_head]
  | sized opening size closing =>
    cases closing with
    | missing => simp [parts] at gapless
    | found closing =>
      simp only [parts, Delimiter.part, Kind.part, Slot.parts, gapless_append, gapless_found,
        gapless_nil, and_true, true_and] at gapless
      have hsize := Size.parse_lexemes last size (⟨.delimiter .rightBracket, closing⟩ :: rest) formed
        gapless (by simp)
      have notEmpty := Parse.token?_of_ne _ last _
        (Size.head_ne_rightBracket formed gapless (⟨.delimiter .rightBracket, closing⟩ :: rest))
      simp [parts, ArrayPart.parse, Parse.mark?, Parse.mark, Parse.token?_of_head,
        Parse.token_of_head, notEmpty, hsize]

end ArrayPart

namespace TypeName

theorem parse?_cases (last : Lexeme) (ts : List Lexeme) :
    (∃ name rest, parse? last ts = (some name, rest) ∧ Spans last name.parts ts rest ∧
      name.Formed) ∨
    ((∀ t ∈ ts.head?, t.value.beginsType = false) ∧ parse? last ts = (none, ts)) := by
  rcases BaseName.parse?_cases last ts with ⟨base, middle, hbase, spans, -⟩ | ⟨other, hbase⟩
  · obtain ⟨array, rest, harray, spans', formed⟩ := ArrayPart.parse_reads last middle
    exact .inl ⟨⟨base, array⟩, rest, by simp [parse?, hbase, harray],
      by simpa [parts] using ⟨middle, spans, spans'⟩, formed⟩
  · exact .inr ⟨other, by simp [parse?, hbase]⟩

theorem parse?_lexemes (last : Lexeme) (name : TypeName) (rest : List Lexeme)
    (formed : name.Formed) (gapless : Gapless name.parts)
    (other : ∀ t ∈ rest.head?, t.value ≠ .delimiter .leftBracket) :
    parse? last (lexemesOf name.parts ++ rest) = (some name, rest) := by
  obtain ⟨base, array⟩ := name
  simp only [parts, gapless_append] at gapless
  have hbase := BaseName.parse?_lexemes last base (lexemesOf array.parts ++ rest) gapless.1
  have harray := ArrayPart.parse_lexemes last array rest formed gapless.2 other
  simp [parts, parse?, hbase, harray]

end TypeName

end PlainC
