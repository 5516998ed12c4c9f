import PlainC.Proofs.Reading.Expr.Formed

set_option autoImplicit false

/-!
Reading expressions back: a well-formed tree without gaps comes from its lexemes, whatever stands
behind them that does not go on with it.
-/

namespace PlainC

namespace Expr

/-! ### First lexemes -/

theorem not_beginsType_of_canBegin {kind : Kind} (h : canBegin kind = true) :
    kind.beginsType = false := by
  unfold canBegin at h
  split at h <;> simp_all [Kind.beginsType]

/-- An expression begins with a lexeme with which one can begin. -/
theorem exists_head (expr : Expr) (formed : expr.Formed) (gapless : Gapless expr.parts)
    (rest : List Lexeme) :
    ∃ t behind, lexemesOf expr.parts ++ rest = t :: behind ∧ canBegin t.value = true := by
  match expr with
  | .literal .. | .reference .. | .call .. | .callEmpty .. | .paren .. | .cast .. =>
    simp [parts, canBegin]
  | .missing .. => simp [parts] at gapless
  | .element array opening index closing =>
    simp only [parts, gapless_append] at gapless
    simpa only [parts, lexemesOf_append, List.append_assoc] using
      array.exists_head formed.1 gapless.1.1.1 _
  | .member record dot name =>
    simp only [parts, gapless_append] at gapless
    simpa only [parts, lexemesOf_append, List.append_assoc] using
      record.exists_head formed.1 gapless.1.1 _
  | .binary op left right =>
    simp only [parts, gapless_append] at gapless
    simpa only [parts, lexemesOf_append, List.append_assoc] using
      left.exists_head formed.2.1 gapless.1.1 _
  | .assign target op value =>
    simp only [parts, gapless_append] at gapless
    simpa only [parts, lexemesOf_append, List.append_assoc] using
      target.exists_head formed.1 gapless.1.1 _
  | .unary op operand =>
    obtain ⟨among, -, -⟩ := formed
    obtain ⟨value, place⟩ := op
    simp only [List.mem_cons, List.not_mem_nil, or_false] at among
    rcases among with rfl | rfl <;> simp [parts, canBegin]

end Expr

theorem Args.exists_head (args : Args) (formed : args.Formed) (gapless : Gapless args.parts)
    (rest : List Lexeme) :
    ∃ t behind, lexemesOf args.parts ++ rest = t :: behind ∧ Expr.canBegin t.value = true := by
  cases args with
  | last arg => exact arg.exists_head formed gapless rest
  | more arg comma args =>
    simp only [Args.parts, gapless_append] at gapless
    simpa only [Args.parts, lexemesOf_append, List.append_assoc] using
      arg.exists_head formed.1 gapless.1.1 _

namespace Expr

/-- Without signs and casts an expression begins with no operator. -/
theorem head_ne_operator {expr : Expr} (formed : expr.Formed) (gapless : Gapless expr.parts)
    (tight : 9 ≤ expr.tightness) (rest : List Lexeme) (op : Operator) :
    ∀ t ∈ (lexemesOf expr.parts ++ rest).head?, t.value ≠ .operator op := by
  match expr with
  | .literal .. | .reference .. | .call .. | .callEmpty .. | .paren .. => simp [parts]
  | .missing .. => simp [parts] at gapless
  | .element array opening index closing =>
    simp only [parts, gapless_append] at gapless
    simpa only [parts, lexemesOf_append, List.append_assoc] using
      head_ne_operator formed.1 gapless.1.1.1 formed.2.1 _ op
  | .member record dot name =>
    simp only [parts, gapless_append] at gapless
    simpa only [parts, lexemesOf_append, List.append_assoc] using
      head_ne_operator formed.1 gapless.1.1 formed.2 _ op
  | .binary op left right =>
    have le := operator_level_le op.value
    simp only [tightness] at tight
    omega
  | .cast .. | .unary .. | .assign .. => simp [tightness] at tight

theorem castOpening?_of_ne {last : Lexeme} {ts : List Lexeme}
    (h : ∀ t ∈ ts.head?, t.value ≠ .delimiter .leftParen) : castOpening? last ts = (none, ts) := by
  rcases castOpening?_cases last ts with ⟨opening, u, behind, rfl, -⟩ | h
  · simp at h
  · exact h

/-- Without casts an expression does not begin as one. -/
theorem castOpening?_of_unary {expr : Expr} (formed : expr.Formed) (gapless : Gapless expr.parts)
    (tight : 8 ≤ expr.tightness) (last : Lexeme) (rest : List Lexeme) :
    castOpening? last (lexemesOf expr.parts ++ rest) = (none, lexemesOf expr.parts ++ rest) := by
  match expr with
  | .literal .. | .reference .. | .call .. | .callEmpty .. | .unary .. =>
    exact castOpening?_of_ne (by simp [parts])
  | .paren opening inner closing =>
    simp only [parts, gapless_append] at gapless
    obtain ⟨t, behind, h, begins⟩ := inner.exists_head formed gapless.1.2
      (lexemesOf (closing.parts Delimiter.rightParen.part) ++ rest)
    simp only [parts, lexemesOf_append, List.append_assoc, h]
    simp [castOpening?, not_beginsType_of_canBegin begins]
  | .missing .. => simp [parts] at gapless
  | .element array opening index closing =>
    simp only [parts, gapless_append] at gapless
    simpa only [parts, lexemesOf_append, List.append_assoc] using
      castOpening?_of_unary formed.1 gapless.1.1.1 (Nat.le_of_succ_le formed.2.1) last _
  | .member record dot name =>
    simp only [parts, gapless_append] at gapless
    simpa only [parts, lexemesOf_append, List.append_assoc] using
      castOpening?_of_unary formed.1 gapless.1.1 (Nat.le_of_succ_le formed.2) last _
  | .binary op left right =>
    have le := operator_level_le op.value
    simp only [tightness] at tight
    omega
  | .cast .. | .assign .. => simp [tightness] at tight

/-! ### Names, calls and parentheses -/

/-- Reads back every expression at a level from fewer than `n` lexemes. -/
def ReadsBack (level n : Nat) (parser : Parse Expr) : Prop :=
  ∀ last (expr : Expr) rest, (lexemesOf expr.parts ++ rest).length < n →
    expr.Formed → level ≤ expr.tightness → Gapless expr.parts → expr.Stops level rest →
    parser last (lexemesOf expr.parts ++ rest) = (expr, rest)

variable {nested operand : Parse Expr} {n : Nat}

theorem parseArgsWithin_lexemes (reads : ReadsBack 0 n nested) {fuel : Nat} (last : Lexeme)
    (args : Args) (rest : List Lexeme) (short : (lexemesOf args.parts ++ rest).length < n)
    (enough : args.length ≤ fuel)
    (formed : args.Formed) (gapless : Gapless args.parts) (closed : Closed rest)
    (other : ∀ t ∈ rest.head?, t.value ≠ .delimiter .comma) :
    parseArgsWithin nested fuel last (lexemesOf args.parts ++ rest) = (args, rest) := by
  match args, fuel with
  | .last arg, 0 | .more arg comma rest, 0 => simp [Args.length] at enough
  | .last arg, fuel + 1 =>
    have harg := reads last arg rest short formed (Nat.zero_le _) gapless
      (stops_of_closed closed 0 arg)
    simp only [Args.parts]
    simp [parseArgsWithin, harg, Parse.mark?, Parse.token?_of_ne _ _ _ other]
  | .more arg comma args, fuel + 1 =>
    simp only [Args.parts, Delimiter.part, Kind.part, gapless_append, gapless_found,
      gapless_nil, and_true] at gapless
    simp only [Args.length, Nat.add_le_add_iff_right] at enough
    simp only [Args.parts, Delimiter.part, Kind.part, lexemesOf_append, lexemesOf_found,
      List.append_assoc, List.cons_append, List.nil_append] at short ⊢
    have harg := reads last arg (⟨.delimiter .comma, comma⟩ :: (lexemesOf args.parts ++ rest))
      short formed.1 (Nat.zero_le _) gapless.1 (stops_of_closed (by simp) 0 arg)
    have hargs := parseArgsWithin_lexemes reads last args rest
      (by simp only [List.length_append, List.length_cons] at short ⊢; omega) enough formed.2
      gapless.2 closed other
    simp [parseArgsWithin, harg, Parse.mark?, Parse.token?_of_head, hargs]

theorem args_length_le {args : Args} (formed : args.Formed) (gapless : Gapless args.parts) :
    args.length ≤ (lexemesOf args.parts).length := by
  cases args with
  | last arg =>
    obtain ⟨t, behind, h, -⟩ := arg.exists_head formed gapless []
    simp only [List.append_nil] at h
    simp [Args.parts, Args.length, h]
  | more arg comma args =>
    simp only [Args.parts, gapless_append] at gapless
    have le := args_length_le formed.2 gapless.2
    simp only [Args.parts, Args.length, Delimiter.part, Kind.part, lexemesOf_append,
      lexemesOf_found, lexemesOf_nil, List.length_append, List.length_cons]
    omega

theorem parseArgs_lexemes (reads : ReadsBack 0 n nested) (last : Lexeme) (args : Args)
    (rest : List Lexeme) (short : (lexemesOf args.parts ++ rest).length < n)
    (formed : args.Formed) (gapless : Gapless args.parts) (closed : Closed rest)
    (other : ∀ t ∈ rest.head?, t.value ≠ .delimiter .comma) :
    parseArgs nested last (lexemesOf args.parts ++ rest) = (args, rest) := by
  have le := args_length_le formed gapless
  rw [parseArgs, Parse.bounded]
  exact parseArgsWithin_lexemes reads last args rest short
    (by simp only [List.length_append]; omega) formed gapless closed other

theorem parseName_lexemes (reads : ReadsBack 0 n nested) (last : Lexeme) (callee : Name)
    (opening closing : Place) (args : Args) (rest : List Lexeme)
    (short : (lexemesOf args.parts ++ rest).length + 1 < n) (formed : args.Formed)
    (gapless : Gapless args.parts) :
    parseName nested callee last (⟨.delimiter .leftParen, opening⟩ ::
      (lexemesOf args.parts ++ ⟨.delimiter .rightParen, closing⟩ :: rest)) =
        (.call callee opening args (.found closing), rest) := by
  have hargs := parseArgs_lexemes reads last args (⟨.delimiter .rightParen, closing⟩ :: rest)
    (by simp only [List.length_append, List.length_cons] at short ⊢; omega) formed gapless
    (by simp) (by simp)
  have notEmpty : Parse.token? (.delimiter .rightParen) last
      (lexemesOf args.parts ++ ⟨.delimiter .rightParen, closing⟩ :: rest) =
        (none, lexemesOf args.parts ++ ⟨.delimiter .rightParen, closing⟩ :: rest) := by
    apply Parse.token?_of_ne
    obtain ⟨t, behind, h, begins⟩ := args.exists_head formed gapless
      (⟨.delimiter .rightParen, closing⟩ :: rest)
    rw [h]
    intro u same value
    simp only [List.head?_cons, Option.mem_def, Option.some.injEq] at same
    simp [same, value, canBegin] at begins
  simp [parseName, Parse.mark?, Parse.mark, Parse.token?_of_head, Parse.token_of_head, notEmpty, hargs]

theorem parsePrimary_readsBack (reads : ReadsBack 0 n nested) :
    ReadsBack 10 (n + 1) (parsePrimary nested) := by
  intro last expr rest short formed tight gapless stops
  match expr with
  | .literal form text => simp [parts, parsePrimary, Parse.name?, Parse.accept?, Parse.nameOf, literalOf]
  | .reference name =>
    have notCalled := Parse.token?_of_ne _ last rest (fun t ht => (stops t ht).2 rfl)
    simp [parts, parsePrimary, Parse.name?_of_head, parseName, Parse.mark?, notCalled]
  | .call callee opening args closing =>
    cases closing with
    | missing => simp [parts] at gapless
    | found closing =>
      simp only [parts, namePart, Delimiter.part, Kind.part, Slot.parts, gapless_append,
        gapless_found, gapless_nil, and_true, true_and] at gapless
      simp only [parts, namePart, Delimiter.part, Kind.part, Slot.parts, lexemesOf_append,
        lexemesOf_found, lexemesOf_nil, List.cons_append, List.nil_append, List.append_assoc,
        List.length_cons, List.length_append] at short ⊢
      have h := parseName_lexemes reads last callee opening closing args rest
        (by simp only [List.length_append]; omega) formed gapless
      simp [parsePrimary, Parse.name?_of_head, h]
  | .callEmpty callee opening closing =>
    simp [parts, parsePrimary, Parse.name?_of_head, parseName, Parse.mark?, Parse.token?_of_head]
  | .paren opening inner closing =>
    cases closing with
    | missing => simp [parts] at gapless
    | found closing =>
      simp only [parts, Delimiter.part, Kind.part, Slot.parts, gapless_append, gapless_found,
        gapless_nil, and_true, true_and] at gapless
      simp only [parts, Delimiter.part, Kind.part, Slot.parts, lexemesOf_append, lexemesOf_found,
        lexemesOf_nil, List.cons_append, List.nil_append, List.append_assoc,
        List.length_cons] at short ⊢
      have hinner := reads last inner (⟨.delimiter .rightParen, closing⟩ :: rest) (by omega) formed
        (Nat.zero_le _) gapless (stops_of_closed (by simp) 0 inner)
      simp [parsePrimary, Parse.name?, Parse.accept?, Parse.nameOf, literalOf, Parse.mark?,
        Parse.mark, Parse.token?_of_head, Parse.token_of_head, hinner]
  | .missing .. => simp [parts] at gapless
  | .binary op left right =>
    have le := operator_level_le op.value
    simp only [tightness] at tight
    omega
  | .element .. | .member .. | .cast .. | .unary .. | .assign .. => simp [tightness] at tight

/-! ### Indices, members, signs and casts -/

/-- An expression with indices and members is read up to its last one and then gone on with. -/
theorem parsePostfix_chain (reads : ReadsBack 0 n nested) {fuel : Nat} (bound : fuel ≤ n + 1)
    (last : Lexeme) (expr : Expr) (rest : List Lexeme)
    (short : (lexemesOf expr.parts ++ rest).length < fuel) (formed : expr.Formed)
    (tight : 9 ≤ expr.tightness) (gapless : Gapless expr.parts) (stops : expr.Stops 10 rest) :
    ∃ left, fuel ≤ left + (lexemesOf expr.parts).length ∧
      parsePostfix nested fuel last (lexemesOf expr.parts ++ rest) =
        Parse.extend (parseSuffix nested) left expr last rest := by
  -- the last suffix is outermost in the tree, so the induction is on what it stands behind
  by_cases primary : 10 ≤ expr.tightness
  · have h := parsePrimary_readsBack reads last expr rest (by omega) formed primary gapless stops
    exact ⟨fuel, by omega, by simp [parsePostfix, h]⟩
  cases expr with
  | element array opening index closing =>
    cases closing with
    | missing => simp [parts] at gapless
    | found closing =>
      obtain ⟨formedArray, tightArray, formedIndex⟩ := formed
      simp only [parts, Delimiter.part, Kind.part, Slot.parts, gapless_append, gapless_found,
        gapless_nil, and_true] at gapless
      simp only [parts, Delimiter.part, Kind.part, Slot.parts, lexemesOf_append, lexemesOf_found,
        lexemesOf_nil, List.cons_append, List.nil_append, List.append_assoc, List.length_cons,
        List.length_append] at short ⊢
      obtain ⟨left, enough, h⟩ := parsePostfix_chain reads bound last array
        (⟨.delimiter .leftBracket, opening⟩ ::
          (lexemesOf index.parts ++ ⟨.delimiter .rightBracket, closing⟩ :: rest))
        (by simp only [List.length_cons, List.length_append]; omega) formedArray tightArray
        gapless.1 (stops_ten (by simp))
      have hindex := reads last index (⟨.delimiter .rightBracket, closing⟩ :: rest)
        (by simp only [List.length_cons, List.length_append]; omega) formedIndex (Nat.zero_le _)
        gapless.2 (stops_of_closed (by simp) 0 index)
      cases left with
      | zero => omega
      | succ left =>
        refine ⟨left, by omega, ?_⟩
        rw [h]
        simp [Parse.extend, parseSuffix, Parse.mark?, Parse.mark, Parse.token?_of_head,
          Parse.token_of_head, hindex]
  | member record dot name =>
    cases name with
    | missing => simp [parts] at gapless
    | found name =>
      obtain ⟨formedRecord, tightRecord⟩ := formed
      simp only [parts, namePart, Kind.part, Slot.parts, gapless_append, gapless_found, gapless_nil,
        and_true] at gapless
      simp only [parts, namePart, Kind.part, Slot.parts, lexemesOf_append, lexemesOf_found,
        lexemesOf_nil, List.cons_append, List.nil_append, List.append_assoc, List.length_cons,
        List.length_append] at short ⊢
      obtain ⟨left, enough, h⟩ := parsePostfix_chain reads bound last record
        (⟨.operator .dot, dot⟩ :: ⟨.identifier name.value, name.place⟩ :: rest)
        (by simp only [List.length_cons, List.length_append]; omega) formedRecord tightRecord
        gapless (stops_ten (by simp))
      have notBracket := Parse.token?_of_ne (.delimiter .leftBracket) last
        (⟨.operator .dot, dot⟩ :: ⟨.identifier name.value, name.place⟩ :: rest) (by simp)
      cases left with
      | zero => omega
      | succ left =>
        refine ⟨left, by omega, ?_⟩
        rw [h]
        simp [Parse.extend, parseSuffix, Parse.mark?, notBracket, Parse.token?_of_head,
          Parse.name_of_head]
  | binary op left right =>
    have le := operator_level_le op.value
    simp only [tightness] at tight
    omega
  | literal | reference | call | callEmpty | paren | missing => simp [tightness] at primary
  | cast | unary | assign => simp [tightness] at tight

theorem parsePostfix_readsBack (reads : ReadsBack 0 n nested) {fuel : Nat} (bound : fuel ≤ n + 1) :
    ReadsBack 9 fuel (parsePostfix nested fuel) := by
  intro last expr rest short formed tight gapless stops
  obtain ⟨left, -, h⟩ := parsePostfix_chain reads bound last expr rest short formed tight gapless
    (stops.weaken (by omega))
  rw [h]
  apply Parse.extend_of_none
  have notBracket := Parse.token?_of_ne (.delimiter .leftBracket) last rest
    (by intro t ht same; simpa [same, Kind.continuation?] using (stops t ht).1)
  have notDot := Parse.token?_of_ne (.operator .dot) last rest
    (by intro t ht same; simpa [same, Kind.continuation?] using (stops t ht).1)
  simp [parseSuffix, Parse.mark?, notBracket, notDot]

theorem parseUnary_readsBack (reads : ReadsBack 0 n nested) :
    ∀ {fuel}, fuel ≤ n + 1 → ReadsBack 8 fuel (parseUnary nested fuel) := by
  intro fuel
  induction fuel with
  | zero => intro _ last expr rest short; simp at short
  | succ fuel ih =>
    intro bound last expr rest short formed tight gapless stops
    by_cases postfix9 : 9 ≤ expr.tightness
    · have other := Parse.operator?_of_ne [.minus, .bang] last _
        (fun t ht op _ => head_ne_operator formed gapless postfix9 rest op t ht)
      have h := parsePostfix_readsBack reads bound last expr rest short formed postfix9 gapless
        (stops.weaken (by omega))
      simp [parseUnary, other, h]
    · cases expr with
      | unary op operand =>
        obtain ⟨among, formed, tight⟩ := formed
        simp only [parts, operatorPart, Kind.part, List.cons_append, List.nil_append,
          lexemesOf_found, gapless_found, List.length_cons] at short gapless ⊢
        have hoperand := ih (by omega) last operand rest (by omega) formed tight gapless stops
        simp [parseUnary, Parse.operator?_of_head among, hoperand]
      | binary op left right =>
        have le := operator_level_le op.value
        simp only [tightness] at tight
        omega
      | literal | reference | call | callEmpty | paren | element | member | missing =>
        simp [tightness] at postfix9
      | cast | assign => simp [tightness] at tight

theorem parseCast_readsBack (reads : ReadsBack 0 n nested) :
    ∀ {fuel}, fuel ≤ n + 1 → ReadsBack 7 fuel (parseCast nested fuel) := by
  intro fuel
  induction fuel with
  | zero => intro _ last expr rest short; simp at short
  | succ fuel ih =>
    intro bound last expr rest short formed tight gapless stops
    by_cases unary8 : 8 ≤ expr.tightness
    · have other := castOpening?_of_unary formed gapless unary8 last rest
      have h := parseUnary_readsBack reads bound last expr rest short formed unary8 gapless
        (stops.weaken (by omega))
      simp [parseCast, other, h]
    · cases expr with
      | cast opening target closing operand =>
        cases closing with
        | missing => simp [parts] at gapless
        | found closing =>
          obtain ⟨formedTarget, formed, tight⟩ := formed
          simp only [parts, Delimiter.part, Kind.part, Slot.parts, gapless_append, gapless_found,
            gapless_nil, and_true, true_and] at gapless
          simp only [parts, Delimiter.part, Kind.part, Slot.parts, lexemesOf_append, lexemesOf_found,
            List.cons_append, List.nil_append, List.append_assoc, List.length_cons,
            List.length_append] at short ⊢
          have htarget := TypeName.parse?_lexemes last target
            (⟨.delimiter .rightParen, closing⟩ :: (lexemesOf operand.parts ++ rest))
            formedTarget gapless.1 (by simp)
          have hoperand := ih (by omega) last operand rest
            (by simp only [List.length_append]; omega) formed tight gapless.2 stops
          have hopening : castOpening? last (⟨.delimiter .leftParen, opening⟩ ::
              (lexemesOf target.parts ++ ⟨.delimiter .rightParen, closing⟩ ::
                (lexemesOf operand.parts ++ rest))) =
              (some opening, lexemesOf target.parts ++ ⟨.delimiter .rightParen, closing⟩ ::
                (lexemesOf operand.parts ++ rest)) := by
            obtain ⟨t, behind, h, begins⟩ := target.base.exists_head (lexemesOf target.array.parts ++
              ⟨.delimiter .rightParen, closing⟩ :: (lexemesOf operand.parts ++ rest))
            simp only [TypeName.parts, lexemesOf_append, List.append_assoc, h]
            simp [castOpening?, begins]
          simp [parseCast, hopening, htarget, Parse.mark, Parse.token_of_head, hoperand]
      | binary op left right =>
        have le := operator_level_le op.value
        simp only [tightness] at tight
        omega
      | literal | reference | call | callEmpty | paren | element | member | unary | missing =>
        simp [tightness] at unary8
      | assign => simp [tightness] at tight

/-! ### Binary operators and assignment -/

theorem leftAssociative_readsBack {ops : List Operator} {level fuel : Nat}
    (mem : ∀ op, op ∈ ops ↔ op.level = level) (positive : 1 ≤ level) (below : level < 7)
    (reads : ReadsBack (level + 1) n operand) (enough : n ≤ fuel + 1) :
    ReadsBack level n (Parse.leftAssociative .binary ops fuel operand) := by
  intro last expr rest short formed tight gapless stops
  refine Parse.leftAssociative_lexemes .binary ops parts
    (fun e => e.Formed ∧ level + 1 ≤ e.tightness) (Stops (level + 1))
    (fun _ _ _ => by simp [parts]) (fun _ _ _ _ => Iff.rfl) ?_
    (fun last e rest short good gapless stops => reads last e rest short good.1 good.2 gapless stops)
    enough ((chain_iff mem positive below expr).mpr ⟨formed, tight⟩) last rest short gapless
    (stops.weaken (by omega)) ?_
  · intro e op place rest among t ht
    obtain rfl : ⟨.operator op, place⟩ = t := by simpa using ht
    have same := (mem op).mp among
    refine ⟨fun m found => ?_, by simp⟩
    rw [continuation?_operator (by omega), Option.some.injEq] at found
    omega
  · intro t ht op among value
    have same := (mem op).mp among
    have less := (stops t ht).1 op.level (by rw [value, continuation?_operator (by omega)])
    omega

theorem parseLevels_readsBack (fuel : Nat) (reads : ReadsBack 7 n operand) (enough : n ≤ fuel + 1) :
    ReadsBack 1 n (parseLevels fuel operand levels) := by
  obtain ⟨mem₁, mem₂, mem₃, mem₄, mem₅, mem₆⟩ := mem_levels
  have reads₆ := leftAssociative_readsBack mem₆ (by omega) (by omega) reads enough
  have reads₅ := leftAssociative_readsBack mem₅ (by omega) (by omega) reads₆ enough
  have reads₄ := leftAssociative_readsBack mem₄ (by omega) (by omega) reads₅ enough
  have reads₃ := leftAssociative_readsBack mem₃ (by omega) (by omega) reads₄ enough
  have reads₂ := leftAssociative_readsBack mem₂ (by omega) (by omega) reads₃ enough
  exact leftAssociative_readsBack mem₁ (by omega) (by omega) reads₂ enough

theorem parseAssign_readsBack (reads : ReadsBack 0 n nested) :
    ∀ {fuel}, fuel ≤ n + 1 → ReadsBack 0 fuel (parseAssign nested fuel) := by
  intro fuel
  induction fuel with
  | zero => intro _ last expr rest short; simp at short
  | succ fuel ih =>
    intro bound last expr rest short formed tight gapless stops
    have readsTarget := parseLevels_readsBack (fuel + 1) (parseCast_readsBack reads bound) (by omega)
    by_cases level1 : 1 ≤ expr.tightness
    · have h := readsTarget last expr rest short formed level1 gapless (stops.weaken (by omega))
      have other := Parse.token?_of_ne (.operator .assign) last rest
        (by intro t ht same; simpa [same, Kind.continuation?] using (stops t ht).1)
      rw [parseAssign]
      simp only [Parse.bind_apply, h, other, Parse.pure_apply]
    · cases expr with
      | assign target op value =>
        obtain ⟨formedTarget, tightTarget, formedValue⟩ := formed
        simp only [parts, Kind.part, gapless_append, gapless_found, gapless_nil, and_true] at gapless
        simp only [parts, Kind.part, lexemesOf_append, lexemesOf_found, List.cons_append,
          List.nil_append, List.append_assoc] at short ⊢
        have htarget := readsTarget last target
          (⟨.operator .assign, op⟩ :: (lexemesOf value.parts ++ rest)) short formedTarget
          tightTarget gapless.1
          (by
            intro t ht
            obtain rfl : ⟨.operator .assign, op⟩ = t := by simpa using ht
            simp [Kind.continuation?])
        have hvalue := ih (by omega) last value rest
          (by simp only [List.length_cons, List.length_append] at short ⊢; omega) formedValue
          (Nat.zero_le _) gapless.2 stops
        rw [parseAssign]
        simp only [Parse.bind_apply, htarget, Parse.token?_of_head, hvalue, Parse.pure_apply]
      | binary op left right =>
        have positive := formed.1
        simp only [tightness] at level1
        omega
      | literal | reference | call | callEmpty | paren | element | member | unary | cast
      | missing => simp [tightness] at level1

theorem parseWithin_readsBack (fuel : Nat) : ReadsBack 0 fuel (parseWithin fuel) := by
  induction fuel with
  | zero => intro last expr rest short; simp at short
  | succ fuel ih => exact parseAssign_readsBack ih (Nat.le_refl (fuel + 1))

/-- A well-formed expression without gaps is what its lexemes are read as, if the ones behind it do
not go on with it. -/
theorem parse_lexemes (last : Lexeme) (expr : Expr) (rest : List Lexeme) (formed : expr.Formed)
    (gapless : Gapless expr.parts) (stops : expr.Stops 0 rest) :
    Expr.parse last (lexemesOf expr.parts ++ rest) = (expr, rest) := by
  rw [parse_apply]
  exact parseWithin_readsBack _ last expr rest (Nat.lt_succ_self _) formed (Nat.zero_le _) gapless stops

theorem parse_args_lexemes (last : Lexeme) (args : Args) (rest : List Lexeme) (formed : args.Formed)
    (gapless : Gapless args.parts) (closed : Closed rest)
    (other : ∀ t ∈ rest.head?, t.value ≠ .delimiter .comma) :
    parseArgs Expr.parse last (lexemesOf args.parts ++ rest) = (args, rest) := by
  have reads : ReadsBack 0 ((lexemesOf args.parts ++ rest).length + 1) Expr.parse :=
    fun last expr rest _ formed _ gapless stops => parse_lexemes last expr rest formed gapless stops
  exact parseArgs_lexemes reads last args rest (Nat.lt_succ_self _) formed gapless closed other

end Expr

end PlainC
