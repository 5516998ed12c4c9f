import PlainC.Expr.Parse
import PlainC.Proofs.Reading.TypeName

set_option autoImplicit false

/-!
Reading expressions: what is read is a well-formed tree, made of the lexemes that were taken, and
no lexeme is left that would go on with it.
-/

namespace PlainC

/-- The level at which a lexeme of the kind goes on with an expression. -/
def Kind.continuation? : Kind → Option Nat
  | .operator .assign => some 0
  | .operator .dot | .delimiter .leftBracket => some 9
  | .operator .bang => none
  | .operator op => some op.level
  | _ => none

namespace Expr

/-- Whether the last lexeme is a name that would be called by a parenthesis behind it. -/
def endsInName : Expr → Bool
  | reference _ => true
  | unary _ operand | cast _ _ _ operand => operand.endsInName
  | binary _ _ right => right.endsInName
  | assign _ _ value => value.endsInName
  | _ => false

/-- The lexemes do not go on with the expression at the level or at a tighter one. -/
def Stops (level : Nat) (expr : Expr) (rest : List Lexeme) : Prop :=
  ∀ t ∈ rest.head?, (∀ m, t.value.continuation? = some m → m < level) ∧
    (expr.endsInName = true → t.value ≠ .delimiter .leftParen)

theorem stops_of_closed {rest : List Lexeme} (closed : Closed rest) (level : Nat) (expr : Expr) :
    expr.Stops level rest := by
  intro t ht
  obtain ⟨mark, other, value⟩ := closed t ht
  simp only [List.mem_cons, List.not_mem_nil, or_false, not_or] at other
  rw [value]
  refine ⟨?_, fun _ same => other.1 (by simpa using same)⟩
  intro m found
  cases mark <;> simp_all [Kind.continuation?]

theorem Stops.weaken {level tighter : Nat} {expr : Expr} {rest : List Lexeme}
    (stops : expr.Stops level rest) (le : level ≤ tighter) : expr.Stops tighter rest :=
  fun t ht => ⟨fun m found => Nat.lt_of_lt_of_le ((stops t ht).1 m found) le, (stops t ht).2⟩

/-- A level is left behind where none of its operators comes next. -/
theorem Stops.strengthen {level : Nat} {expr : Expr} {rest : List Lexeme}
    (stops : expr.Stops (level + 1) rest)
    (other : ∀ t ∈ rest.head?, t.value.continuation? ≠ some level) : expr.Stops level rest := by
  intro t ht
  refine ⟨fun m found => ?_, (stops t ht).2⟩
  have le := (stops t ht).1 m found
  have ne : m ≠ level := fun same => other t ht (same ▸ found)
  omega

theorem continuation?_operator {op : Operator} (binary : 1 ≤ op.level) :
    (Kind.operator op).continuation? = some op.level := by
  cases op <;> simp_all [Kind.continuation?, Operator.level]

theorem operator_of_continuation? {kind : Kind} {level : Nat} (h : kind.continuation? = some level)
    (positive : 1 ≤ level) (below : level < 7) : ∃ op, kind = .operator op ∧ op.level = level := by
  unfold Kind.continuation? at h
  split at h <;> simp at h <;> first | omega | exact ⟨_, rfl, h⟩

theorem operator_level_le (op : Operator) : op.level ≤ 6 := by
  cases op <;> simp [Operator.level]

/-- Nothing goes on with an expression at the levels of casts, signs and negation. -/
theorem continuation?_le {kind : Kind} {m : Nat} (h : kind.continuation? = some m) :
    m ≤ 6 ∨ m = 9 := by
  unfold Kind.continuation? at h
  split at h <;> simp at h <;> subst h
  · exact .inl (Nat.zero_le 6)
  · exact .inr rfl
  · exact .inr rfl
  · exact .inl (operator_level_le _)

theorem continuation?_lt {kind : Kind} {m : Nat} (h : kind.continuation? = some m) : m < 10 := by
  have le := continuation?_le h
  omega

theorem continuation?_eq_nine {kind : Kind} (h : kind.continuation? = some 9) :
    kind = .operator .dot ∨ kind = .delimiter .leftBracket := by
  cases kind with
  | operator op => cases op <;> simp_all [Kind.continuation?, Operator.level]
  | delimiter mark => cases mark <;> simp_all [Kind.continuation?]
  | keyword | identifier | literal | trivia | endOfInput => simp [Kind.continuation?] at h

theorem continuation?_eq_zero {kind : Kind} (h : kind.continuation? = some 0) :
    kind = .operator .assign := by
  cases kind with
  | operator op => cases op <;> simp_all [Kind.continuation?, Operator.level]
  | delimiter mark => cases mark <;> simp_all [Kind.continuation?]
  | keyword | identifier | literal | trivia | endOfInput => simp [Kind.continuation?] at h

/-- What does not go on with indices and members does not go on with signs and casts either. -/
theorem Stops.behindPostfix {tighter level : Nat} {expr : Expr} {rest : List Lexeme}
    (stops : expr.Stops tighter rest) (le : tighter ≤ 9) (ge : 7 ≤ level) :
    expr.Stops level rest := by
  intro t ht
  refine ⟨fun m found => ?_, (stops t ht).2⟩
  have less := (stops t ht).1 m found
  have le' := continuation?_le found
  omega

theorem stops_ten {expr : Expr} {rest : List Lexeme}
    (h : expr.endsInName = true → ∀ t ∈ rest.head?, t.value ≠ .delimiter .leftParen) :
    expr.Stops 10 rest :=
  fun t ht => ⟨fun _ found => continuation?_lt found, fun ends => h ends t ht⟩

/-- The operators of each level of binary operators. -/
theorem mem_levels :
    (∀ op : Operator, op ∈ [.disj] ↔ op.level = 1) ∧
    (∀ op : Operator, op ∈ [.conj] ↔ op.level = 2) ∧
    (∀ op : Operator, op ∈ [.equal, .unequal] ↔ op.level = 3) ∧
    (∀ op : Operator, op ∈ [.less, .lessEqual, .greater, .greaterEqual] ↔ op.level = 4) ∧
    (∀ op : Operator, op ∈ [.plus, .minus] ↔ op.level = 5) ∧
    ∀ op : Operator, op ∈ [.star, .slash, .percent] ↔ op.level = 6 := by
  refine ⟨?_, ?_, ?_, ?_, ?_, ?_⟩ <;> intro op <;> cases op <;> simp [Operator.level]

/-- An expression at a level of binary operators is a chain of operands of the next level. -/
theorem chain_iff {ops : List Operator} {level : Nat} (mem : ∀ op, op ∈ ops ↔ op.level = level)
    (positive : 1 ≤ level) (below : level < 7) (expr : Expr) :
    Parse.Chain .binary ops (fun e => e.Formed ∧ level + 1 ≤ e.tightness) expr ↔
      expr.Formed ∧ level ≤ expr.tightness := by
  constructor
  · intro chain
    induction chain with
    | first operand => exact ⟨operand.1, by omega⟩
    | @next op left right among _ operand ih =>
      have same := (mem op.value).mp among
      exact ⟨⟨by omega, ih.1, by omega, operand.1, by omega⟩, by simp only [tightness]; omega⟩
  · rintro ⟨formed, tight⟩
    by_cases same : expr.tightness = level
    · match expr with
      | .binary op left right =>
        obtain ⟨-, formedLeft, tightLeft, formedRight, tightRight⟩ := formed
        simp only [tightness] at same
        have ihLeft := (chain_iff mem positive below left).mpr ⟨formedLeft, by omega⟩
        exact .next ((mem _).mpr same) ihLeft ⟨formedRight, by omega⟩
      | .assign .. | .cast .. | .unary .. | .element .. | .member .. | .literal .. | .reference ..
      | .call .. | .callEmpty .. | .paren .. | .missing .. => simp only [tightness] at same; omega
    · exact .first ⟨formed, by omega⟩

/-! ### Names, calls and parentheses -/

/-- Reads fewer than `n` lexemes as expressions at a level. -/
def Reader (level n : Nat) (parser : Parse Expr) : Prop :=
  ∀ last ts, ts.length < n → ∃ expr rest, parser last ts = (expr, rest) ∧
    Spans last expr.parts ts rest ∧ expr.Formed ∧ level ≤ expr.tightness ∧ expr.Stops level rest

variable {nested operand : Parse Expr} {n fuel : Nat}

theorem gap_reads (last : Lexeme) (ts : List Lexeme) :
    gap last ts = (.missing (ts.headD last), ts) := rfl

theorem parseArgsWithin_reads (reads : Reader 0 n nested) (fuel : Nat) :
    ∀ last ts, ts.length < n → ∃ args rest, parseArgsWithin nested fuel last ts = (args, rest) ∧
      Spans last args.parts ts rest ∧ args.Formed := by
  induction fuel with
  | zero =>
    intro last ts _
    exact ⟨.last (.missing (ts.headD last)), ts, rfl, by simp [Args.parts, parts],
      by simp [Args.Formed, Formed]⟩
  | succ fuel ih =>
    intro last ts short
    obtain ⟨arg, middle, harg, spans, formed, -⟩ := reads last ts short
    have shorter := spans.length_le
    rcases Parse.token?_cases (.delimiter .comma) last middle with
        ⟨comma, behind, rfl, hcomma⟩ | ⟨-, hcomma⟩
    · simp only [List.length_cons] at shorter
      obtain ⟨args, rest, hargs, spans', formed'⟩ := ih last behind (by omega)
      refine ⟨.more arg comma args, rest,
        by simp [parseArgsWithin, harg, Parse.mark?, hcomma, hargs], ?_, ⟨formed, formed'⟩⟩
      simp only [Args.parts, spans_append, Delimiter.part, Kind.part, spans_found, spans_nil]
      exact ⟨behind, ⟨_, spans, _, rfl, rfl⟩, spans'⟩
    · exact ⟨.last arg, middle, by simp [parseArgsWithin, harg, Parse.mark?, hcomma], spans, formed⟩

theorem parseName_reads (reads : Reader 0 n nested) (name : Name) :
    ∀ last ts, ts.length < n → ∃ expr rest, parseName nested name last ts = (expr, rest) ∧
      Spans last expr.parts (⟨.identifier name.value, name.place⟩ :: ts) rest ∧ expr.Formed ∧
        expr.tightness = 10 ∧ expr.Stops 10 rest := by
  intro last ts short
  rcases Parse.token?_cases (.delimiter .leftParen) last ts with
      ⟨opening, behind, rfl, hopening⟩ | ⟨other, hopening⟩
  · simp only [List.length_cons] at short
    rcases Parse.token?_cases (.delimiter .rightParen) last behind with
        ⟨closing, rest, rfl, hclosing⟩ | ⟨-, hclosing⟩
    · exact ⟨.callEmpty name opening closing, rest,
        by simp [parseName, Parse.mark?, hopening, hclosing], by simp [parts], trivial, rfl,
        stops_ten (by simp [endsInName])⟩
    · obtain ⟨args, middle, hargs, spans, formed⟩ :=
        parseArgsWithin_reads reads (behind.length + 1) last behind (by omega)
      obtain ⟨closing, rest, hmark, spans', -⟩ := Parse.mark_reads .rightParen last middle
      refine ⟨.call name opening args closing, rest,
        by simp [parseName, parseArgs, Parse.bounded, Parse.mark?, hopening, hclosing, hargs, hmark],
        ?_, formed, rfl, stops_ten (by simp [endsInName])⟩
      simp only [parts, namePart, spans_append, Delimiter.part, Kind.part, spans_found, spans_nil]
      exact ⟨middle, ⟨_, ⟨_, ⟨_, rfl, rfl⟩, _, rfl, rfl⟩, spans⟩, spans'⟩
  · exact ⟨.reference name, ts, by simp [parseName, Parse.mark?, hopening], by simp [parts],
      trivial, rfl, stops_ten fun _ => other⟩

theorem parsePrimary_reader (reads : Reader 0 n nested) :
    Reader 10 (n + 1) (parsePrimary nested) := by
  intro last ts short
  rcases Parse.name?_cases last ts with ⟨name, behind, rfl, hname⟩ | ⟨-, hname⟩
  · obtain ⟨expr, rest, h, spans, formed, tight, stops⟩ :=
      parseName_reads reads name last behind (by simpa using short)
    exact ⟨expr, rest, by simp [parsePrimary, hname, h], spans, formed, by omega, stops⟩
  rcases Parse.accept?_cases literalOf last ts with
      ⟨t, behind, ⟨form, text⟩, rfl, found, hliteral⟩ | ⟨-, hliteral⟩
  · obtain ⟨value, place⟩ := t
    refine ⟨.literal form ⟨text, place⟩, behind, by simp [parsePrimary, hname, hliteral], ?_,
      trivial, by simp [tightness], stops_ten (by simp [endsInName])⟩
    unfold literalOf at found
    split at found <;> simp_all [parts]
  rcases Parse.token?_cases (.delimiter .leftParen) last ts with
      ⟨opening, behind, rfl, hopening⟩ | ⟨-, hopening⟩
  · obtain ⟨inner, middle, hinner, spans, formed, -⟩ := reads last behind (by simpa using short)
    obtain ⟨closing, rest, hclosing, spans', -⟩ := Parse.mark_reads .rightParen last middle
    refine ⟨.paren opening inner closing, rest,
      by simp [parsePrimary, hname, hliteral, Parse.mark?, hopening, hinner, hclosing], ?_, formed,
      by simp [tightness], stops_ten (by simp [endsInName])⟩
    simp only [parts, spans_append, Delimiter.part, Kind.part, spans_found, spans_nil]
    exact ⟨middle, ⟨_, ⟨_, rfl, rfl⟩, spans⟩, spans'⟩
  · exact ⟨.missing (ts.headD last), ts,
      by simp [parsePrimary, hname, hliteral, Parse.mark?, hopening, gap_reads], by simp [parts],
      trivial, by simp [tightness], stops_ten (by simp [endsInName])⟩

/-! ### Indices, members, signs and casts -/

/-- An index or a member behind an expression, of which no lexeme is left that would call it. -/
theorem parseSuffix_cases (reads : Reader 0 n nested) (base : Expr) :
    ∀ last ts, ts.length ≤ n →
      (∃ expr rest, parseSuffix nested base last ts = (some expr, rest) ∧
        rest.length < ts.length ∧ expr.tightness = 9 ∧ expr.endsInName = false ∧
        (base.Formed → 9 ≤ base.tightness → expr.Formed) ∧
        ∀ all, Spans last base.parts all ts → Spans last expr.parts all rest) ∨
      ((∀ t ∈ ts.head?, t.value.continuation? ≠ some 9) ∧
        parseSuffix nested base last ts = (none, ts)) := by
  intro last ts short
  rcases Parse.token?_cases (.delimiter .leftBracket) last ts with
      ⟨opening, behind, rfl, hopening⟩ | ⟨notBracket, hopening⟩
  · simp only [List.length_cons] at short ⊢
    obtain ⟨index, middle, hindex, spans, formed, -⟩ := reads last behind (by omega)
    obtain ⟨closing, rest, hclosing, spans', -⟩ := Parse.mark_reads .rightBracket last middle
    have shorter := spans.length_le
    have shorter' := spans'.length_le
    refine .inl ⟨.element base opening index closing, rest,
      by simp [parseSuffix, Parse.mark?, hopening, hindex, hclosing], by omega, rfl, rfl,
      fun formedBase tight => ⟨formedBase, tight, formed⟩, ?_⟩
    intro all spansBase
    simp only [parts, spans_append, Delimiter.part, Kind.part, spans_found, spans_nil]
    exact ⟨middle, ⟨behind, ⟨_, spansBase, _, rfl, rfl⟩, spans⟩, spans'⟩
  rcases Parse.token?_cases (.operator .dot) last ts with ⟨dot, behind, rfl, hdot⟩ | ⟨notDot, hdot⟩
  · obtain ⟨name, rest, hname, spans, -⟩ := Parse.name_reads last behind
    have shorter := spans.length_le
    refine .inl ⟨.member base dot name, rest,
      by simp [parseSuffix, Parse.mark?, hopening, hdot, hname], by simp only [List.length_cons]; omega,
      rfl, rfl, fun formedBase tight => ⟨formedBase, tight⟩, ?_⟩
    intro all spansBase
    simp only [parts, spans_append, Kind.part, spans_found, spans_nil]
    exact ⟨behind, ⟨_, spansBase, _, rfl, rfl⟩, spans⟩
  · refine .inr ⟨?_, by simp [parseSuffix, Parse.mark?, hopening, hdot]⟩
    intro t ht found
    exact (continuation?_eq_nine found).elim (notDot t ht) (notBracket t ht)

theorem parsePostfix_reader (reads : Reader 0 n nested) (bound : fuel ≤ n + 1) :
    Reader 9 fuel (parsePostfix nested fuel) := by
  intro last ts short
  obtain ⟨primary, behind, hprimary, spans, formed, tight, stops⟩ :=
    parsePrimary_reader reads last ts (by omega)
  have shorter := spans.length_le
  -- what has been read so far spans the lexemes up to what is left
  obtain ⟨expr, rest, h, ⟨spans, formed, tight, stops⟩, stuck⟩ := Parse.extend_reads
    (parseSuffix nested) last
    (fun (e : Expr) rest =>
      Spans last e.parts ts rest ∧ e.Formed ∧ 9 ≤ e.tightness ∧ e.Stops 10 rest)
    (by
      rintro e rest ⟨spans, formed, tight, -⟩
      have left := spans.length_le
      rcases parseSuffix_cases reads e last rest (by omega) with
          ⟨e', rest', h, less, tight', ends, formed', spans'⟩ | ⟨-, h⟩
      · exact .inl ⟨e', rest', h, less, spans' ts spans, formed' formed tight, by omega,
          stops_ten (by simp [ends])⟩
      · exact .inr h)
    (show behind.length ≤ fuel by omega) ⟨spans, formed, by omega, stops⟩
  refine ⟨expr, rest, by simp [parsePostfix, hprimary, h], spans, formed, tight, ?_⟩
  have left := spans.length_le
  rcases parseSuffix_cases reads expr last rest (by omega) with ⟨_, _, h, -⟩ | ⟨other, -⟩
  · simp [h] at stuck
  · exact stops.strengthen other

theorem parseUnary_reader (reads : Reader 0 n nested) :
    ∀ {fuel}, fuel ≤ n + 1 → Reader 8 fuel (parseUnary nested fuel) := by
  intro fuel
  induction fuel with
  | zero => intro _ last ts short; simp at short
  | succ fuel ih =>
    intro bound last ts short
    rcases Parse.operator?_cases [.minus, .bang] last ts with
        ⟨op, behind, among, rfl, hop⟩ | ⟨-, hop⟩
    · obtain ⟨operand, rest, hoperand, spans, formed, tight, stops⟩ :=
        ih (by omega) last behind (by simpa using short)
      exact ⟨.unary op operand, rest, by simp [parseUnary, hop, hoperand],
        by simpa [parts] using spans, ⟨among, formed, tight⟩, by simp [tightness], stops⟩
    · obtain ⟨expr, rest, h, spans, formed, tight, stops⟩ :=
        parsePostfix_reader reads bound last ts short
      exact ⟨expr, rest, by simp [parseUnary, hop, h], spans, formed, by omega,
        stops.behindPostfix (by omega) (by omega)⟩

theorem castOpening?_cases (last : Lexeme) (ts : List Lexeme) :
    (∃ opening u behind, ts = ⟨.delimiter .leftParen, opening⟩ :: u :: behind ∧
      u.value.beginsType = true ∧ castOpening? last ts = (some opening, u :: behind)) ∨
    castOpening? last ts = (none, ts) := by
  match ts with
  | [] | [_] => exact .inr rfl
  | ⟨value, place⟩ :: u :: behind =>
    by_cases both : value = .delimiter .leftParen ∧ u.value.beginsType
    · obtain ⟨rfl, begins⟩ := both
      exact .inl ⟨place, u, behind, rfl, begins, by simp [castOpening?, begins]⟩
    · exact .inr (by simp only [castOpening?, if_neg both])

theorem parseCast_reader (reads : Reader 0 n nested) :
    ∀ {fuel}, fuel ≤ n + 1 → Reader 7 fuel (parseCast nested fuel) := by
  intro fuel
  induction fuel with
  | zero => intro _ last ts short; simp at short
  | succ fuel ih =>
    intro bound last ts short
    rcases castOpening?_cases last ts with ⟨opening, u, behind, rfl, begins, hopening⟩ | hopening
    · rcases TypeName.parse?_cases last (u :: behind) with
          ⟨target, middle, htarget, spans, formedTarget⟩ | ⟨other, -⟩
      · obtain ⟨closing, middle', hclosing, spans', -⟩ := Parse.mark_reads .rightParen last middle
        have shorter := spans.length_le
        have shorter' := spans'.length_le
        simp only [List.length_cons] at short shorter
        obtain ⟨operand, rest, hoperand, spans'', formed, tight, stops⟩ :=
          ih (by omega) last middle' (by omega)
        refine ⟨.cast opening target closing operand, rest,
          by simp [parseCast, hopening, htarget, hclosing, hoperand], ?_,
          ⟨formedTarget, formed, tight⟩, by simp [tightness], stops⟩
        simp only [parts, spans_append, Delimiter.part, Kind.part, spans_found, spans_nil]
        exact ⟨middle', ⟨middle, ⟨_, ⟨_, rfl, rfl⟩, spans⟩, spans'⟩, spans''⟩
      · simp [begins] at other
    · obtain ⟨expr, rest, h, spans, formed, tight, stops⟩ :=
        parseUnary_reader reads bound last ts short
      exact ⟨expr, rest, by simp [parseCast, hopening, h], spans, formed, by omega,
        stops.behindPostfix (by omega) (by omega)⟩

/-! ### Binary operators and assignment -/

theorem leftAssociative_reader {ops : List Operator} {level : Nat}
    (mem : ∀ op, op ∈ ops ↔ op.level = level) (positive : 1 ≤ level) (below : level < 7)
    (reads : Reader (level + 1) n operand) (enough : n ≤ fuel + 1) :
    Reader level n (Parse.leftAssociative .binary ops fuel operand) := by
  intro last ts short
  obtain ⟨expr, rest, h, spans, chain, stops, other⟩ := Parse.leftAssociative_reads .binary ops parts
    (fun e => e.Formed ∧ level + 1 ≤ e.tightness) (Stops (level + 1))
    (fun _ _ _ => by simp [parts]) (fun _ _ _ _ => Iff.rfl)
    (fun last ts short =>
      have ⟨expr, rest, h, spans, formed, tight, stops⟩ := reads last ts short
      ⟨expr, rest, h, spans, ⟨formed, tight⟩, stops⟩)
    enough last short
  obtain ⟨formed, tight⟩ := (chain_iff mem positive below expr).mp chain
  refine ⟨expr, rest, h, spans, formed, tight, stops.strengthen ?_⟩
  intro t ht found
  obtain ⟨op, value, same⟩ := operator_of_continuation? found positive below
  exact other t ht op ((mem op).mpr same) value

theorem parseLevels_reader (fuel : Nat) (reads : Reader 7 n operand) (enough : n ≤ fuel + 1) :
    Reader 1 n (parseLevels fuel operand levels) := by
  obtain ⟨mem₁, mem₂, mem₃, mem₄, mem₅, mem₆⟩ := mem_levels
  have reads₆ := leftAssociative_reader mem₆ (by omega) (by omega) reads enough
  have reads₅ := leftAssociative_reader mem₅ (by omega) (by omega) reads₆ enough
  have reads₄ := leftAssociative_reader mem₄ (by omega) (by omega) reads₅ enough
  have reads₃ := leftAssociative_reader mem₃ (by omega) (by omega) reads₄ enough
  have reads₂ := leftAssociative_reader mem₂ (by omega) (by omega) reads₃ enough
  exact leftAssociative_reader mem₁ (by omega) (by omega) reads₂ enough

theorem parseAssign_reader (reads : Reader 0 n nested) :
    ∀ {fuel}, fuel ≤ n + 1 → Reader 0 fuel (parseAssign nested fuel) := by
  intro fuel
  induction fuel with
  | zero => intro _ last ts short; simp at short
  | succ fuel ih =>
    intro bound last ts short
    have levels := parseLevels_reader (fuel + 1) (parseCast_reader reads bound) (by omega)
    obtain ⟨target, middle, htarget, spans, formed, tight, stops⟩ := levels last ts short
    have shorter := spans.length_le
    rcases Parse.token?_cases (.operator .assign) last middle with
        ⟨op, behind, rfl, hop⟩ | ⟨other, hop⟩
    · simp only [List.length_cons] at shorter
      obtain ⟨value, rest, hvalue, spans', formed', -, stops'⟩ :=
        ih (by omega) last behind (by omega)
      refine ⟨.assign target op value, rest, ?_, ?_, ⟨formed, tight, formed'⟩,
        by simp [tightness], stops'⟩
      · rw [parseAssign]
        simp only [Parse.bind_apply, htarget, hop, hvalue, Parse.pure_apply]
      · simp only [parts, spans_append, Kind.part, spans_found, spans_nil]
        exact ⟨behind, ⟨_, spans, _, rfl, rfl⟩, spans'⟩
    · refine ⟨target, middle, ?_, spans, formed, by omega,
        stops.strengthen fun t ht found => other t ht (continuation?_eq_zero found)⟩
      rw [parseAssign]
      simp only [Parse.bind_apply, htarget, hop, Parse.pure_apply]

theorem parseWithin_reader (fuel : Nat) : Reader 0 fuel (parseWithin fuel) := by
  induction fuel with
  | zero => intro last ts short; simp at short
  | succ fuel ih => exact parseAssign_reader ih (Nat.le_refl (fuel + 1))

theorem parse_apply (last : Lexeme) (ts : List Lexeme) :
    Expr.parse last ts = parseWithin (ts.length + 1) last ts := by
  rw [Expr.parse, Parse.bounded]

/-- What is read as an expression is a well-formed tree that nothing left goes on with. -/
theorem parse_reader (last : Lexeme) (ts : List Lexeme) :
    ∃ expr rest, Expr.parse last ts = (expr, rest) ∧ Spans last expr.parts ts rest ∧
      expr.Formed ∧ expr.Stops 0 rest := by
  obtain ⟨expr, rest, h, spans, formed, -, stops⟩ :=
    parseWithin_reader (ts.length + 1) last ts (by omega)
  exact ⟨expr, rest, by rw [parse_apply, h], spans, formed, stops⟩

theorem parse_reads : Parse.Reads Expr.parse parts Formed := by
  intro last ts
  obtain ⟨expr, rest, h, spans, formed, -⟩ := parse_reader last ts
  exact ⟨expr, rest, h, spans, formed⟩

theorem parseArgs_reads : Parse.Reads (parseArgs Expr.parse) Args.parts Args.Formed := by
  intro last ts
  have reads : Reader 0 (ts.length + 1) Expr.parse := by
    intro last ts _
    obtain ⟨expr, rest, h, spans, formed, stops⟩ := parse_reader last ts
    exact ⟨expr, rest, h, spans, formed, Nat.zero_le _, stops⟩
  obtain ⟨args, rest, h, spans, formed⟩ :=
    parseArgsWithin_reads reads (ts.length + 1) last ts (Nat.lt_succ_self _)
  exact ⟨args, rest, by rw [← h, parseArgs, Parse.bounded], spans, formed⟩

end Expr

end PlainC
