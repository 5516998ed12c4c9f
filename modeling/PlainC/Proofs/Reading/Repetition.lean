import PlainC.Proofs.Reading.Basic

set_option autoImplicit false

/-!
Repeated parsers. An extension goes on until it cannot be taken, so what it leaves does not begin
with one more step; operands with operators between them come back as the chain they were written
as; and so do things with commas between them.
-/

namespace PlainC

/-- Nothing is left, or a mark comes next behind which no expression goes on. -/
def Closed (rest : List Lexeme) : Prop :=
  ∀ t ∈ rest.head?, ∃ mark : Delimiter,
    mark ∉ [Delimiter.leftParen, .leftBracket, .leftBrace] ∧ t.value = .delimiter mark

@[simp] theorem closed_nil : Closed [] := by simp [Closed]

@[simp] theorem closed_mark {mark : Delimiter} {place : Place} {rest : List Lexeme} :
    Closed (⟨.delimiter mark, place⟩ :: rest) ↔
      mark ∉ [Delimiter.leftParen, .leftBracket, .leftBrace] := by
  simp [Closed]

namespace Parse

variable {α : Type}

/-! ### Steps -/

/-- An extension takes steps up to where none can be taken, if every step takes a lexeme. -/
theorem extend_reads (step : α → Parse (Option α)) (last : Lexeme) (inv : α → List Lexeme → Prop)
    (steps : ∀ a ts, inv a ts →
      (∃ b rest, step a last ts = (some b, rest) ∧ rest.length < ts.length ∧ inv b rest) ∨
        step a last ts = (none, ts)) :
    ∀ {fuel a ts}, ts.length ≤ fuel → inv a ts →
      ∃ b rest, extend step fuel a last ts = (b, rest) ∧ inv b rest ∧
        step b last rest = (none, rest) := by
  intro fuel
  induction fuel with
  | zero =>
    intro a ts enough holds
    rcases steps a ts holds with ⟨b, rest, -, shorter, -⟩ | stuck
    · omega
    · exact ⟨a, ts, rfl, holds, stuck⟩
  | succ fuel ih =>
    intro a ts enough holds
    rcases steps a ts holds with ⟨b, rest, taken, shorter, holds'⟩ | stuck
    · obtain ⟨c, rest', h, final⟩ := ih (by omega) holds'
      exact ⟨c, rest', by simp [extend, taken, h], final⟩
    · exact ⟨a, ts, by simp [extend, stuck], holds, stuck⟩

theorem extend_of_none {step : α → Parse (Option α)} {last : Lexeme} {a : α} {ts : List Lexeme}
    (stuck : step a last ts = (none, ts)) (fuel : Nat) : extend step fuel a last ts = (a, ts) := by
  cases fuel with
  | zero => rfl
  | succ fuel => simp [extend, stuck]

/-- What each step keeps is kept. -/
theorem extend_inv (inv : α → Prop) {step : α → Parse (Option α)} {last : Lexeme}
    (steps : ∀ a ts b, inv a → (step a last ts).1 = some b → inv b) :
    ∀ fuel a ts, inv a → inv (extend step fuel a last ts).1 := by
  intro fuel
  induction fuel with
  | zero => exact fun _ _ holds => holds
  | succ fuel ih =>
    intro a ts holds
    rcases found : step a last ts with ⟨_ | b, rest⟩
    · simpa [extend, found] using holds
    · simpa [extend, found] using ih b rest (steps a ts b holds (by simp [found]))

/-- What no step changes stays as it is. -/
theorem extend_keeps {β : Type} (f : α → β) {step : α → Parse (Option α)} {last : Lexeme}
    (steps : ∀ a ts b, (step a last ts).1 = some b → f b = f a) (fuel : Nat) (a : α)
    (ts : List Lexeme) : f (extend step fuel a last ts).1 = f a :=
  extend_inv (fun b => f b = f a) (fun b ts c same h => (steps b ts c h).trans same) fuel a ts rfl

/-! ### Operators that associate to the left -/

/-- Operands with operators between them, which associate to the left. -/
inductive Chain (build : At Operator → α → α → α) (ops : List Operator) (operand : α → Prop) :
    α → Prop
  | first {a} : operand a → Chain build ops operand a
  | next {op left right} : op.value ∈ ops → Chain build ops operand left → operand right →
      Chain build ops operand (build op left right)

/-- Adds an operator and the operand behind it. -/
def appendOperand (build : At Operator → α → α → α) (ops : List Operator) (operand : Parse α)
    (left : α) : Parse (Option α) := do
  match ← operator? ops with
  | some op => return some (build op left (← operand))
  | none => return none

theorem leftAssociative_apply (build : At Operator → α → α → α) (ops : List Operator) (fuel : Nat)
    (operand : Parse α) (last : Lexeme) (ts : List Lexeme) :
    leftAssociative build ops fuel operand last ts =
      extend (appendOperand build ops operand) fuel (operand last ts).1 last
        (operand last ts).2 := rfl

section

variable (build : At Operator → α → α → α) (ops : List Operator) (view : α → Parts)
  (good : α → Prop) (stops : α → List Lexeme → Prop) {operand : Parse α} {n fuel : Nat}

/-- What is read begins no further operand behind an operator. -/
theorem leftAssociative_reads
    (view_build : ∀ op l r, view (build op l r) = view l ++ operatorPart op ++ view r)
    (stops_build : ∀ op l r rest, stops (build op l r) rest ↔ stops r rest)
    (reads : ∀ last ts, ts.length < n →
      ∃ a rest, operand last ts = (a, rest) ∧ Spans last (view a) ts rest ∧ good a ∧ stops a rest)
    (enough : n ≤ fuel + 1) (last : Lexeme) {ts : List Lexeme} (short : ts.length < n) :
    ∃ a rest, leftAssociative build ops fuel operand last ts = (a, rest) ∧
      Spans last (view a) ts rest ∧ Chain build ops good a ∧ stops a rest ∧
        ∀ t ∈ rest.head?, ∀ op ∈ ops, t.value ≠ .operator op := by
  obtain ⟨first, behind, hfirst, spans, isGood, isStop⟩ := reads last ts short
  have shorter := spans.length_le
  -- what has been read so far spans the lexemes up to what is left
  obtain ⟨a, rest, h, ⟨spans, chain, isStop⟩, stuck⟩ := extend_reads
    (appendOperand build ops operand) last
    (fun a rest => Spans last (view a) ts rest ∧ Chain build ops good a ∧ stops a rest)
    (by
      rintro a rest ⟨spans, chain, -⟩
      rcases operator?_cases ops last rest with ⟨op, behind, among, rfl, hop⟩ | ⟨-, hop⟩
      · have left := spans.length_le
        simp only [List.length_cons] at left
        obtain ⟨r, rest', hr, spans', isGood, isStop⟩ := reads last behind (by omega)
        have right := spans'.length_le
        refine .inl ⟨build op a r, rest', by simp [appendOperand, hop, hr], ?_, ?_, ?_, ?_⟩
        · simp only [List.length_cons]
          omega
        · rw [view_build]
          simp only [spans_append, operatorPart, Kind.part, spans_found, spans_nil]
          exact ⟨behind, ⟨_, spans, behind, rfl, rfl⟩, spans'⟩
        · exact .next among chain isGood
        · exact (stops_build op a r rest').mpr isStop
      · exact .inr (by simp [appendOperand, hop]))
    (show behind.length ≤ fuel by omega) ⟨spans, .first isGood, isStop⟩
  refine ⟨a, rest, by rw [leftAssociative_apply, hfirst, h], spans, chain, isStop, ?_⟩
  rcases operator?_cases ops last rest with ⟨op, behind, among, rfl, hop⟩ | ⟨other, -⟩
  · simp [appendOperand, hop] at stuck
  · exact other

/-- A chain in front of something else is read up to its last operand and then gone on with. -/
theorem leftAssociative_chain
    (view_build : ∀ op l r, view (build op l r) = view l ++ operatorPart op ++ view r)
    (stops_build : ∀ op l r rest, stops (build op l r) rest ↔ stops r rest)
    (stops_op : ∀ a op place rest, op ∈ ops → stops a (⟨.operator op, place⟩ :: rest))
    (reads : ∀ last a rest, (lexemesOf (view a) ++ rest).length < n → good a → Gapless (view a) →
      stops a rest → operand last (lexemesOf (view a) ++ rest) = (a, rest))
    (enough : n ≤ fuel + 1) {a : α} (chain : Chain build ops good a) (last : Lexeme) :
    ∀ rest, (lexemesOf (view a) ++ rest).length < n → Gapless (view a) → stops a rest →
      ∃ left, fuel ≤ left + (lexemesOf (view a)).length ∧
        leftAssociative build ops fuel operand last (lexemesOf (view a) ++ rest) =
          extend (appendOperand build ops operand) left a last rest := by
  induction chain with
  | first isGood =>
    intro rest short gapless isStop
    exact ⟨fuel, by omega, by rw [leftAssociative_apply, reads _ _ _ short isGood gapless isStop]⟩
  | @next op l r among chain isGood ih =>
    intro rest short gapless isStop
    rw [view_build] at short gapless ⊢
    simp only [operatorPart, Kind.part, gapless_append, gapless_found,
      lexemesOf_append, lexemesOf_found, List.append_assoc, List.cons_append, List.nil_append,
      List.length_append, List.length_cons] at short gapless ⊢
    obtain ⟨gaplessLeft, gaplessRight⟩ := gapless
    obtain ⟨left, fuelLeft, h⟩ := ih (⟨.operator op.value, op.place⟩ :: (lexemesOf (view r) ++ rest))
      (by simpa using by omega) gaplessLeft (stops_op l _ _ _ among)
    cases left with
    | zero => omega
    | succ left =>
      refine ⟨left, by omega, ?_⟩
      have hright := reads last r rest (by simp; omega) isGood gaplessRight
        ((stops_build op l r rest).mp isStop)
      rw [h]
      simp [extend, appendOperand, operator?_of_head among, hright]

/-- A chain is read back as it is. -/
theorem leftAssociative_lexemes
    (view_build : ∀ op l r, view (build op l r) = view l ++ operatorPart op ++ view r)
    (stops_build : ∀ op l r rest, stops (build op l r) rest ↔ stops r rest)
    (stops_op : ∀ a op place rest, op ∈ ops → stops a (⟨.operator op, place⟩ :: rest))
    (reads : ∀ last a rest, (lexemesOf (view a) ++ rest).length < n → good a → Gapless (view a) →
      stops a rest → operand last (lexemesOf (view a) ++ rest) = (a, rest))
    (enough : n ≤ fuel + 1) {a : α} (chain : Chain build ops good a) (last : Lexeme)
    (rest : List Lexeme) (short : (lexemesOf (view a) ++ rest).length < n)
    (gapless : Gapless (view a)) (isStop : stops a rest)
    (other : ∀ t ∈ rest.head?, ∀ op ∈ ops, t.value ≠ .operator op) :
    leftAssociative build ops fuel operand last (lexemesOf (view a) ++ rest) = (a, rest) := by
  obtain ⟨left, -, h⟩ := leftAssociative_chain build ops view good stops view_build stops_build
    stops_op reads enough chain last rest short gapless isStop
  rw [h]
  exact extend_of_none (by simp [appendOperand, operator?_of_ne _ _ _ other]) left

end

end Parse

/-! ### Commas -/

namespace Separated

variable {α : Type} {item : Parse α} {view : α → Parts} {good : α → Prop}

theorem parseRest_reads (reads : Parse.Reads item view good) (fuel : Nat) :
    Parse.Reads (parseRest item fuel) (restParts view)
      fun items => ∀ a ∈ items.map Prod.snd, good a := by
  induction fuel with
  | zero => exact fun last ts => ⟨[], ts, rfl, by simp [restParts]⟩
  | succ fuel ih =>
    intro last ts
    rcases Parse.token?_cases (.delimiter .comma) last ts with
        ⟨comma, behind, rfl, hcomma⟩ | ⟨-, hcomma⟩
    · obtain ⟨a, middle, ha, spans, isGood⟩ := reads last behind
      obtain ⟨items, rest, hitems, spans', areGood⟩ := ih last middle
      refine ⟨(comma, a) :: items, rest, by simp [parseRest, Parse.mark?, hcomma, ha, hitems], ?_, ?_⟩
      · simp only [restParts, spans_append, Delimiter.part, Kind.part, spans_found, spans_nil]
        exact ⟨middle, ⟨_, ⟨_, rfl, rfl⟩, spans⟩, spans'⟩
      · simpa using ⟨isGood, by simpa using areGood⟩
    · exact ⟨[], ts, by simp [parseRest, Parse.mark?, hcomma], by simp [restParts]⟩

theorem parse_reads (reads : Parse.Reads item view good) :
    Parse.Reads (Separated.parse item) (Separated.parts view)
      fun items => ∀ a ∈ items.toList, good a := by
  intro last ts
  obtain ⟨first, middle, hfirst, spans, isGood⟩ := reads last ts
  obtain ⟨items, rest, hitems, spans', areGood⟩ := parseRest_reads reads (middle.length + 1) last middle
  refine ⟨⟨first, items⟩, rest, by simp [Separated.parse, Parse.bounded, hfirst, hitems], ?_, ?_⟩
  · simp only [Separated.parts, spans_append]
    exact ⟨middle, spans, spans'⟩
  · simpa [toList] using ⟨isGood, by simpa using areGood⟩

theorem closed_restParts (view : α → Parts) (items : List (Place × α)) {rest : List Lexeme}
    (closed : Closed rest) :
    Closed (lexemesOf (restParts view items) ++ rest) := by
  cases items with
  | nil => simpa [restParts] using closed
  | cons => simp [restParts]

theorem length_le_restParts (view : α → Parts) (items : List (Place × α)) :
    items.length ≤ (lexemesOf (restParts view items)).length := by
  induction items with
  | nil => simp
  | cons pair items ih =>
    simp only [restParts, Delimiter.part, Kind.part, lexemesOf_append, lexemesOf_found,
      List.length_append, List.length_cons]
    omega

theorem parseRest_lexemes
    (reads : ∀ last a rest, good a → Gapless (view a) → Closed rest →
      item last (lexemesOf (view a) ++ rest) = (a, rest))
    (last : Lexeme) {rest : List Lexeme} (closed : Closed rest)
    (other : ∀ t ∈ rest.head?, t.value ≠ .delimiter .comma) :
    ∀ (items : List (Place × α)) (fuel : Nat), items.length < fuel →
      (∀ a ∈ items.map Prod.snd, good a) → Gapless (restParts view items) →
      parseRest item fuel last (lexemesOf (restParts view items) ++ rest) = (items, rest) := by
  intro items
  induction items with
  | nil =>
    intro fuel enough _ _
    cases fuel with
    | zero => simp at enough
    | succ fuel => simp [parseRest, restParts, Parse.mark?, Parse.token?_of_ne _ _ _ other]
  | cons pair items ih =>
    obtain ⟨comma, a⟩ := pair
    intro fuel enough areGood gapless
    cases fuel with
    | zero => simp at enough
    | succ fuel =>
      simp only [List.length_cons, Nat.add_lt_add_iff_right] at enough
      simp only [restParts, Delimiter.part, Kind.part, List.cons_append, List.nil_append,
        gapless_found, gapless_append] at gapless
      simp only [List.map_cons, List.mem_cons, forall_eq_or_imp] at areGood
      have hitem := reads last a _ areGood.1 gapless.1 (closed_restParts view items closed)
      have hrest := ih fuel enough areGood.2 gapless.2
      simp [parseRest, restParts, Parse.mark?, Parse.token?_of_head, hitem, hrest]

/-- Things with commas between them are read back as they are. -/
theorem parse_lexemes
    (reads : ∀ last a rest, good a → Gapless (view a) → Closed rest →
      item last (lexemesOf (view a) ++ rest) = (a, rest))
    (last : Lexeme) (items : Separated α) (rest : List Lexeme)
    (areGood : ∀ a ∈ items.toList, good a) (gapless : Gapless (items.parts view))
    (closed : Closed rest) (other : ∀ t ∈ rest.head?, t.value ≠ .delimiter .comma) :
    Separated.parse item last (lexemesOf (items.parts view) ++ rest) = (items, rest) := by
  obtain ⟨first, items⟩ := items
  simp only [toList, List.mem_cons, forall_eq_or_imp] at areGood
  simp only [Separated.parts, gapless_append] at gapless
  have count := length_le_restParts view items
  have hfirst := reads last first _ areGood.1 gapless.1 (closed_restParts view items closed)
  have hrest := parseRest_lexemes reads last closed other items
    ((lexemesOf (restParts view items) ++ rest).length + 1)
    (by simp only [List.length_append]; omega) areGood.2 gapless.2
  simp only [Separated.parts, lexemesOf_append, List.append_assoc, Separated.parse, Parse.bounded,
    Parse.bind_apply, hfirst, hrest, Parse.pure_apply]

end Separated

end PlainC
