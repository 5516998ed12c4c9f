import PlainC.Proofs.Reading.Basic
import PlainC.Proofs.Relabeling.Trees
import PlainC.Expr.Parse

set_option autoImplicit false

/-!
Reading relabeled lexemes. The parsers only ask of what kinds the lexemes are, so they make of them
the relabeled tree, be it whole or with gaps in it.
-/

namespace PlainC

/-! ### Kinds -/

section

variable {r : Relabeling}

theorem Kind.relabel_eq_iff {kind : Kind} (other : ∀ name, kind ≠ .identifier name) (k : Kind) :
    k.relabel r = kind ↔ k = kind := by
  cases k with
  | identifier name =>
    constructor
    · intro same
      exact absurd same.symm (other (r.name name))
    · intro same
      exact absurd same.symm (other name)
  | _ => exact Iff.rfl

theorem Kind.beginsType_relabel (kind : Kind) :
    (kind.relabel r).beginsType = kind.beginsType := by
  cases kind <;> rfl

theorem Expr.canBegin_relabel (kind : Kind) :
    Expr.canBegin (kind.relabel r) = Expr.canBegin kind := by
  cases kind <;> rfl

theorem Lexeme.headD_map_relabel (last : Lexeme) (ts : List Lexeme) :
    (ts.map (Lexeme.relabel r)).headD (Lexeme.relabel r last) =
      Lexeme.relabel r (ts.headD last) := by
  cases ts <;> rfl

/-- Relabeled lexemes end where the lexemes do. -/
theorem Lexeme.takeWhile_relabel (r : Relabeling) (lexemes : List Lexeme) :
    (lexemes.map (Lexeme.relabel r)).takeWhile (fun lexeme => lexeme.value ≠ .endOfInput) =
      (lexemes.takeWhile fun lexeme => lexeme.value ≠ .endOfInput).map (Lexeme.relabel r) := by
  have same (lexeme : Lexeme) :
      (Lexeme.relabel r lexeme).value = .endOfInput ↔ lexeme.value = .endOfInput :=
    Kind.relabel_eq_iff (by simp) lexeme.value
  rw [List.takeWhile_map]
  simp only [Function.comp_def, ne_eq, same]

end

namespace Parse

variable {α β γ δ : Type} {r : Relabeling}

/-- On relabeled lexemes the second parser gives what the first one gives, but changed, and it takes
as many of them. -/
def Follows (r : Relabeling) (change : α → β) (parser : Parse α) (parser' : Parse β) : Prop :=
  ∀ last ts, parser' (Lexeme.relabel r last) (ts.map (Lexeme.relabel r)) =
    (change (parser last ts).1, (parser last ts).2.map (Lexeme.relabel r))

theorem follows_pure {change : α → β} {a : α} {b : β} (same : b = change a) :
    Follows r change (pure a) (pure b) := by
  intro last ts
  rw [same]
  rfl

theorem Follows.bind {change : α → β} {change' : γ → δ} {parser : Parse α} {parser' : Parse β}
    {next : α → Parse γ} {next' : β → Parse δ} (first : Follows r change parser parser')
    (second : ∀ a, Follows r change' (next a) (next' (change a))) :
    Follows r change' (parser >>= next) (parser' >>= next') := by
  intro last ts
  rw [bind_apply, bind_apply, first last ts]
  exact second _ last _

/-- What is read last can be put into something greater. -/
theorem Follows.into {change : α → β} {change' : γ → δ} {parser : Parse α} {parser' : Parse β}
    {build : α → γ} {build' : β → δ} (h : Follows r change parser parser')
    (same : ∀ a, build' (change a) = change' (build a)) :
    Follows r change' (parser >>= fun a => pure (build a)) (parser' >>= fun b => pure (build' b)) :=
  h.bind fun a => follows_pure (same a)

/-! ### Single lexemes -/

theorem follows_peek : Follows r (Lexeme.relabel r) peek peek := by
  intro last ts
  rw [peek_apply, peek_apply, Lexeme.headD_map_relabel]

theorem follows_missing {change : α → α} :
    Follows r (Slot.relabel r change) (missing : Parse (Slot α)) missing :=
  follows_peek.into fun _ => rfl

theorem follows_accept? {read : Kind → Option α} (change : α → α)
    (same : ∀ kind : Kind, read (kind.relabel r) = (read kind).map change) :
    Follows r (Option.map fun a : At α => ⟨change a.value, r.place a.place⟩)
      (accept? read) (accept? read) := by
  intro last ts
  cases ts with
  | nil => rfl
  | cons t ts =>
    simp only [accept?, List.map_cons, Lexeme.relabel, same]
    cases read t.value with
    | none => rfl
    | some a => rfl

/-- Lexemes of which the kinds keep what is read of them. -/
theorem follows_accept?_move {read : Kind → Option α}
    (same : ∀ kind : Kind, read (kind.relabel r) = read kind) :
    Follows r (Option.map (At.move r)) (accept? read) (accept? read) :=
  follows_accept? id fun kind => by rw [same, Option.map_id_fun, id]

theorem follows_token? {kind : Kind} (other : ∀ name, kind ≠ .identifier name) :
    Follows r (Option.map r.place) (token? kind) (token? kind) := by
  refine (follows_accept?_move fun k => ?_).bind ?_
  · simp only [Kind.relabel_eq_iff other]
  · rintro (_ | t)
    · exact follows_pure rfl
    · exact follows_pure rfl

theorem follows_token {kind : Kind} (other : ∀ name, kind ≠ .identifier name) :
    Follows r (Slot.relabel r r.place) (token kind) (token kind) := by
  apply (follows_token? other).bind
  rintro (_ | place)
  · exact follows_missing
  · exact follows_pure rfl

theorem follows_mark? (mark : Delimiter) : Follows r (Option.map r.place) (mark? mark) (mark? mark) :=
  follows_token? nofun

theorem follows_mark (mark : Delimiter) :
    Follows r (Slot.relabel r r.place) (Parse.mark mark) (Parse.mark mark) :=
  follows_token nofun

theorem follows_keyword? (word : Keyword) :
    Follows r (Option.map r.place) (keyword? word) (keyword? word) :=
  follows_token? nofun

theorem follows_operatorToken? (op : Operator) :
    Follows r (Option.map r.place) (token? (.operator op)) (token? (.operator op)) :=
  follows_token? nofun

theorem follows_operator? (ops : List Operator) :
    Follows r (Option.map (At.move r)) (operator? ops) (operator? ops) :=
  follows_accept?_move fun kind => by cases kind <;> rfl

theorem follows_name? : Follows r (Option.map (Name.rename r)) name? name? :=
  follows_accept? r.name fun kind => by cases kind <;> rfl

theorem follows_name : Follows r (Slot.relabel r (Name.rename r)) Parse.name Parse.name := by
  apply follows_name?.bind
  rintro (_ | name)
  · exact follows_missing
  · exact follows_pure rfl

theorem follows_sees {kind : Kind} (other : ∀ name, kind ≠ .identifier name) :
    Follows r id (sees kind) (sees kind) := by
  intro last ts
  have same : (Lexeme.relabel r (ts.headD last)).value = kind ↔ (ts.headD last).value = kind :=
    Kind.relabel_eq_iff other _
  simp only [sees_apply, Lexeme.headD_map_relabel, same, id]

theorem follows_atEnd : Follows r id atEnd atEnd := by
  intro last ts
  cases ts <;> rfl

/-! ### Repetition -/

theorem follows_bounded {change : α → β} {parser : Nat → Parse α} {parser' : Nat → Parse β}
    (same : ∀ fuel, Follows r change (parser fuel) (parser' fuel)) :
    Follows r change (bounded parser) (bounded parser') := by
  intro last ts
  unfold bounded
  rw [List.length_map, same]

theorem follows_extend {change : α → β} {step : α → Parse (Option α)} {step' : β → Parse (Option β)}
    (same : ∀ a, Follows r (Option.map change) (step a) (step' (change a))) (fuel : Nat) (a : α) :
    Follows r change (extend step fuel a) (extend step' fuel (change a)) := by
  induction fuel generalizing a with
  | zero => exact follows_pure rfl
  | succ fuel ih =>
    apply (same a).bind
    rintro (_ | b)
    · exact follows_pure rfl
    · exact ih b

theorem follows_leftAssociative (change : α → α) (build : At Operator → α → α → α)
    (built : ∀ op left right, change (build op left right) =
      build (op.move r) (change left) (change right)) (ops : List Operator) (fuel : Nat)
    {operand : Parse α} (same : Follows r change operand operand) :
    Follows r change (leftAssociative build ops fuel operand)
      (leftAssociative build ops fuel operand) := by
  apply same.bind
  intro first
  apply follows_extend
  intro left
  apply (follows_operator? ops).bind
  rintro (_ | op)
  · exact follows_pure rfl
  · exact same.into fun right => congrArg some (built op left right).symm

end Parse

open Parse

variable {r : Relabeling}

theorem Separated.follows_parse {α : Type} {change : α → α} {item : Parse α}
    (same : Follows r change item item) :
    Follows r (Separated.relabel r change) (Separated.parse item) (Separated.parse item) := by
  have rest (fuel : Nat) :
      Follows r (List.map fun item : Place × α => (r.place item.1, change item.2))
        (parseRest item fuel) (parseRest item fuel) := by
    induction fuel with
    | zero => exact follows_pure rfl
    | succ fuel ih =>
      apply (follows_mark? .comma).bind
      rintro (_ | comma)
      · exact follows_pure rfl
      · apply same.bind
        intro next
        exact ih.into fun _ => rfl
  apply same.bind
  intro first
  exact (follows_bounded rest).into fun _ => rfl

/-! ### Sizes and type names -/

namespace Size

theorem follows_gap : Follows r (relabel r) gap gap :=
  follows_peek.into fun _ => rfl

variable {nested : Parse Size}

theorem follows_parsePrimary (same : Follows r (relabel r) nested nested) :
    Follows r (relabel r) (parsePrimary nested) (parsePrimary nested) := by
  apply (follows_accept?_move fun kind => by cases kind <;> rfl).bind
  rintro (_ | text)
  · apply (follows_mark? .leftParen).bind
    rintro (_ | opening)
    · exact follows_gap
    · apply same.bind
      intro inner
      exact (follows_mark .rightParen).into fun _ => rfl
  · exact follows_pure rfl

theorem follows_parseSigned (same : Follows r (relabel r) nested nested) (fuel : Nat) :
    Follows r (relabel r) (parseSigned nested fuel) (parseSigned nested fuel) := by
  induction fuel with
  | zero => exact follows_gap
  | succ fuel ih =>
    apply (follows_operator? _).bind
    rintro (_ | sign)
    · exact follows_parsePrimary same
    · exact ih.into fun _ => rfl

theorem follows_parse : Follows r (relabel r) parse parse := by
  apply follows_bounded
  intro fuel
  induction fuel with
  | zero => exact follows_gap
  | succ fuel ih =>
    have factor := follows_parseSigned ih (fuel + 1)
    have term := follows_leftAssociative (relabel r) .binary (fun _ _ _ => rfl) [.star, .slash, .percent] fuel factor
    exact follows_leftAssociative (relabel r) .binary (fun _ _ _ => rfl) [.plus, .minus] fuel term

end Size

theorem BaseName.follows_parse? :
    Follows r (Option.map (BaseName.relabel r)) BaseName.parse? BaseName.parse? := by
  apply (follows_keyword? .intKw).bind
  rintro (_ | word)
  · apply (follows_keyword? .doubleKw).bind
    rintro (_ | word)
    · apply (follows_keyword? .charKw).bind
      rintro (_ | word)
      · apply (follows_keyword? .structKw).bind
        rintro (_ | word)
        · exact follows_pure rfl
        · exact follows_name.into fun _ => rfl
      · exact follows_pure rfl
    · exact follows_pure rfl
  · exact follows_pure rfl

theorem ArrayPart.follows_parse :
    Follows r (ArrayPart.relabel r) ArrayPart.parse ArrayPart.parse := by
  apply (follows_mark? .leftBracket).bind
  rintro (_ | opening)
  · exact follows_pure rfl
  · apply (follows_mark? .rightBracket).bind
    rintro (_ | closing)
    · apply Size.follows_parse.bind
      intro size
      exact (follows_mark .rightBracket).into fun _ => rfl
    · exact follows_pure rfl

theorem TypeName.follows_parse? :
    Follows r (Option.map (TypeName.relabel r)) TypeName.parse? TypeName.parse? := by
  apply BaseName.follows_parse?.bind
  rintro (_ | base)
  · exact follows_pure rfl
  · exact ArrayPart.follows_parse.into fun _ => rfl

/-! ### Expressions -/

namespace Expr

theorem follows_gap : Follows r (relabel r) gap gap :=
  follows_peek.into fun _ => rfl

section

variable {nested : Parse Expr} (same : Follows r (relabel r) nested nested)

include same

theorem follows_parseArgs : Follows r (Args.relabel r) (parseArgs nested) (parseArgs nested) := by
  apply follows_bounded
  intro fuel
  induction fuel with
  | zero => exact follows_gap.into fun _ => rfl
  | succ fuel ih =>
    apply same.bind
    intro arg
    apply (follows_mark? .comma).bind
    rintro (_ | comma)
    · exact follows_pure rfl
    · exact ih.into fun _ => rfl

theorem follows_parseName (name : Name) :
    Follows r (relabel r) (parseName nested name) (parseName nested (name.rename r)) := by
  apply (follows_mark? .leftParen).bind
  rintro (_ | opening)
  · exact follows_pure rfl
  · apply (follows_mark? .rightParen).bind
    rintro (_ | closing)
    · apply (follows_parseArgs same).bind
      intro args
      exact (follows_mark .rightParen).into fun _ => rfl
    · exact follows_pure rfl

theorem follows_parsePrimary :
    Follows r (relabel r) (parsePrimary nested) (parsePrimary nested) := by
  apply follows_name?.bind
  rintro (_ | name)
  · apply (follows_accept?_move fun kind => by cases kind <;> rfl).bind
    rintro (_ | ⟨⟨form, text⟩, place⟩)
    · apply (follows_mark? .leftParen).bind
      rintro (_ | opening)
      · exact follows_gap
      · apply same.bind
        intro inner
        exact (follows_mark .rightParen).into fun _ => rfl
    · exact follows_pure rfl
  · exact follows_parseName same name

theorem follows_parseSuffix (base : Expr) :
    Follows r (Option.map (relabel r)) (parseSuffix nested base)
      (parseSuffix nested (base.relabel r)) := by
  apply (follows_mark? .leftBracket).bind
  rintro (_ | opening)
  · apply (follows_operatorToken? .dot).bind
    rintro (_ | dot)
    · exact follows_pure rfl
    · exact follows_name.into fun _ => rfl
  · apply same.bind
    intro index
    exact (follows_mark .rightBracket).into fun _ => rfl

theorem follows_parseUnary (fuel : Nat) :
    Follows r (relabel r) (parseUnary nested fuel) (parseUnary nested fuel) := by
  induction fuel with
  | zero => exact follows_gap
  | succ fuel ih =>
    apply (follows_operator? _).bind
    rintro (_ | op)
    · apply (follows_parsePrimary same).bind
      exact follows_extend (follows_parseSuffix same) (fuel + 1)
    · exact ih.into fun _ => rfl

omit same in
theorem follows_castOpening? : Follows r (Option.map r.place) castOpening? castOpening? := by
  intro last ts
  match ts with
  | [] | [_] => rfl
  | t :: u :: rest =>
    have isParen : t.value.relabel r = .delimiter .leftParen ↔ t.value = .delimiter .leftParen :=
      Kind.relabel_eq_iff (by simp) t.value
    simp only [castOpening?, List.map_cons, Lexeme.relabel, isParen, Kind.beginsType_relabel]
    split <;> rfl

theorem follows_parseCast (fuel : Nat) :
    Follows r (relabel r) (parseCast nested fuel) (parseCast nested fuel) := by
  induction fuel with
  | zero => exact follows_gap
  | succ fuel ih =>
    apply follows_castOpening?.bind
    rintro (_ | opening)
    · exact follows_parseUnary same (fuel + 1)
    · apply TypeName.follows_parse?.bind
      rintro (_ | target)
      · exact follows_gap
      · apply (follows_mark .rightParen).bind
        intro closing
        exact ih.into fun _ => rfl

theorem follows_parseLevels (fuel fuel' : Nat) (levels : List (List Operator)) :
    Follows r (relabel r) (parseLevels fuel (parseCast nested fuel') levels)
      (parseLevels fuel (parseCast nested fuel') levels) := by
  induction levels with
  | nil => exact follows_parseCast same fuel'
  | cons ops tighter ih => exact follows_leftAssociative (relabel r) .binary (fun _ _ _ => rfl) ops fuel ih

theorem follows_parseAssign (fuel : Nat) :
    Follows r (relabel r) (parseAssign nested fuel) (parseAssign nested fuel) := by
  induction fuel with
  | zero => exact follows_gap
  | succ fuel ih =>
    rw [parseAssign]
    apply (follows_parseLevels same (fuel + 1) (fuel + 1) levels).bind
    intro target
    apply (follows_operatorToken? .assign).bind
    rintro (_ | op)
    · exact follows_pure rfl
    · exact ih.into fun _ => rfl

end

theorem follows_parse : Follows r (relabel r) Expr.parse Expr.parse := by
  apply follows_bounded
  intro fuel
  induction fuel with
  | zero => exact follows_gap
  | succ fuel ih => exact follows_parseAssign ih (fuel + 1)

end Expr

end PlainC
