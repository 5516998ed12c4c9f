import PlainC.Proofs.OnePass.Productions
import PlainC.Proofs.Reading.Expr.Lexemes

set_option autoImplicit false

/-!
Expressions in one pass: reading and checking at once comes to the same as reading a tree and
checking it behind that, with the same log.
-/

namespace PlainC

/-! ### Where expressions begin -/

namespace Expr

/-- Whatever lexemes come next, the expression begins at the first of them. -/
def Begins (parse : Parse Expr) : Prop :=
  ∀ last ts, (parse last ts).1.start = (ts.headD last).place

section

variable (nested : Parse Expr)

theorem parsePrimary_begins : Begins (parsePrimary nested) := by
  intro last ts
  rcases Parse.name?_cases last ts with ⟨name, behind, rfl, hname⟩ | ⟨-, hname⟩
  · rcases hopen : Parse.mark? .leftParen last behind with ⟨_ | opening, middle⟩
    · simp [parsePrimary, hname, parseName, hopen, start]
    · rcases hclose : Parse.mark? .rightParen last middle with ⟨_ | closing, rest⟩ <;>
        simp [parsePrimary, hname, parseName, hopen, hclose, start]
  · rcases Parse.accept?_cases literalOf last ts with
        ⟨t, behind, ⟨form, text⟩, rfl, -, hliteral⟩ | ⟨-, hliteral⟩
    · simp [parsePrimary, hname, hliteral, start]
    · rcases Parse.token?_cases (.delimiter .leftParen) last ts with
          ⟨opening, behind, rfl, hopen⟩ | ⟨-, hopen⟩
      · simp [parsePrimary, hname, hliteral, Parse.mark?, hopen, start]
      · simp [parsePrimary, hname, hliteral, Parse.mark?, hopen, start, gap]

/-- An index and a member stand behind what they belong to. -/
theorem parseSuffix_keeps {expr longer : Expr} {last : Lexeme} {ts : List Lexeme}
    (h : (parseSuffix nested expr last ts).1 = some longer) :
    longer.start = expr.start ∧ longer.opensWithParen = expr.opensWithParen := by
  rcases hopen : Parse.mark? .leftBracket last ts with ⟨_ | opening, behind⟩
  · rcases hdot : Parse.token? (.operator .dot) last behind with ⟨_ | dot, middle⟩
    · simp [parseSuffix, hopen, hdot] at h
    · obtain rfl : _ = longer := by simpa [parseSuffix, hopen, hdot] using h
      exact ⟨rfl, rfl⟩
  · obtain rfl : _ = longer := by simpa [parseSuffix, hopen] using h
    exact ⟨rfl, rfl⟩

theorem parsePostfix_begins (fuel : Nat) : Begins (parsePostfix nested fuel) := by
  intro last ts
  refine Eq.trans ?_ (parsePrimary_begins nested last ts)
  exact Parse.extend_keeps start (fun _ _ _ h => (parseSuffix_keeps nested h).1) fuel _ _

theorem opensWithParen_parsePostfix (fuel : Nat) (last : Lexeme) (ts : List Lexeme) :
    (parsePostfix nested fuel last ts).1.opensWithParen =
      (parsePrimary nested last ts).1.opensWithParen :=
  Parse.extend_keeps opensWithParen (fun _ _ _ h => (parseSuffix_keeps nested h).2) fuel _ _

theorem parseUnary_begins : ∀ fuel, Begins (parseUnary nested fuel)
  | 0 => fun _ _ => rfl
  | fuel + 1 => by
    intro last ts
    rcases Parse.operator?_cases [.minus, .bang] last ts with ⟨op, behind, -, rfl, hop⟩ | ⟨-, hop⟩
    · simp [parseUnary, hop, start]
    · simp [parseUnary, hop, parsePostfix_begins nested (fuel + 1) last ts]

/-- Without a sign in front of it, an operand begins with a parenthesis where one comes next. -/
theorem opensWithParen_parseUnary (fuel : Nat) (last : Lexeme) (ts : List Lexeme) :
    (parseUnary nested (fuel + 1) last ts).1.opensWithParen = true ↔
      ∃ place behind, ts = ⟨.delimiter .leftParen, place⟩ :: behind := by
  rcases Parse.operator?_cases [.minus, .bang] last ts with ⟨op, behind, -, rfl, hop⟩ | ⟨-, hop⟩
  · simp [parseUnary, hop, opensWithParen]
  rw [show parseUnary nested (fuel + 1) last ts = parsePostfix nested (fuel + 1) last ts by
    simp [parseUnary, hop], opensWithParen_parsePostfix]
  rcases Parse.name?_cases last ts with ⟨name, behind, rfl, hname⟩ | ⟨-, hname⟩
  · rcases hopen : Parse.mark? .leftParen last behind with ⟨_ | opening, middle⟩
    · simp [parsePrimary, hname, parseName, hopen, opensWithParen]
    · rcases hclose : Parse.mark? .rightParen last middle with ⟨_ | closing, rest⟩ <;>
        simp [parsePrimary, hname, parseName, hopen, hclose, opensWithParen]
  rcases Parse.accept?_cases literalOf last ts with
      ⟨⟨kind, place⟩, behind, ⟨form, text⟩, rfl, literal, hliteral⟩ | ⟨-, hliteral⟩
  · obtain rfl : kind = .literal form text := by
      cases kind <;> simp_all [literalOf]
    simp [parsePrimary, hname, hliteral, opensWithParen]
  rcases Parse.token?_cases (.delimiter .leftParen) last ts with
      ⟨opening, behind, rfl, hopen⟩ | ⟨other, hopen⟩
  · simp [parsePrimary, hname, hliteral, Parse.mark?, hopen, opensWithParen]
  · simp only [parsePrimary, Parse.mark?, Parse.bind_apply, hname, hliteral, hopen, gap,
      Parse.pure_apply, opensWithParen, Bool.false_eq_true, false_iff]
    rintro ⟨place, behind, rfl⟩
    simp at other

theorem parseCast_begins : ∀ fuel, Begins (parseCast nested fuel)
  | 0 => fun _ _ => rfl
  | fuel + 1 => by
    intro last ts
    rcases castOpening?_cases last ts with ⟨opening, u, behind, rfl, begins, hcast⟩ | hcast
    · rcases TypeName.parse?_cases last (u :: behind) with
          ⟨name, rest, hname, -⟩ | ⟨other, -⟩
      · simp [parseCast, hcast, hname, start]
      · simp [begins] at other
    · simp [parseCast, hcast, parseUnary_begins nested (fuel + 1) last ts]

theorem parseLevels_begins (fuel : Nat) {operand : Parse Expr} (begins : Begins operand) :
    ∀ tighter, Begins (parseLevels fuel operand tighter)
  | [] => begins
  | ops :: tighter => by
    intro last ts
    refine Eq.trans ?_ (parseLevels_begins fuel begins tighter last ts)
    rw [parseLevels, Parse.leftAssociative_apply]
    refine Parse.extend_keeps start ?_ fuel _ _
    intro expr ts longer h
    rcases hop : Parse.operator? ops last ts with ⟨_ | op, behind⟩
    · simp [Parse.appendOperand, hop] at h
    · obtain rfl : _ = longer := by simpa [Parse.appendOperand, hop] using h
      rfl

theorem parseAssign_begins (fuel : Nat) : Begins (parseAssign nested fuel) := by
  intro last ts
  cases fuel with
  | zero =>
    rw [parseAssign]
    rfl
  | succ fuel =>
    have target := parseLevels_begins (fuel + 1) (parseCast_begins nested (fuel + 1)) levels last ts
    rcases hfirst : parseLevels (fuel + 1) (parseCast nested (fuel + 1)) levels last ts with
      ⟨expr, middle⟩
    rw [hfirst] at target
    rcases hop : Parse.token? (.operator .assign) last middle with ⟨_ | op, behind⟩
    · rw [parseAssign]
      simp only [Parse.bind_apply, hfirst, hop, Parse.pure_apply]
      exact target
    · rw [parseAssign]
      simp only [Parse.bind_apply, hfirst, hop, Parse.pure_apply]
      exact target

end

theorem parseWithin_begins : ∀ fuel, Begins (parseWithin fuel)
  | 0 => fun _ _ => rfl
  | fuel + 1 => parseAssign_begins (parseWithin fuel) (fuel + 1)

theorem parse_begins : Begins Expr.parse := by
  intro last ts
  rw [parse_apply]
  exact parseWithin_begins _ last ts

end Expr

/-! ### Types behind a sign -/

theorem Checked.withoutFirst_backtracked {α : Type} (count : Nat) (place : Place) (x : Checked α) :
    Logged.withoutFirst (backtracked count place >>= fun _ => x) = x := rfl

namespace Expr

/-- The type of an expression in front of which nothing has been tried as a cast. -/
def typeBehind (table : SymbolTable) : Expr → Checked Operand
  | .paren _ inner closing => do
    let operand ← inner.type table
    Checked.requireMark .rightParen closing
    return operand
  | .element array opening index closing => do
    let base ← array.typeBehind table
    requireArray table opening base.ty
    let operand ← index.type table
    requireIndex table index.start operand.ty
    Checked.requireMark .rightBracket closing
    return .stored base.ty.element
  | .member record dot slot => do
    let operand ← record.typeBehind table
    let name ← Checked.require .memberName slot
    typeOfMember table dot operand name
  | expr => expr.type table

theorem type_of_opens (table : SymbolTable) : ∀ expr : Expr, expr.opensWithParen = true →
    expr.type table = Checked.backtracked 1 expr.start >>= fun _ => expr.typeBehind table
  | .paren .., _ => by simp [Expr.type, typeBehind, start]
  | .element array .., opens => by
    simp [Expr.type, typeBehind, start, type_of_opens table array opens]
  | .member record .., opens => by
    simp [Expr.type, typeBehind, start, type_of_opens table record opens]
  | .literal .., opens | .reference .., opens | .call .., opens | .callEmpty .., opens
  | .unary .., opens | .cast .., opens | .binary .., opens | .assign .., opens
  | .missing .., opens => by simp [opensWithParen] at opens

theorem type_of_not_opens (table : SymbolTable) : ∀ expr : Expr, expr.opensWithParen = false →
    expr.type table = expr.typeBehind table
  | .paren .., opens => by simp [opensWithParen] at opens
  | .element array .., opens => by
    simp [Expr.type, typeBehind, type_of_not_opens table array opens]
  | .member record .., opens => by
    simp [Expr.type, typeBehind, type_of_not_opens table record opens]
  | .literal .., _ | .reference .., _ | .call .., _ | .callEmpty .., _ | .unary .., _ | .cast .., _
  | .binary .., _ | .assign .., _ | .missing .., _ => by rw [typeBehind] <;> simp

theorem type_unary (table : SymbolTable) (op : At Operator) (operand : Expr) :
    (Expr.unary op operand).type table =
      operand.typeBehind table >>= fun value => typeOfUnary table op value.ty := by
  rw [Expr.type]
  cases opens : operand.opensWithParen with
  | false => simp [type_of_not_opens table operand opens]
  | true => simp [type_of_opens table operand opens, Checked.withoutFirst_backtracked]

end Expr

namespace OnePass

open Analysis

@[simp] theorem trace_unexpected {α : Type} (wanted : Wanted) (last : Lexeme) (s : State) :
    ((unexpected wanted : Analysis α) last s).trace =
      Checked.unexpected wanted (s.ahead.headD last) >>= fun a => pure (a, s) := by
  simp [unexpected]

@[simp] theorem trace_expect (mark : Delimiter) (last : Lexeme) (s : State) :
    (expect mark last s).trace =
      Checked.requireMark mark (Parse.mark mark last s.ahead).1 >>= fun _ =>
        pure ((), { s with ahead := (Parse.mark mark last s.ahead).2 }) := by
  simp [expect]

@[simp] theorem trace_expectName (wanted : Wanted) (last : Lexeme) (s : State) :
    (expectName wanted last s).trace =
      Checked.require wanted (Parse.name last s.ahead).1 >>= fun name =>
        pure (name, { s with ahead := (Parse.name last s.ahead).2 }) := by
  simp [expectName]

@[simp] theorem trace_unlessEnded (ended : Parse Bool) (last : Lexeme) (s : State) :
    (unlessEnded ended last s).trace =
      pure (if (ended last s.ahead).1 then none else some (),
        { s with ahead := (ended last s.ahead).2 }) := by
  cases h : (ended last s.ahead).1 <;> simp [unlessEnded, h]

/-! ### Types -/

@[simp] theorem trace_extent (last : Lexeme) (s : State) :
    (extent last s).trace =
      (ArrayPart.parse last s.ahead).1.extent >>= fun extent =>
        pure (extent, { s with ahead := (ArrayPart.parse last s.ahead).2 }) := by
  rcases h : ArrayPart.parse last s.ahead with ⟨array, rest⟩
  cases array <;> simp [extent, arrayDecl, h, ArrayPart.extent]

/-! ### Arguments -/

end OnePass

/-- Checks the expressions in order, each at its position. -/
def Args.checkEach (table : SymbolTable) (accept : Nat → Place → Ty → Checked Unit) :
    Nat → Args → Checked Unit
  | position, .last arg => do
    let value ← arg.type table
    accept position arg.start value.ty
  | position, .more arg _ rest => do
    let value ← arg.type table
    accept position arg.start value.ty
    rest.checkEach table accept (position + 1)

theorem Args.check_eq (table : SymbolTable) (callee : Name) (params : List Symbol) (position : Nat)
    (args : Args) : args.check table callee params position =
      args.checkEach table (Expr.requireArgument table callee params) position := by
  cases args with
  | last arg => rw [Args.check, Args.checkEach]
  | more arg comma rest =>
    rw [Args.check, Args.checkEach]
    simp only [Args.check_eq table callee params (position + 1) rest]

namespace OnePass

open Analysis

/-- The analysis is the reading of an expression and, behind it, its check. -/
def Types (type : SymbolTable → Expr → Checked Operand) (analysis : Analysis Operand)
    (parse : Parse Expr) : Prop :=
  ∀ last s, (analysis last s).trace =
    type s.table (parse last s.ahead).1 >>= fun value =>
      pure (value, { s with ahead := (parse last s.ahead).2 })

section

variable {nested : Analysis Operand} {parse : Parse Expr}

theorem trace_arguments (types : Types (fun table expr => expr.type table) nested parse)
    (begins : Expr.Begins parse) (accept : SymbolTable → Nat → Place → Ty → Checked Unit) :
    ∀ fuel count last s, (arguments nested accept fuel count last s).trace =
      (Expr.parseArgsWithin parse fuel last s.ahead).1.checkEach s.table (accept s.table) count
        >>= fun _ => pure (count + (Expr.parseArgsWithin parse fuel last s.ahead).1.length,
          { s with ahead := (Expr.parseArgsWithin parse fuel last s.ahead).2 }) := by
  intro fuel
  induction fuel with
  | zero => simp [arguments, Expr.parseArgsWithin, Args.checkEach, Expr.gap, Expr.type]
  | succ fuel ih =>
    intro count last s
    have start := begins last s.ahead
    rcases harg : parse last s.ahead with ⟨arg, middle⟩
    rw [harg] at start
    rcases hcomma : Parse.mark? .comma last middle with ⟨_ | comma, behind⟩
    · simp [arguments, Expr.parseArgsWithin, types last s, harg, hcomma, Args.checkEach,
        Args.length, start]
    · simp [arguments, Expr.parseArgsWithin, types last s, harg, hcomma, Args.checkEach,
        Args.length, start, ih, Nat.add_assoc, Nat.add_comm 1]

/-! ### Names, calls and parentheses -/

/-- A name in front of what has been read begins nothing that is tried as a cast. -/
theorem trace_nameOrCall (types : Types (fun table expr => expr.type table) nested parse)
    (begins : Expr.Begins parse) (name : Name) :
    Types Expr.typeBehind (nameOrCall nested name) (Expr.parseName parse name) := by
  intro last s
  rcases hopen : Parse.mark? .leftParen last s.ahead with ⟨_ | opening, middle⟩
  · simp [nameOrCall, Expr.parseName, hopen, Expr.typeBehind, Expr.type]
  · rcases hclose : Parse.mark? .rightParen last middle with ⟨_ | closing, rest⟩
    · simp [nameOrCall, Expr.parseName, hopen, hclose, Expr.typeBehind, Expr.type,
        Expr.parseArgs, Parse.bounded, trace_arguments types begins, Args.check_eq]
    · simp [nameOrCall, Expr.parseName, hopen, hclose, Expr.typeBehind, Expr.type]

theorem trace_primary (types : Types (fun table expr => expr.type table) nested parse)
    (begins : Expr.Begins parse) :
    Types Expr.typeBehind (primary nested) (Expr.parsePrimary parse) := by
  intro last s
  rcases hname : Parse.name? last s.ahead with ⟨_ | name, behind⟩
  · rcases hliteral : Parse.accept? Expr.literalOf last behind with
      ⟨_ | ⟨⟨form, text⟩, place⟩, middle⟩
    · rcases hopen : Parse.mark? .leftParen last middle with ⟨_ | opening, inside⟩
      · simp [primary, Expr.parsePrimary, hname, hliteral, hopen, Expr.gap, Expr.typeBehind,
          Expr.type]
      · simp [primary, Expr.parsePrimary, hname, hliteral, hopen, Expr.typeBehind,
          types last]
    · simp [primary, Expr.parsePrimary, hname, hliteral, Expr.typeBehind, Expr.type]
  · simp [primary, Expr.parsePrimary, hname, trace_nameOrCall types begins name last]

/-! ### Suffixes -/

/-- A loop over values does what is read as extensions of an expression, if each of its turns does
what one extension adds to the check. -/
theorem trace_repeating {β : Type} (type : SymbolTable → Expr → Checked Operand) (loop : Loop)
    {test : Analysis (Option β)} {body : Operand → β → Analysis Operand}
    {step : Expr → Parse (Option Expr)}
    (steps : ∀ expr last s,
      ((step expr last s.ahead).1 = none ∧
        (test last s).trace = pure (none, { s with ahead := (step expr last s.ahead).2 })) ∨
      ∃ longer b s', (step expr last s.ahead).1 = some longer ∧
        (test last s).trace = pure (some b, s') ∧
        (type s.table expr >>= fun value => (body value b last s').trace) =
          type s.table longer >>= fun value =>
            pure (value, { s with ahead := (step expr last s.ahead).2 })) :
    ∀ fuel count expr last s,
      (type s.table expr >>= fun value => (repeating loop test body fuel count value last s).trace) =
        type s.table (Parse.extend step fuel expr last s.ahead).1 >>= fun value =>
          pure (value, { s with ahead := (Parse.extend step fuel expr last s.ahead).2 }) := by
  intro fuel
  induction fuel with
  | zero => simp [repeating, Parse.extend]
  | succ fuel ih =>
    intro count expr last s
    rcases hstep : step expr last s.ahead with ⟨found, rest⟩
    obtain ⟨none, stuck⟩ | ⟨longer, b, s', some, passed, turn⟩ := steps expr last s
    · rw [hstep] at none stuck
      obtain rfl : found = _ := none
      simp [trace_repeating_of_none stuck, Parse.extend, hstep]
    · rw [hstep] at some turn
      obtain rfl : found = _ := some
      have rest := ih (count + 1) longer last { s with ahead := rest }
      simp only [trace_repeating_of_some passed, ← bind_assoc, turn]
      simpa [Parse.extend, hstep] using rest

theorem trace_suffixed (types : Types (fun table expr => expr.type table) nested parse)
    (begins : Expr.Begins parse) (fuel : Nat) :
    Types Expr.typeBehind (suffixed nested fuel) (Expr.parsePostfix parse fuel) := by
  intro last s
  simp only [suffixed, trace_bind, trace_primary types begins last s, bind_assoc, pure_bind]
  refine trace_repeating Expr.typeBehind .suffixes ?_ fuel 0 (Expr.parsePrimary parse last s.ahead).1
    last { s with ahead := (Expr.parsePrimary parse last s.ahead).2 }
  intro expr last s
  rcases hopen : Parse.mark? .leftBracket last s.ahead with ⟨_ | opening, inside⟩
  · rcases hdot : Parse.token? (.operator .dot) last inside with ⟨_ | dot, behind⟩
    · exact .inl (by simp [Expr.parseSuffix, suffix?, hopen, hdot])
    · refine .inr ⟨_, .inr dot, { s with ahead := behind }, by simp [Expr.parseSuffix, hopen, hdot]; rfl,
        by simp [suffix?, hopen, hdot], ?_⟩
      simp [suffix, Expr.parseSuffix, hopen, hdot, Expr.typeBehind]
  · refine .inr ⟨_, .inl opening, { s with ahead := inside }, by simp [Expr.parseSuffix, hopen]; rfl,
      by simp [suffix?, hopen], ?_⟩
    have start := begins last inside
    simp [suffix, Expr.parseSuffix, hopen, types last, Expr.typeBehind, start]

/-! ### Signs and casts -/

theorem trace_unary (types : Types (fun table expr => expr.type table) nested parse)
    (begins : Expr.Begins parse) :
    ∀ fuel, Types Expr.typeBehind (unary nested fuel) (Expr.parseUnary parse fuel) := by
  intro fuel
  induction fuel with
  | zero => intro last s; simp [unary, Expr.parseUnary, Expr.gap, Expr.typeBehind, Expr.type]
  | succ fuel ih =>
    intro last s
    rcases hop : Parse.operator? [.minus, .bang] last s.ahead with ⟨_ | op, behind⟩
    · have same : behind = s.ahead := by
        rcases Parse.operator?_cases [.minus, .bang] last s.ahead with
          ⟨op, behind, -, -, hop'⟩ | ⟨-, hop'⟩ <;> simp_all
      subst same
      simp [unary, Expr.parseUnary, hop, trace_suffixed types begins (fuel + 1) last s]
    · simp [unary, Expr.parseUnary, hop, ih last { s with ahead := behind },
        Expr.typeBehind, Expr.type_unary]

theorem trace_cast (types : Types (fun table expr => expr.type table) nested parse)
    (begins : Expr.Begins parse) :
    ∀ fuel, Types (fun table expr => expr.type table) (cast nested fuel)
      (Expr.parseCast parse fuel) := by
  intro fuel
  induction fuel with
  | zero => intro last s; simp [cast, Expr.parseCast, Expr.gap, Expr.type]
  | succ fuel ih =>
    intro last s
    have opens := Expr.opensWithParen_parseUnary parse fuel last s.ahead
    have operand := trace_unary types begins (fuel + 1) last s
    rcases Parse.token?_cases (.delimiter .leftParen) last s.ahead with
        ⟨opening, behind, first, hopen⟩ | ⟨other, hopen⟩
    · rcases BaseName.parse?_cases last behind with
          ⟨base, middle, hbase, -, t, inside, rfl, beginsType, -⟩ | ⟨other, hbase⟩
      · have hcast : Expr.castOpening? last s.ahead = (some opening, t :: inside) := by
          simp [first, Expr.castOpening?, beginsType]
        rcases hclose : Parse.mark .rightParen last (ArrayPart.parse last middle).2 with
          ⟨closing, rest⟩
        have start := Expr.parseCast_begins parse fuel last rest
        simp [cast, Expr.parseCast, Parse.mark?, hopen, hcast, typeName, typeBase,
          TypeName.parse?, hbase, TypeName.resolve, hclose, ih last { s with ahead := rest }, start,
          Expr.type]
      · have hcast : Expr.castOpening? last s.ahead = (none, s.ahead) := by
          rcases Expr.castOpening?_cases last s.ahead with
            ⟨opening', u, behind', first', beginsType, -⟩ | none
          · obtain ⟨-, rfl⟩ : _ ∧ behind = u :: behind' := by simpa [first] using first'
            simp [beginsType] at other
          · exact none
        have tried := Expr.type_of_opens s.table _ (opens.mpr ⟨_, _, first⟩)
        have back := trace_restore last { s with ahead := behind } 1 first (by simp [first])
        have start : (Expr.parseUnary parse (fuel + 1) last s.ahead).1.start = opening := by
          rw [Expr.parseUnary_begins parse (fuel + 1) last s.ahead, first]
          rfl
        simp [cast, Expr.parseCast, Parse.mark?, hopen, hcast, typeName, typeBase, hbase, back,
          operand, tried, start]
    · have hcast : Expr.castOpening? last s.ahead = (none, s.ahead) :=
        Expr.castOpening?_of_ne other
      have first : ¬∃ place behind, s.ahead = ⟨.delimiter .leftParen, place⟩ :: behind := by
        rintro ⟨place, behind, first⟩
        simp [first] at other
      have behindNothing := Bool.eq_false_iff.mpr (mt opens.mp first)
      simp [cast, Expr.parseCast, Parse.mark?, hopen, hcast, operand,
        Expr.type_of_not_opens _ _ behindNothing]

/-! ### Operators and assignments -/

theorem trace_levels (fuel : Nat) {operand : Analysis Operand} {parseOperand : Parse Expr}
    (types : Types (fun table expr => expr.type table) operand parseOperand) :
    ∀ tighter, Types (fun table expr => expr.type table) (levels fuel operand tighter)
      (Expr.parseLevels fuel parseOperand tighter)
  | [] => types
  | ops :: tighter => by
    have operands := trace_levels fuel types tighter
    intro last s
    simp only [levels, operators, trace_bind, operands last s, bind_assoc, pure_bind]
    refine trace_repeating (fun table expr => expr.type table) .operators ?_ fuel 0
      (Expr.parseLevels fuel parseOperand tighter last s.ahead).1 last
      { s with ahead := (Expr.parseLevels fuel parseOperand tighter last s.ahead).2 }
    intro left last s
    rcases hop : Parse.operator? ops last s.ahead with ⟨_ | op, behind⟩
    · exact .inl (by simp [hop])
    · refine .inr ⟨_, op, { s with ahead := behind }, by simp [hop]; rfl, by simp [hop], ?_⟩
      simp [hop, operands last, Expr.type]

theorem trace_assign (types : Types (fun table expr => expr.type table) nested parse)
    (begins : Expr.Begins parse) :
    ∀ fuel, Types (fun table expr => expr.type table) (assign nested fuel)
      (Expr.parseAssign parse fuel) := by
  intro fuel
  induction fuel with
  | zero =>
    intro last s
    rw [Expr.parseAssign]
    simp [assign, Expr.gap, Expr.type]
  | succ fuel ih =>
    intro last s
    have target := trace_levels (fuel + 1) (trace_cast types begins (fuel + 1)) Expr.levels last s
    have start := Expr.parseLevels_begins (fuel + 1) (Expr.parseCast_begins parse (fuel + 1))
      Expr.levels last s.ahead
    rw [Expr.parseAssign]
    rcases hfirst : Expr.parseLevels (fuel + 1) (Expr.parseCast parse (fuel + 1)) Expr.levels last
      s.ahead with ⟨expr, middle⟩
    rw [hfirst] at target start
    rcases hop : Parse.token? (.operator .assign) last middle with ⟨_ | op, behind⟩
    · simp [assign, target, hfirst, hop]
    · simp [assign, target, hfirst, hop, ih last { s with ahead := behind }, start, Expr.type]

end

theorem trace_expressionWithin : ∀ fuel,
    Types (fun table expr => expr.type table) (expressionWithin fuel) (Expr.parseWithin fuel) := by
  intro fuel
  induction fuel with
  | zero =>
    intro last s
    simp [expressionWithin, Expr.parseWithin, Expr.gap, Expr.type]
  | succ fuel ih => exact trace_assign ih (Expr.parseWithin_begins fuel) (fuel + 1)

theorem trace_expression :
    Types (fun table expr => expr.type table) expression Expr.parse := by
  intro last s
  rw [Expr.parse_apply]
  exact trace_expressionWithin (s.ahead.length + 1) last s

end OnePass

end PlainC
