import PlainC.Token

set_option autoImplicit false

/-!
The grammar. Its rules are data, and a rule derives the kinds of the tokens that it allows; which of
several derivations is meant is not a question for the grammar.
-/

namespace PlainC

namespace Grammar

inductive Nonterminal where
  | unit | declStruct | declFunc | declVar | varDef | init | typeBase | arrayDecl | typeName
  | funcArg | stmCompound | stm
  | expr | exprAssign | exprOr | exprAnd | exprEquality | exprRelational | exprAdditive
  | exprMultiplicative | exprCast | exprUnary | exprPostfix | exprPrimary
  | constIntExpr | constTerm | constUnary | constPrimary
  deriving DecidableEq, Repr

/-- One token: of a certain kind, or any identifier or literal of a form. -/
inductive Terminal where
  | exactly (kind : Kind)
  | identifier
  | literal (form : LiteralForm)
  deriving DecidableEq, Repr

def Terminal.Allows : Terminal → Kind → Prop
  | exactly kind, found => found = kind
  | identifier, found => ∃ name, found = .identifier name
  | literal form, found => ∃ text, found = .literal form text

/-- The right-hand side of a rule. -/
inductive Form where
  | token (terminal : Terminal)
  | rule (name : Nonterminal)
  | seq (first second : Form)
  | alt (left right : Form)
  | opt (form : Form)
  | star (form : Form)
  deriving DecidableEq, Repr

namespace Form

instance : Append Form := ⟨seq⟩

instance : HOr Form Form Form := ⟨alt⟩

def mark (mark : Delimiter) : Form := token (.exactly (.delimiter mark))

def word (word : Keyword) : Form := token (.exactly (.keyword word))

def op (op : Operator) : Form := token (.exactly (.operator op))

def name : Form := token .identifier

/-- Things with commas between them, at least one. -/
def list (item : Form) : Form := item ++ star (mark .comma ++ item)

/-- Operands with operators between them, at least one. -/
def chain (ops operand : Form) : Form := operand ++ star (ops ++ operand)

end Form

open Form

/-- The rules. -/
def production : Nonterminal → Form
  | .unit =>
    star (rule .declStruct ||| rule .declFunc ||| rule .declVar) ++ token (.exactly .endOfInput)
  | .declStruct =>
    word .structKw ++ name ++ mark .leftBrace ++ star (rule .declVar) ++ mark .rightBrace ++
      mark .semicolon
  | .declFunc =>
    (word .voidKw ||| rule .typeBase ++ opt (op .star)) ++ name ++ mark .leftParen ++
      opt (list (rule .funcArg)) ++ mark .rightParen ++ rule .stmCompound
  | .declVar => rule .typeBase ++ list (rule .varDef) ++ mark .semicolon
  | .varDef => name ++ opt (rule .arrayDecl) ++ opt (op .assign ++ rule .init)
  | .init => rule .expr ||| mark .leftBrace ++ opt (list (rule .expr)) ++ mark .rightBrace
  | .typeBase => word .intKw ||| word .doubleKw ||| word .charKw ||| word .structKw ++ name
  | .arrayDecl => mark .leftBracket ++ opt (rule .constIntExpr) ++ mark .rightBracket
  | .typeName => rule .typeBase ++ opt (rule .arrayDecl)
  | .funcArg => rule .typeBase ++ name ++ opt (rule .arrayDecl)
  | .stmCompound => mark .leftBrace ++ star (rule .declVar ||| rule .stm) ++ mark .rightBrace
  | .stm =>
    rule .stmCompound |||
    word .ifKw ++ mark .leftParen ++ rule .expr ++ mark .rightParen ++ rule .stm ++
      opt (word .elseKw ++ rule .stm) |||
    word .whileKw ++ mark .leftParen ++ rule .expr ++ mark .rightParen ++ rule .stm |||
    word .forKw ++ mark .leftParen ++ opt (rule .expr) ++ mark .semicolon ++ opt (rule .expr) ++
      mark .semicolon ++ opt (rule .expr) ++ mark .rightParen ++ rule .stm |||
    word .breakKw ++ mark .semicolon |||
    word .returnKw ++ opt (rule .expr) ++ mark .semicolon |||
    opt (rule .expr) ++ mark .semicolon
  | .expr => rule .exprAssign
  | .exprAssign => rule .exprOr ++ opt (op .assign ++ rule .exprAssign)
  | .exprOr => chain (op .disj) (rule .exprAnd)
  | .exprAnd => chain (op .conj) (rule .exprEquality)
  | .exprEquality => chain (op .equal ||| op .unequal) (rule .exprRelational)
  | .exprRelational =>
    chain (op .less ||| op .lessEqual ||| op .greater ||| op .greaterEqual) (rule .exprAdditive)
  | .exprAdditive => chain (op .plus ||| op .minus) (rule .exprMultiplicative)
  | .exprMultiplicative => chain (op .star ||| op .slash ||| op .percent) (rule .exprCast)
  | .exprCast =>
    mark .leftParen ++ rule .typeName ++ mark .rightParen ++ rule .exprCast ||| rule .exprUnary
  | .exprUnary => (op .minus ||| op .bang) ++ rule .exprUnary ||| rule .exprPostfix
  | .exprPostfix =>
    rule .exprPrimary ++
      star (mark .leftBracket ++ rule .expr ++ mark .rightBracket ||| op .dot ++ name)
  | .exprPrimary =>
    name ++ opt (mark .leftParen ++ opt (list (rule .expr)) ++ mark .rightParen) |||
    token (.literal .integer) ||| token (.literal .real) ||| token (.literal .character) |||
    token (.literal .string) |||
    mark .leftParen ++ rule .expr ++ mark .rightParen
  | .constIntExpr => chain (op .plus ||| op .minus) (rule .constTerm)
  | .constTerm => chain (op .star ||| op .slash ||| op .percent) (rule .constUnary)
  | .constUnary => (op .minus ||| op .plus) ++ rule .constUnary ||| rule .constPrimary
  | .constPrimary =>
    token (.literal .integer) ||| mark .leftParen ++ rule .constIntExpr ++ mark .rightParen

/-- A form derives the kinds of tokens. -/
inductive Derives : Form → List Kind → Prop
  | token {terminal kind} : terminal.Allows kind → Derives (token terminal) [kind]
  | rule {name kinds} : Derives (production name) kinds → Derives (rule name) kinds
  | seq {first second us vs} : Derives first us → Derives second vs → Derives (first ++ second) (us ++ vs)
  | left {left right kinds} : Derives left kinds → Derives (left ||| right) kinds
  | right {left right kinds} : Derives right kinds → Derives (left ||| right) kinds
  | none {form} : Derives (opt form) []
  | some {form kinds} : Derives form kinds → Derives (opt form) kinds
  | nil {form} : Derives (star form) []
  | cons {form us vs} : Derives form us → Derives (star form) vs → Derives (star form) (us ++ vs)

section

variable {form first second ops item : Form} {kinds us vs : List Kind} {name : Nonterminal}

theorem derives_rule : Derives (rule name) kinds ↔ Derives (production name) kinds := by
  constructor
  · intro h
    cases h with
    | rule h => exact h
  · exact .rule

theorem derives_append :
    Derives (first ++ second) kinds ↔
      ∃ us vs, kinds = us ++ vs ∧ Derives first us ∧ Derives second vs := by
  constructor
  · intro h
    cases h with
    | seq h₁ h₂ => exact ⟨_, _, rfl, h₁, h₂⟩
  · rintro ⟨us, vs, rfl, h₁, h₂⟩
    exact h₁.seq h₂

theorem Derives.single (h : Derives form kinds) : Derives (star form) kinds := by
  simpa using h.cons .nil

theorem Derives.append (h : Derives (star form) us) (h' : Derives (star form) vs) :
    Derives (star form) (us ++ vs) := by
  generalize same : star form = repeated at h
  induction h with
  | nil =>
    cases same
    exact h'
  | cons first _ _ ih =>
    obtain rfl : form = _ := by injection same
    rw [List.append_assoc]
    exact first.cons (ih same)
  | _ => cases same

/-- An operand by itself. -/
theorem Derives.alone (h : Derives item kinds) : Derives (chain ops item) kinds := by
  have h' := h.seq (Derives.nil : Derives (star (ops ++ item)) [])
  rwa [List.append_nil] at h'

/-- One more thing in front of others. -/
theorem Derives.before (h : Derives item kinds) (comma : Derives (mark .comma) us)
    (h' : Derives (list item) vs) : Derives (list item) (kinds ++ us ++ vs) := by
  obtain ⟨front, behind, rfl, hfront, hbehind⟩ := derives_append.mp h'
  have more := (comma.seq hfront).cons hbehind
  simp only [List.append_assoc] at more ⊢
  exact h.seq more

/-- One more operator with an operand. -/
theorem Derives.extend (h : Derives (chain ops item) kinds) (hop : Derives ops us)
    (h' : Derives item vs) : Derives (chain ops item) (kinds ++ us ++ vs) := by
  obtain ⟨front, behind, rfl, hfront, hbehind⟩ := derives_append.mp h
  simp only [List.append_assoc]
  exact hfront.seq (hbehind.append (hop.seq h').single)

end

end Grammar

end PlainC
