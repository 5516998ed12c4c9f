import PlainC.Proofs.Grammar.Basic
import PlainC.Proofs.Syntax.Formed

set_option autoImplicit false

/-!
The lexemes of a well-formed tree without gaps are derived by the grammar. The tightness of an
operator is the number of the rule that derives it, and each rule derives what the tighter ones do.
-/

namespace PlainC

open Grammar Grammar.Form

/-- The kinds of the lexemes among parts. -/
def kindsOf (parts : Parts) : List Kind := (lexemesOf parts).map At.value

@[simp] theorem kindsOf_append (ps qs : Parts) : kindsOf (ps ++ qs) = kindsOf ps ++ kindsOf qs := by
  simp [kindsOf]

namespace Grammar

theorem derives_mark {mark : Delimiter} {place : Place} :
    Derives (Form.mark mark) (kindsOf (mark.part place)) := .token rfl

theorem derives_word {word : Keyword} {place : Place} :
    Derives (Form.word word) (kindsOf (word.part place)) := .token rfl

theorem derives_op {op : Operator} {place : Place} :
    Derives (Form.op op) (kindsOf ((Kind.operator op).part place)) := .token rfl

theorem derives_name {name : Name} : Derives Form.name (kindsOf (namePart name)) :=
  .token ⟨_, rfl⟩

theorem derives_optional {α : Type} {view : α → Parts} {form : Form} {value : Option α}
    (derives : ∀ a ∈ value, Derives form (kindsOf (view a))) :
    Derives (opt form) (kindsOf (optionalParts view value)) := by
  cases value with
  | none => exact .none
  | some a => exact .some (derives a rfl)

theorem derives_flatMap {α : Type} {view : α → Parts} {form : Form} {items : List α}
    (derives : ∀ a ∈ items, Derives form (kindsOf (view a))) :
    Derives (star form) (kindsOf (items.flatMap view)) := by
  induction items with
  | nil => exact .nil
  | cons a items ih =>
    rw [List.flatMap_cons, kindsOf_append]
    exact (derives a (by simp)).cons (ih fun b among => derives b (by simp [among]))

theorem derives_separated {α : Type} {view : α → Parts} {form : Form} {items : Separated α}
    (derives : ∀ a ∈ items.toList, Derives form (kindsOf (view a))) :
    Derives (list form) (kindsOf (items.parts view)) := by
  obtain ⟨first, items⟩ := items
  rw [Separated.parts, kindsOf_append]
  refine (derives first (by simp [Separated.toList])).seq ?_
  replace derives : ∀ a ∈ items.map Prod.snd, Derives form (kindsOf (view a)) :=
    fun a among => derives a (by simpa [Separated.toList] using .inr (by simpa using among))
  induction items with
  | nil => exact .nil
  | cons pair items ih =>
    rw [Separated.restParts, kindsOf_append, kindsOf_append]
    refine (derives_mark.seq (derives pair.2 (by simp))).cons (ih ?_)
    exact fun a among => derives a (by simp_all)

/-! ### Sizes -/

/-- The rule for sizes of a tightness. -/
def sizeRule : Nat → Form
  | 5 => rule .constIntExpr
  | 6 => rule .constTerm
  | 7 => rule .constUnary
  | _ => rule .constPrimary

theorem sizeRule_of_tighter {level : Nat} {kinds : List Kind} (big : 5 ≤ level)
    (h : Derives (sizeRule (level + 1)) kinds) : Derives (sizeRule level) kinds := by
  match level with
  | 5 => exact .rule (.alone h)
  | 6 => exact .rule (.alone h)
  | 7 => exact .rule (.right h)
  | level + 8 => exact h

theorem sizeRule_of_le {level tighter : Nat} {kinds : List Kind} (big : 5 ≤ level)
    (le : level ≤ tighter) (h : Derives (sizeRule tighter) kinds) :
    Derives (sizeRule level) kinds := by
  induction le with
  | refl => exact h
  | step le ih => exact ih (sizeRule_of_tighter (Nat.le_trans big le) h)

theorem sizeRule_binary {op : At Operator} {us vs : List Kind} (arithmetic : 5 ≤ op.value.level)
    (left : Derives (sizeRule op.value.level) us)
    (right : Derives (sizeRule (op.value.level + 1)) vs) :
    Derives (sizeRule op.value.level) (us ++ kindsOf (operatorPart op) ++ vs) := by
  obtain ⟨op, place⟩ := op
  cases op with
  | plus => exact .rule ((derives_rule.mp left).extend (.left derives_op) right)
  | minus => exact .rule ((derives_rule.mp left).extend (.right derives_op) right)
  | star => exact .rule ((derives_rule.mp left).extend (.left (.left derives_op)) right)
  | slash => exact .rule ((derives_rule.mp left).extend (.left (.right derives_op)) right)
  | percent => exact .rule ((derives_rule.mp left).extend (.right derives_op) right)
  | _ => simp [Operator.level] at arithmetic

end Grammar

theorem Size.derives_tight {size : Size} (formed : size.Formed) (gapless : Gapless size.parts) :
    Derives (sizeRule size.tightness) (kindsOf size.parts) := by
  induction size with
  | literal text => exact .rule (.left (.token ⟨_, rfl⟩))
  | signed sign operand ih =>
    obtain ⟨among, formed, tight⟩ := formed
    have h := sizeRule_of_le (by simp) tight (ih formed gapless)
    obtain ⟨sign, place⟩ := sign
    simp only [List.mem_cons, List.not_mem_nil, or_false] at among
    rcases among with rfl | rfl
    · exact .rule (.left ((Derives.left derives_op).seq h))
    · exact .rule (.left ((Derives.right derives_op).seq h))
  | binary op left right ihLeft ihRight =>
    obtain ⟨arithmetic, formedLeft, tightLeft, formedRight, tightRight⟩ := formed
    simp only [parts, operatorPart, Kind.part, gapless_append] at gapless
    simp only [parts, kindsOf_append]
    exact sizeRule_binary arithmetic
      (sizeRule_of_le arithmetic tightLeft (ihLeft formedLeft gapless.1.1))
      (sizeRule_of_le (by omega) tightRight (ihRight formedRight gapless.2))
  | paren opening inner closing ih =>
    cases closing with
    | missing => simp [parts] at gapless
    | found closing =>
      simp only [parts, Delimiter.part, Kind.part, Slot.parts, gapless_append, gapless_found,
        gapless_nil, true_and, and_true] at gapless
      have h := sizeRule_of_le (Nat.le_refl 5) (inner.five_le_tightness formed) (ih formed gapless)
      simp only [parts, kindsOf_append]
      exact .rule (.right ((derives_mark.seq h).seq derives_mark))
  | missing => simp [parts] at gapless

theorem Size.derives {size : Size} (formed : size.Formed) (gapless : Gapless size.parts) :
    Derives (rule .constIntExpr) (kindsOf size.parts) :=
  sizeRule_of_le (Nat.le_refl 5) (size.five_le_tightness formed) (size.derives_tight formed gapless)

/-! ### Types -/

theorem BaseName.derives {base : BaseName} (gapless : Gapless base.parts) :
    Derives (rule .typeBase) (kindsOf base.parts) := by
  cases base with
  | int => exact .rule (.left (.left (.left derives_word)))
  | double => exact .rule (.left (.left (.right derives_word)))
  | char => exact .rule (.left (.right derives_word))
  | struct word name =>
    cases name with
    | missing => simp [parts] at gapless
    | found name => exact .rule (.right (derives_word.seq derives_name))

theorem ArrayPart.derives {array : ArrayPart} (formed : array.Formed)
    (gapless : Gapless array.parts) :
    Derives (opt (rule .arrayDecl)) (kindsOf array.parts) := by
  cases array with
  | absent => exact .none
  | unsized opening closing => exact .some (.rule ((derives_mark.seq .none).seq derives_mark))
  | sized opening size closing =>
    cases closing with
    | missing => simp [parts] at gapless
    | found closing =>
      simp only [parts, gapless_append] at gapless
      have h := size.derives formed gapless.1.2
      simp only [parts, kindsOf_append]
      exact .some (.rule ((derives_mark.seq (.some h)).seq derives_mark))

theorem TypeName.derives {name : TypeName} (formed : name.Formed) (gapless : Gapless name.parts) :
    Derives (rule .typeName) (kindsOf name.parts) := by
  simp only [parts, gapless_append] at gapless
  simp only [parts, kindsOf_append]
  exact .rule ((BaseName.derives gapless.1).seq (ArrayPart.derives formed gapless.2))

/-! ### Expressions -/

namespace Grammar

/-- The rule for expressions of a tightness. -/
def exprRule : Nat → Form
  | 0 => rule .exprAssign
  | 1 => rule .exprOr
  | 2 => rule .exprAnd
  | 3 => rule .exprEquality
  | 4 => rule .exprRelational
  | 5 => rule .exprAdditive
  | 6 => rule .exprMultiplicative
  | 7 => rule .exprCast
  | 8 => rule .exprUnary
  | 9 => rule .exprPostfix
  | _ => rule .exprPrimary

theorem exprRule_of_tighter {level : Nat} {kinds : List Kind}
    (h : Derives (exprRule (level + 1)) kinds) : Derives (exprRule level) kinds := by
  match level with
  | 0 =>
    have h' := h.seq (Derives.none : Derives (opt (op .assign ++ rule .exprAssign)) [])
    rw [List.append_nil] at h'
    exact .rule h'
  | 1 | 2 | 3 | 4 | 5 | 6 => exact .rule (.alone h)
  | 7 | 8 => exact .rule (.right h)
  | 9 =>
    have h' := h.seq (Derives.nil : Derives
      (star (mark .leftBracket ++ rule .expr ++ mark .rightBracket ||| op .dot ++ name)) [])
    rw [List.append_nil] at h'
    exact .rule h'
  | level + 10 => exact h

theorem exprRule_of_le {level tighter : Nat} {kinds : List Kind} (le : level ≤ tighter)
    (h : Derives (exprRule tighter) kinds) : Derives (exprRule level) kinds := by
  induction le with
  | refl => exact h
  | step le ih => exact ih (exprRule_of_tighter h)

theorem derives_expr {level : Nat} {kinds : List Kind} (h : Derives (exprRule level) kinds) :
    Derives (rule .expr) kinds := by
  rw [derives_rule]
  exact exprRule_of_le (Nat.zero_le level) h

theorem exprRule_binary {op : At Operator} {us vs : List Kind} (binary : 1 ≤ op.value.level)
    (left : Derives (exprRule op.value.level) us)
    (right : Derives (exprRule (op.value.level + 1)) vs) :
    Derives (exprRule op.value.level) (us ++ kindsOf (operatorPart op) ++ vs) := by
  obtain ⟨op, place⟩ := op
  have extend {name : Nonterminal} {ops operand : Form}
      (same : production name = chain ops operand) (left : Derives (rule name) us)
      (hop : Derives ops (kindsOf (operatorPart ⟨op, place⟩))) (right : Derives operand vs) :
      Derives (rule name) (us ++ kindsOf (operatorPart ⟨op, place⟩) ++ vs) := by
    rw [derives_rule, same] at left ⊢
    exact left.extend hop right
  cases op with
  | disj | conj => exact extend rfl left derives_op right
  | equal => exact extend rfl left (.left derives_op) right
  | unequal => exact extend rfl left (.right derives_op) right
  | less => exact extend rfl left (.left (.left (.left derives_op))) right
  | lessEqual => exact extend rfl left (.left (.left (.right derives_op))) right
  | greater => exact extend rfl left (.left (.right derives_op)) right
  | greaterEqual => exact extend rfl left (.right derives_op) right
  | plus => exact extend rfl left (.left derives_op) right
  | minus => exact extend rfl left (.right derives_op) right
  | star => exact extend rfl left (.left (.left derives_op)) right
  | slash => exact extend rfl left (.left (.right derives_op)) right
  | percent => exact extend rfl left (.right derives_op) right
  | assign | bang | dot => simp [Operator.level] at binary

/-- One more index or member. -/
theorem exprRule_suffix {us vs : List Kind} (base : Derives (exprRule 9) us)
    (suffix : Derives
      (mark .leftBracket ++ rule .expr ++ mark .rightBracket ||| op .dot ++ name) vs) :
    Derives (exprRule 9) (us ++ vs) := by
  obtain ⟨front, behind, rfl, hfront, hbehind⟩ := derives_append.mp (derives_rule.mp base)
  rw [List.append_assoc]
  exact .rule (hfront.seq (hbehind.append suffix.single))

end Grammar

mutual

theorem Expr.derives_tight : ∀ expr : Expr, expr.Formed → Gapless expr.parts →
    Derives (exprRule expr.tightness) (kindsOf expr.parts)
  | .literal form text, _, _ => by
    cases form with
    | integer => exact .rule (.left (.left (.left (.left (.right (.token ⟨_, rfl⟩))))))
    | real => exact .rule (.left (.left (.left (.right (.token ⟨_, rfl⟩)))))
    | character => exact .rule (.left (.left (.right (.token ⟨_, rfl⟩))))
    | string => exact .rule (.left (.right (.token ⟨_, rfl⟩)))
  | .reference name, _, _ => .rule (.left (.left (.left (.left (.left (derives_name.seq .none))))))
  | .callEmpty callee opening closing, _, _ =>
    .rule (.left (.left (.left (.left (.left
      (derives_name.seq (.some ((derives_mark.seq .none).seq derives_mark))))))))
  | .call callee opening args (.found closing), formed, gapless => by
    simp only [Expr.parts, gapless_append] at gapless
    have h := Args.derives args formed gapless.1.2
    have group : Derives (mark .leftParen ++ opt (list (rule .expr)) ++ mark .rightParen)
        (kindsOf (Delimiter.leftParen.part opening) ++ kindsOf args.parts ++
          kindsOf (Delimiter.rightParen.part closing)) :=
      (derives_mark.seq (.some h)).seq derives_mark
    rw [List.append_assoc] at group
    simp only [Expr.parts, Slot.parts, kindsOf_append, List.append_assoc]
    exact .rule (.left (.left (.left (.left (.left (derives_name.seq (.some group)))))))
  | .paren opening inner (.found closing), formed, gapless => by
    simp only [Expr.parts, gapless_append] at gapless
    have h := derives_expr (Expr.derives_tight inner formed gapless.1.2)
    simp only [Expr.parts, kindsOf_append]
    exact .rule (.right ((derives_mark.seq h).seq derives_mark))
  | .element array opening index (.found closing), formed, gapless => by
    obtain ⟨formed, tight, formed'⟩ := formed
    simp only [Expr.parts, gapless_append] at gapless
    have base := exprRule_of_le tight (Expr.derives_tight array formed gapless.1.1.1)
    have h := derives_expr (Expr.derives_tight index formed' gapless.1.2)
    -- the grammar repeats suffixes, so one more of them extends what derives the rest
    have suffix : Derives (mark .leftBracket ++ rule .expr ++ mark .rightBracket)
        (kindsOf (Delimiter.leftBracket.part opening) ++ kindsOf index.parts ++
          kindsOf (Delimiter.rightBracket.part closing)) :=
      (derives_mark.seq h).seq derives_mark
    rw [List.append_assoc] at suffix
    simp only [Expr.parts, Slot.parts, kindsOf_append, List.append_assoc]
    exact exprRule_suffix base (.left suffix)
  | .member record dot (.found name), formed, gapless => by
    obtain ⟨formed, tight⟩ := formed
    simp only [Expr.parts, gapless_append] at gapless
    have base := exprRule_of_le tight (Expr.derives_tight record formed gapless.1.1)
    simp only [Expr.parts, kindsOf_append, List.append_assoc]
    exact exprRule_suffix base (.right (derives_op.seq derives_name))
  | .unary op operand, formed, gapless => by
    obtain ⟨among, formed, tight⟩ := formed
    have h := exprRule_of_le tight (Expr.derives_tight operand formed gapless)
    obtain ⟨op, place⟩ := op
    simp only [List.mem_cons, List.not_mem_nil, or_false] at among
    rcases among with rfl | rfl
    · exact .rule (.left ((Derives.left derives_op).seq h))
    · exact .rule (.left ((Derives.right derives_op).seq h))
  | .cast opening target (.found closing) operand, formed, gapless => by
    obtain ⟨formed, formed', tight⟩ := formed
    simp only [Expr.parts, gapless_append] at gapless
    have h := exprRule_of_le tight (Expr.derives_tight operand formed' gapless.2)
    simp only [Expr.parts, kindsOf_append]
    exact .rule (.left (((derives_mark.seq (target.derives formed gapless.1.1.2)).seq
      derives_mark).seq h))
  | .binary op left right, formed, gapless => by
    obtain ⟨binary, formed, tight, formed', tight'⟩ := formed
    simp only [Expr.parts, gapless_append] at gapless
    simp only [Expr.parts, kindsOf_append]
    exact exprRule_binary binary (exprRule_of_le tight (Expr.derives_tight left formed gapless.1.1))
      (exprRule_of_le tight' (Expr.derives_tight right formed' gapless.2))
  | .assign target op value, formed, gapless => by
    obtain ⟨formed, tight, formed'⟩ := formed
    simp only [Expr.parts, gapless_append] at gapless
    have h := exprRule_of_le tight (Expr.derives_tight target formed gapless.1.1)
    have h' := exprRule_of_le (Nat.zero_le _) (Expr.derives_tight value formed' gapless.2)
    simp only [Expr.parts, kindsOf_append, List.append_assoc]
    exact .rule (h.seq (.some (derives_op.seq h')))
  | .call _ _ _ (.missing _), _, gapless => by simp [Expr.parts] at gapless
  | .paren _ _ (.missing _), _, gapless => by simp [Expr.parts] at gapless
  | .element _ _ _ (.missing _), _, gapless => by simp [Expr.parts] at gapless
  | .member _ _ (.missing _), _, gapless => by simp [Expr.parts] at gapless
  | .cast _ _ (.missing _) _, _, gapless => by simp [Expr.parts] at gapless
  | .missing _, _, gapless => by simp [Expr.parts] at gapless

theorem Args.derives : ∀ args : Args, args.Formed → Gapless args.parts →
    Derives (list (rule .expr)) (kindsOf args.parts)
  | .last arg, formed, gapless => .alone (derives_expr (Expr.derives_tight arg formed gapless))
  | .more arg comma rest, formed, gapless => by
    simp only [Args.parts, gapless_append] at gapless
    have h := derives_expr (Expr.derives_tight arg formed.1 gapless.1.1)
    have h' := Args.derives rest formed.2 gapless.2
    simp only [Args.parts, kindsOf_append]
    exact h.before derives_mark h'

end

theorem Expr.derives (expr : Expr) (formed : expr.Formed) (gapless : Gapless expr.parts) :
    Derives (rule .expr) (kindsOf expr.parts) :=
  derives_expr (expr.derives_tight formed gapless)

/-! ### Declarations of variables -/

theorem Initializer.derives {init : Initializer} (formed : init.Formed)
    (gapless : Gapless init.parts) : Derives (rule .init) (kindsOf init.parts) := by
  match init with
  | .value expr => exact .rule (.left (expr.derives formed gapless))
  | .elements opening args (.found closing) =>
    simp only [parts, gapless_append] at gapless
    simp only [parts, kindsOf_append]
    have h := args.derives formed gapless.1.2
    exact .rule (.right ((derives_mark.seq (.some h)).seq derives_mark))
  | .elements _ _ (.missing _) => simp [parts] at gapless
  | .noElements opening closing => exact .rule (.right ((derives_mark.seq .none).seq derives_mark))

theorem Declarator.derives {declarator : Declarator} (formed : declarator.Formed)
    (gapless : Gapless declarator.parts) :
    Derives (rule .varDef) (kindsOf declarator.parts) := by
  match declarator with
  | ⟨.missing _, _, _⟩ => simp [parts] at gapless
  | ⟨.found name, array, init⟩ =>
    simp only [parts, gapless_append] at gapless
    simp only [parts, kindsOf_append]
    refine .rule ((derives_name.seq (array.derives formed.1 gapless.1.2)).seq
      (derives_optional fun (op, value) same => ?_))
    obtain rfl : init = some (op, value) := same
    rw [kindsOf_append]
    exact derives_op.seq (value.derives (formed.2 _ rfl) gapless.2)

theorem VarDecl.derives {decl : VarDecl} (formed : decl.Formed) (gapless : Gapless decl.parts) :
    Derives (rule .declVar) (kindsOf decl.parts) := by
  match decl with
  | ⟨_, _, .missing _⟩ => simp [parts] at gapless
  | ⟨base, declarators, .found semicolon⟩ =>
    simp only [parts, gapless_append] at gapless
    simp only [parts, kindsOf_append]
    refine .rule ((base.derives gapless.1.1).seq (derives_separated ?_) |>.seq derives_mark)
    exact fun declarator among =>
      declarator.derives (formed declarator among) (declarators.gapless_of_mem gapless.1.2 among)

/-! ### Statements -/

theorem derives_optionalExpr {value : Option Expr} (formed : ∀ expr ∈ value, expr.Formed)
    (gapless : Gapless (optionalParts Expr.parts value)) :
    Derives (opt (rule .expr)) (kindsOf (optionalParts Expr.parts value)) := by
  refine derives_optional fun expr same => ?_
  obtain rfl : value = some expr := same
  exact expr.derives (formed expr rfl) gapless

/-- A word, and behind it a condition. -/
theorem Condition.derives (keyword : Keyword) (place : Place) {condition : Condition}
    (formed : condition.expr.Formed) (gapless : Gapless condition.parts) :
    Derives (word keyword ++ mark .leftParen ++ rule .expr ++ mark .rightParen)
      (kindsOf (keyword.part place) ++ kindsOf condition.parts) := by
  match condition with
  | ⟨.found opening, expr, .found closing⟩ =>
    simp only [parts, gapless_append] at gapless
    simp only [parts, kindsOf_append, ← List.append_assoc]
    exact ((derives_word.seq derives_mark).seq (expr.derives formed gapless.1.2)).seq derives_mark
  | ⟨.missing _, _, _⟩ => simp [parts] at gapless
  | ⟨.found _, _, .missing _⟩ => simp [parts] at gapless

theorem ForHeader.derives (place : Place) {header : ForHeader} (formed : header.Formed)
    (gapless : Gapless header.parts) :
    Derives (word .forKw ++ mark .leftParen ++ opt (rule .expr) ++ mark .semicolon ++
        opt (rule .expr) ++ mark .semicolon ++ opt (rule .expr) ++ mark .rightParen)
      (kindsOf (Keyword.forKw.part place) ++ kindsOf header.parts) := by
  obtain ⟨opening, first, semicolon, condition, semicolon', step, closing, rfl, gapless₁, gapless₂,
    gapless₃⟩ := ForHeader.exists_of_gapless gapless
  obtain ⟨formed₁, formed₂, formed₃⟩ := formed
  simp only [parts, kindsOf_append, ← List.append_assoc]
  have h := derives_optionalExpr formed₁ gapless₁
  have h' := derives_optionalExpr formed₂ gapless₂
  have h'' := derives_optionalExpr formed₃ gapless₃
  exact ((((((derives_word.seq derives_mark).seq h).seq derives_mark).seq h').seq derives_mark).seq
    h'').seq derives_mark

mutual

theorem Stmt.derives : ∀ stmt : Stmt, stmt.Formed → Gapless stmt.parts →
    Derives (rule .stm) (kindsOf stmt.parts)
  | .block opening items (.found closing), formed, gapless => by
    simp only [Stmt.parts, gapless_append] at gapless
    have h := Items.derives items formed gapless.1.2
    simp only [Stmt.parts, kindsOf_append]
    exact .rule (.left (.left (.left (.left (.left (.left (.rule
      ((derives_mark.seq h).seq derives_mark))))))))
  | .ifThen place condition body, formed, gapless => by
    simp only [Stmt.parts, gapless_append] at gapless
    have h := Condition.derives .ifKw place formed.1 gapless.1.2
    have h' := (h.seq (Stmt.derives body formed.2 gapless.2)).seq
      (Derives.none : Derives (opt (word .elseKw ++ rule .stm)) [])
    rw [List.append_nil] at h'
    simp only [Stmt.parts, kindsOf_append]
    exact .rule (.left (.left (.left (.left (.left (.right h'))))))
  | .ifElse place condition body elsePlace otherwise, formed, gapless => by
    simp only [Stmt.parts, gapless_append] at gapless
    obtain ⟨formed₁, formed₂, -, formed₃⟩ := formed
    have h := Condition.derives .ifKw place formed₁ gapless.1.1.1.2
    have h' := Stmt.derives body formed₂ gapless.1.1.2
    have h'' := Stmt.derives otherwise formed₃ gapless.2
    simp only [Stmt.parts, kindsOf_append]
    rw [List.append_assoc]
    exact .rule (.left (.left (.left (.left (.left (.right
      ((h.seq h').seq (.some (derives_word.seq h'')))))))))
  | .whileLoop place condition body, formed, gapless => by
    simp only [Stmt.parts, gapless_append] at gapless
    have h := Condition.derives .whileKw place formed.1 gapless.1.2
    simp only [Stmt.parts, kindsOf_append]
    exact .rule (.left (.left (.left (.left (.right
      (h.seq (Stmt.derives body formed.2 gapless.2)))))))
  | .forLoop place header body, formed, gapless => by
    simp only [Stmt.parts, gapless_append] at gapless
    have h := ForHeader.derives place formed.1 gapless.1.2
    simp only [Stmt.parts, kindsOf_append]
    exact .rule (.left (.left (.left (.right (h.seq (Stmt.derives body formed.2 gapless.2))))))
  | .breakLoop place (.found semicolon), _, _ =>
    .rule (.left (.left (.right (derives_word.seq derives_mark))))
  | .returnValue place value (.found semicolon), formed, gapless => by
    simp only [Stmt.parts, gapless_append] at gapless
    simp only [Stmt.parts, kindsOf_append]
    exact .rule (.left (.right
      ((derives_word.seq (derives_optionalExpr formed gapless.1.2)).seq derives_mark)))
  | .empty semicolon, _, _ => .rule (.right (Derives.none.seq derives_mark))
  | .expr expr (.found semicolon), formed, gapless => by
    simp only [Stmt.parts, gapless_append] at gapless
    simp only [Stmt.parts, kindsOf_append]
    exact .rule (.right ((Derives.some (expr.derives formed gapless.1)).seq derives_mark))
  | .block _ _ (.missing _), _, gapless => by simp [Stmt.parts] at gapless
  | .breakLoop _ (.missing _), _, gapless => by simp [Stmt.parts] at gapless
  | .returnValue _ _ (.missing _), _, gapless => by simp [Stmt.parts] at gapless
  | .expr _ (.missing _), _, gapless => by simp [Stmt.parts] at gapless
  | .missing _, _, gapless => by simp [Stmt.parts] at gapless

theorem Items.derives : ∀ items : Items, items.Formed → Gapless items.parts →
    Derives (star (rule .declVar ||| rule .stm)) (kindsOf items.parts)
  | .nil, _, _ => .nil
  | .decl decl rest, formed, gapless => by
    simp only [Items.parts, gapless_append] at gapless
    simp only [Items.parts, kindsOf_append]
    exact (Derives.left (decl.derives formed.1 gapless.1)).cons (Items.derives rest formed.2 gapless.2)
  | .stmt stmt rest, formed, gapless => by
    simp only [Items.parts, gapless_append] at gapless
    simp only [Items.parts, kindsOf_append]
    exact (Derives.right (Stmt.derives stmt formed.1 gapless.1)).cons
      (Items.derives rest formed.2 gapless.2)

end

theorem Block.derives {block : Block} (formed : block.items.Formed) (gapless : Gapless block.parts) :
    Derives (rule .stmCompound) (kindsOf block.parts) := by
  match block with
  | ⟨opening, items, .found closing⟩ =>
    simp only [parts, gapless_append] at gapless
    simp only [parts, kindsOf_append]
    exact .rule ((derives_mark.seq (items.derives formed gapless.1.2)).seq derives_mark)
  | ⟨_, _, .missing _⟩ => simp [parts] at gapless

/-! ### Top-level declarations -/

theorem ResultType.derives {result : ResultType} (gapless : Gapless result.parts) :
    Derives (word .voidKw ||| rule .typeBase ++ opt (op .star)) (kindsOf result.parts) := by
  cases result with
  | void => exact .left derives_word
  | value base =>
    have h := (base.derives gapless).seq (Derives.none : Derives (opt (op .star)) [])
    rw [List.append_nil] at h
    exact .right h
  | array base star =>
    simp only [parts, gapless_append] at gapless
    simp only [parts, kindsOf_append]
    exact .right ((base.derives gapless.1).seq (.some derives_op))

theorem Param.derives {param : Param} (formed : param.Formed) (gapless : Gapless param.parts) :
    Derives (rule .funcArg) (kindsOf param.parts) := by
  match param with
  | ⟨_, .missing _, _⟩ => simp [parts] at gapless
  | ⟨base, .found name, array⟩ =>
    simp only [parts, gapless_append] at gapless
    simp only [parts, kindsOf_append]
    exact .rule (((base.derives gapless.1.1).seq derives_name).seq (array.derives formed gapless.2))

theorem derives_params {params : Option (Separated (Slot Param))}
    (formed : ∀ items ∈ params, ∀ param, .found param ∈ items.toList → param.Formed)
    (gapless : Gapless (optionalParts (Separated.parts (Slot.parts Param.parts)) params)) :
    Derives (opt (list (rule .funcArg)))
      (kindsOf (optionalParts (Separated.parts (Slot.parts Param.parts)) params)) := by
  refine derives_optional fun items same => derives_separated fun slot among => ?_
  obtain rfl : params = some items := same
  have gapless' := items.gapless_of_mem gapless among
  cases slot with
  | missing => simp at gapless'
  | found param => exact param.derives (formed items rfl param among) gapless'

theorem Decl.derives {decl : Decl} (formed : decl.Formed) (gapless : Gapless decl.parts) :
    Derives (rule .declStruct ||| rule .declFunc ||| rule .declVar) (kindsOf decl.parts) := by
  match decl with
  | .struct place name opening members (.found closing) (.found semicolon) =>
    simp only [parts, gapless_append] at gapless
    have h := derives_flatMap fun member among =>
      VarDecl.derives (formed member among) (gapless_of_mem gapless.1.1.2 among)
    simp only [parts, kindsOf_append]
    exact .left (.left (.rule (((((derives_word.seq derives_name).seq derives_mark).seq h).seq
      derives_mark).seq derives_mark)))
  | .function result name opening params (.found closing) (.found block) =>
    simp only [parts, gapless_append] at gapless
    have h := ResultType.derives gapless.1.1.1.1.1
    have h' := derives_params formed.1 gapless.1.1.2
    have h'' := block.derives (formed.2 block rfl) gapless.2
    simp only [parts, kindsOf_append]
    exact .left (.right (.rule (((((h.seq derives_name).seq derives_mark).seq h').seq
      derives_mark).seq h'')))
  | .vars _ decl => exact .right (decl.derives formed.1 gapless)
  | .struct _ _ _ _ (.missing _) _ | .struct _ _ _ _ (.found _) (.missing _) => simp [parts] at gapless
  | .function _ _ _ _ (.missing _) _ | .function _ _ _ _ (.found _) (.missing _) =>
    simp [parts] at gapless
  | .missing _ _ => simp [parts] at gapless

/-- The grammar derives well-formed declarations up to the end of input. -/
theorem derives_unit {decls : List Decl} (formed : ∀ decl ∈ decls, decl.Formed)
    (gapless : Gapless (decls.flatMap Decl.parts)) :
    Derives (rule .unit) (kindsOf (decls.flatMap Decl.parts) ++ [.endOfInput]) :=
  .rule ((derives_flatMap fun decl among =>
    decl.derives (formed decl among) (gapless_of_mem gapless among)).seq (.token rfl))

end PlainC
