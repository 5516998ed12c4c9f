import PlainC.Proofs.Grammar.Derivation
import PlainC.Proofs.Grammar.Meaning

set_option autoImplicit false

/-!
What the grammar derives has a well-formed tree. Each rule means the lexemes that have a tree of its
sort, and the meanings are closed under the rules.
-/

namespace PlainC

namespace Grammar

open Form

/-- The trees of a rule: for operators, those that bind tightly enough. -/
def HasTree : Nonterminal → List Lexeme → Prop
  | .unit, ts =>
    ∃ (decls : List Decl) (place : Place), (∀ decl ∈ decls, decl.Formed) ∧
      Gapless (decls.flatMap Decl.parts) ∧
      ts = lexemesOf (decls.flatMap Decl.parts) ++ [⟨.endOfInput, place⟩]
  | .declStruct, ts | .declFunc, ts => Spelled Decl.Formed Decl.parts ts
  | .declVar, ts => Spelled VarDecl.Formed VarDecl.parts ts
  | .varDef, ts => Spelled Declarator.Formed Declarator.parts ts
  | .init, ts => Spelled Initializer.Formed Initializer.parts ts
  | .typeBase, ts => Spelled (fun _ => True) BaseName.parts ts
  | .arrayDecl, ts => Spelled ArrayPart.Formed ArrayPart.parts ts
  | .typeName, ts => Spelled TypeName.Formed TypeName.parts ts
  | .funcArg, ts => Spelled Param.Formed Param.parts ts
  | .stmCompound, ts => Spelled (fun block : Block => block.items.Formed) Block.parts ts
  | .stm, ts => Spelled Stmt.Formed Stmt.parts ts
  | .expr, ts | .exprAssign, ts => SpelledExpr 0 ts
  | .exprOr, ts => SpelledExpr 1 ts
  | .exprAnd, ts => SpelledExpr 2 ts
  | .exprEquality, ts => SpelledExpr 3 ts
  | .exprRelational, ts => SpelledExpr 4 ts
  | .exprAdditive, ts => SpelledExpr 5 ts
  | .exprMultiplicative, ts => SpelledExpr 6 ts
  | .exprCast, ts => SpelledExpr 7 ts
  | .exprUnary, ts => SpelledExpr 8 ts
  | .exprPostfix, ts => SpelledExpr 9 ts
  | .exprPrimary, ts => SpelledExpr 10 ts
  | .constIntExpr, ts => SpelledSize 5 ts
  | .constTerm, ts => SpelledSize 6 ts
  | .constUnary, ts => SpelledSize 7 ts
  | .constPrimary, ts => SpelledSize 8 ts
where
  SpelledExpr (level : Nat) : List Lexeme → Prop :=
    Spelled (fun expr : Expr => expr.Formed ∧ level ≤ expr.tightness) Expr.parts
  SpelledSize (level : Nat) : List Lexeme → Prop :=
    Spelled (fun size : Size => size.Formed ∧ level ≤ size.tightness) Size.parts

section

variable {ts : List Lexeme}

theorem hasTree_typeBase (h : (production .typeBase).Holds HasTree ts) : HasTree .typeBase ts := by
  rcases h with ((h | h) | h) | ⟨us, vs, rfl, h, h'⟩
  · obtain ⟨place, rfl⟩ := holds_word.mp h
    exact ⟨.int place, trivial, rfl, rfl⟩
  · obtain ⟨place, rfl⟩ := holds_word.mp h
    exact ⟨.double place, trivial, rfl, rfl⟩
  · obtain ⟨place, rfl⟩ := holds_word.mp h
    exact ⟨.char place, trivial, rfl, rfl⟩
  · obtain ⟨place, rfl⟩ := holds_word.mp h
    obtain ⟨name, rfl⟩ := holds_name.mp h'
    exact ⟨.struct place (.found name), trivial, rfl, rfl⟩

/-- An array part may be absent. -/
theorem spelled_arrayPart (h : (opt (rule .arrayDecl)).Holds HasTree ts) :
    Spelled ArrayPart.Formed ArrayPart.parts ts := by
  rcases h with rfl | h
  · exact ⟨.absent, trivial, rfl, rfl⟩
  · exact h

theorem hasTree_arrayDecl (h : (production .arrayDecl).Holds HasTree ts) : HasTree .arrayDecl ts := by
  simp only [production, holds_append, holds_mark] at h
  obtain ⟨_, _, rfl, ⟨_, _, rfl, ⟨opening, rfl⟩, h⟩, closing, rfl⟩ := h
  rcases h with rfl | ⟨size, ⟨formed, -⟩, gapless, rfl⟩
  · exact ⟨.unsized opening closing, trivial, rfl, rfl⟩
  · exact ⟨.sized opening size (.found closing), formed, by simpa [ArrayPart.parts] using gapless,
      by simp [ArrayPart.parts]⟩

theorem hasTree_typeName (h : (production .typeName).Holds HasTree ts) : HasTree .typeName ts := by
  obtain ⟨_, _, rfl, ⟨base, -, gapless, rfl⟩, h⟩ := h
  obtain ⟨array, formed, gapless', rfl⟩ := spelled_arrayPart h
  exact ⟨⟨base, array⟩, formed, by simp [TypeName.parts, gapless, gapless'], by simp [TypeName.parts]⟩

theorem hasTree_funcArg (h : (production .funcArg).Holds HasTree ts) : HasTree .funcArg ts := by
  simp only [production, holds_append, holds_name] at h
  obtain ⟨_, _, rfl, ⟨_, _, rfl, ⟨base, -, gapless, rfl⟩, name, rfl⟩, h⟩ := h
  obtain ⟨array, formed, gapless', rfl⟩ := spelled_arrayPart h
  exact ⟨⟨base, .found name, array⟩, formed, by simp [Param.parts, gapless, gapless'],
    by simp [Param.parts]⟩

/-! ### Sizes -/

theorem spelledSize_weaken {level tighter : Nat} (le : level ≤ tighter)
    (h : HasTree.SpelledSize tighter ts) : HasTree.SpelledSize level ts := by
  obtain ⟨size, ⟨formed, tight⟩, gapless, rfl⟩ := h
  exact ⟨size, ⟨formed, Nat.le_trans le tight⟩, gapless, rfl⟩

theorem spelledSize_chain {ops : Form} {name : Nonterminal} {level : Nat} (arithmetic : 5 ≤ level)
    (tighter : HasTree name = HasTree.SpelledSize (level + 1))
    (operators : ∀ us, ops.Holds HasTree us →
      ∃ op : At Operator, op.value.level = level ∧ us = lexemesOf (operatorPart op))
    (h : (chain ops (rule name)).Holds HasTree ts) : HasTree.SpelledSize level ts := by
  refine spelled_of_chain (fun size : Size => size.Formed ∧ level + 1 ≤ size.tightness)
    (Operator.level · = level) .binary operators ?_ ?_ ?_ (fun _ _ _ => rfl) h
  · intro us h
    rwa [holds_rule, tighter] at h
  · exact fun size h => ⟨h.1, Nat.le_of_succ_le h.2⟩
  · rintro op left right rfl ⟨formed, tight⟩ ⟨formed', tight'⟩
    exact ⟨⟨arithmetic, formed, tight, formed', tight'⟩, Nat.le_refl _⟩

theorem spelled_single {operator : Operator} {level : Nat} (same : operator.level = level)
    (us : List Lexeme) (h : (op operator).Holds HasTree us) :
    ∃ op : At Operator, op.value.level = level ∧ us = lexemesOf (operatorPart op) := by
  obtain ⟨place, rfl⟩ := holds_op.mp h
  exact ⟨⟨operator, place⟩, same, rfl⟩

theorem spelled_additive (us : List Lexeme) (h : (op .plus ||| op .minus).Holds HasTree us) :
    ∃ op : At Operator, op.value.level = 5 ∧ us = lexemesOf (operatorPart op) := by
  rcases h with h | h
  all_goals exact spelled_single rfl us h

theorem spelled_multiplicative (us : List Lexeme)
    (h : (op .star ||| op .slash ||| op .percent).Holds HasTree us) :
    ∃ op : At Operator, op.value.level = 6 ∧ us = lexemesOf (operatorPart op) := by
  rcases h with (h | h) | h
  all_goals exact spelled_single rfl us h

theorem hasTree_constUnary (h : (production .constUnary).Holds HasTree ts) :
    HasTree .constUnary ts := by
  rcases h with ⟨_, _, rfl, h, size, ⟨formed, tight⟩, gapless, rfl⟩ | h
  · rcases h with h | h
    all_goals
      obtain ⟨place, rfl⟩ := holds_op.mp h
      exact ⟨.signed ⟨_, place⟩ size, ⟨⟨by simp, formed, tight⟩, Nat.le_refl 7⟩, gapless, rfl⟩
  · exact spelledSize_weaken (by omega) h

theorem hasTree_constPrimary (h : (production .constPrimary).Holds HasTree ts) :
    HasTree .constPrimary ts := by
  rcases h with h | ⟨_, _, rfl, ⟨_, _, rfl, h, size, ⟨formed, -⟩, gapless, rfl⟩, h'⟩
  · obtain ⟨text, rfl⟩ := holds_literal.mp h
    exact ⟨.literal text, ⟨trivial, Nat.le_refl 8⟩, rfl, rfl⟩
  · obtain ⟨opening, rfl⟩ := holds_mark.mp h
    obtain ⟨closing, rfl⟩ := holds_mark.mp h'
    exact ⟨.paren opening size (.found closing), ⟨formed, Nat.le_refl 8⟩,
      by simpa [Size.parts] using gapless, by simp [Size.parts]⟩

/-! ### Expressions -/

theorem spelledExpr_weaken {level tighter : Nat} (le : level ≤ tighter)
    (h : HasTree.SpelledExpr tighter ts) : HasTree.SpelledExpr level ts := by
  obtain ⟨expr, ⟨formed, tight⟩, gapless, rfl⟩ := h
  exact ⟨expr, ⟨formed, Nat.le_trans le tight⟩, gapless, rfl⟩

theorem spelled_expr (us : List Lexeme) (h : (rule .expr).Holds HasTree us) :
    Spelled Expr.Formed Expr.parts us := by
  obtain ⟨expr, ⟨formed, -⟩, gapless, rfl⟩ := h
  exact ⟨expr, formed, gapless, rfl⟩

/-- Expressions with commas between them, as arguments. -/
theorem spelled_args (h : (list (rule .expr)).Holds HasTree ts) :
    Spelled Args.Formed Args.parts ts := by
  obtain ⟨⟨first, items⟩, formed, gapless, rfl⟩ := spelled_of_list spelled_expr h
  simp only [Separated.toList, List.mem_cons, forall_eq_or_imp] at formed
  simp only [Separated.parts, gapless_append] at gapless
  clear h
  induction items generalizing first with
  | nil =>
    exact ⟨.last first, formed.1, gapless.1,
      by simp [Separated.parts, Separated.restParts, Args.parts]⟩
  | cons pair items ih =>
    obtain ⟨comma, expr⟩ := pair
    simp only [List.map_cons, List.mem_cons, forall_eq_or_imp] at formed
    simp only [Separated.restParts, gapless_append] at gapless
    obtain ⟨args, formed', gapless', same⟩ := ih expr ⟨formed.2.1, formed.2.2⟩
      ⟨gapless.2.1.2, gapless.2.2⟩
    refine ⟨.more first comma args, ⟨formed.1, formed'⟩, ?_, ?_⟩
    · simp [Args.parts, gapless.1, gapless']
    · simp [Args.parts, ← same, Separated.parts, Separated.restParts]

theorem spelledExpr_chain {ops : Form} {name : Nonterminal} {level : Nat} (binary : 1 ≤ level)
    (tighter : HasTree name = HasTree.SpelledExpr (level + 1))
    (operators : ∀ us, ops.Holds HasTree us →
      ∃ op : At Operator, op.value.level = level ∧ us = lexemesOf (operatorPart op))
    (h : (chain ops (rule name)).Holds HasTree ts) : HasTree.SpelledExpr level ts := by
  refine spelled_of_chain (fun expr : Expr => expr.Formed ∧ level + 1 ≤ expr.tightness)
    (Operator.level · = level) .binary operators ?_ ?_ ?_ (fun _ _ _ => rfl) h
  · intro us h
    rwa [holds_rule, tighter] at h
  · exact fun expr h => ⟨h.1, Nat.le_of_succ_le h.2⟩
  · rintro op left right rfl ⟨formed, tight⟩ ⟨formed', tight'⟩
    exact ⟨⟨binary, formed, tight, formed', tight'⟩, Nat.le_refl _⟩

theorem spelled_equality (us : List Lexeme) (h : (op .equal ||| op .unequal).Holds HasTree us) :
    ∃ op : At Operator, op.value.level = 3 ∧ us = lexemesOf (operatorPart op) := by
  rcases h with h | h
  all_goals exact spelled_single rfl us h

theorem spelled_relational (us : List Lexeme)
    (h : (op .less ||| op .lessEqual ||| op .greater ||| op .greaterEqual).Holds HasTree us) :
    ∃ op : At Operator, op.value.level = 4 ∧ us = lexemesOf (operatorPart op) := by
  rcases h with ((h | h) | h) | h
  all_goals exact spelled_single rfl us h

theorem hasTree_exprAssign (h : (production .exprAssign).Holds HasTree ts) :
    HasTree .exprAssign ts := by
  obtain ⟨_, _, rfl, h, rfl | h'⟩ := h
  · rw [List.append_nil]
    exact spelledExpr_weaken (Nat.zero_le 1) h
  · obtain ⟨target, ⟨formed, tight⟩, gapless, rfl⟩ := h
    obtain ⟨_, _, rfl, h', value, ⟨formed', -⟩, gapless', rfl⟩ := h'
    obtain ⟨place, rfl⟩ := holds_op.mp h'
    exact ⟨.assign target place value, ⟨⟨formed, tight, formed'⟩, Nat.zero_le _⟩,
      by simp [Expr.parts, gapless, gapless'], by simp [Expr.parts]⟩

theorem hasTree_exprCast (h : (production .exprCast).Holds HasTree ts) : HasTree .exprCast ts := by
  obtain ⟨_, _, rfl, ⟨_, _, rfl, ⟨_, _, rfl, h, target, formed, gapless, rfl⟩, h'⟩,
    operand, ⟨formed', tight⟩, gapless', rfl⟩ | h := h
  · obtain ⟨opening, rfl⟩ := holds_mark.mp h
    obtain ⟨closing, rfl⟩ := holds_mark.mp h'
    exact ⟨.cast opening target (.found closing) operand, ⟨⟨formed, formed', tight⟩, Nat.le_refl 7⟩,
      by simp [Expr.parts, gapless, gapless'], by simp [Expr.parts]⟩
  · exact spelledExpr_weaken (by omega) h

theorem hasTree_exprUnary (h : (production .exprUnary).Holds HasTree ts) :
    HasTree .exprUnary ts := by
  rcases h with ⟨_, _, rfl, h, operand, ⟨formed, tight⟩, gapless, rfl⟩ | h
  · rcases h with h | h
    all_goals
      obtain ⟨place, rfl⟩ := holds_op.mp h
      exact ⟨.unary ⟨_, place⟩ operand, ⟨⟨by simp, formed, tight⟩, Nat.le_refl 8⟩, gapless, rfl⟩
  · exact spelledExpr_weaken (by omega) h

theorem hasTree_exprPostfix (h : (production .exprPostfix).Holds HasTree ts) :
    HasTree .exprPostfix ts := by
  obtain ⟨_, vs, rfl, ⟨base, ⟨formed, tight⟩, gapless, rfl⟩, more⟩ := h
  refine spelled_of_suffixes ?_ more base ⟨formed, by omega⟩ gapless
  rintro base _ ⟨formed, tight⟩ gapless
    (⟨_, _, rfl, ⟨_, _, rfl, h, index, ⟨formed', -⟩, gapless', rfl⟩, h'⟩ | ⟨_, _, rfl, h, h'⟩)
  · obtain ⟨opening, rfl⟩ := holds_mark.mp h
    obtain ⟨closing, rfl⟩ := holds_mark.mp h'
    exact ⟨.element base opening index (.found closing), ⟨⟨formed, tight, formed'⟩, Nat.le_refl 9⟩,
      by simp [Expr.parts, gapless, gapless'], by simp [Expr.parts]⟩
  · obtain ⟨dot, rfl⟩ := holds_op.mp h
    obtain ⟨name, rfl⟩ := holds_name.mp h'
    exact ⟨.member base dot (.found name), ⟨⟨formed, tight⟩, Nat.le_refl 9⟩,
      by simp [Expr.parts, gapless], by simp [Expr.parts]⟩

theorem hasTree_exprPrimary (h : (production .exprPrimary).Holds HasTree ts) :
    HasTree .exprPrimary ts := by
  rcases h with
      ((((⟨_, _, rfl, h, h'⟩ | h) | h) | h) | h) |
      ⟨_, _, rfl, ⟨_, _, rfl, h, inner, ⟨formed, -⟩, gapless, rfl⟩, h'⟩
  · obtain ⟨callee, rfl⟩ := holds_name.mp h
    rcases h' with rfl | ⟨_, _, rfl, ⟨_, _, rfl, h, h'⟩, h''⟩
    · exact ⟨.reference callee, ⟨trivial, Nat.le_refl 10⟩, rfl, rfl⟩
    · obtain ⟨opening, rfl⟩ := holds_mark.mp h
      obtain ⟨closing, rfl⟩ := holds_mark.mp h''
      rcases h' with rfl | h'
      · exact ⟨.callEmpty callee opening closing, ⟨trivial, Nat.le_refl 10⟩, rfl, rfl⟩
      · obtain ⟨args, formed, gapless, rfl⟩ := spelled_args h'
        exact ⟨.call callee opening args (.found closing), ⟨formed, Nat.le_refl 10⟩,
          by simpa [Expr.parts] using gapless, by simp [Expr.parts]⟩
  iterate 4
    · obtain ⟨text, rfl⟩ := holds_literal.mp h
      exact ⟨.literal _ text, ⟨trivial, Nat.le_refl 10⟩, rfl, rfl⟩
  · obtain ⟨opening, rfl⟩ := holds_mark.mp h
    obtain ⟨closing, rfl⟩ := holds_mark.mp h'
    exact ⟨.paren opening inner (.found closing), ⟨formed, Nat.le_refl 10⟩,
      by simpa [Expr.parts] using gapless, by simp [Expr.parts]⟩

/-! ### Declarations of variables -/

theorem hasTree_init (h : (production .init).Holds HasTree ts) : HasTree .init ts := by
  rcases h with h | ⟨_, _, rfl, ⟨_, _, rfl, h, h'⟩, h''⟩
  · obtain ⟨expr, formed, gapless, rfl⟩ := spelled_expr ts h
    exact ⟨.value expr, formed, gapless, rfl⟩
  · obtain ⟨opening, rfl⟩ := holds_mark.mp h
    obtain ⟨closing, rfl⟩ := holds_mark.mp h''
    rcases h' with rfl | h'
    · exact ⟨.noElements opening closing, trivial, rfl, rfl⟩
    · obtain ⟨args, formed, gapless, rfl⟩ := spelled_args h'
      exact ⟨.elements opening args (.found closing), formed,
        by simpa [Initializer.parts] using gapless, by simp [Initializer.parts]⟩

theorem hasTree_varDef (h : (production .varDef).Holds HasTree ts) : HasTree .varDef ts := by
  obtain ⟨_, _, rfl, ⟨_, _, rfl, h, h'⟩, h''⟩ := h
  obtain ⟨name, rfl⟩ := holds_name.mp h
  obtain ⟨array, formed, gapless, rfl⟩ := spelled_arrayPart h'
  rcases h'' with rfl | ⟨_, _, rfl, hop, init, formed', gapless', rfl⟩
  · exact ⟨⟨.found name, array, none⟩, ⟨formed, by simp⟩,
      by simpa [Declarator.parts, optionalParts] using gapless, by simp [Declarator.parts, optionalParts]⟩
  · obtain ⟨place, rfl⟩ := holds_op.mp hop
    exact ⟨⟨.found name, array, some (place, init)⟩, ⟨formed, by simpa using formed'⟩,
      by simp [Declarator.parts, optionalParts, gapless, gapless'],
      by simp [Declarator.parts, optionalParts]⟩

theorem hasTree_declVar (h : (production .declVar).Holds HasTree ts) : HasTree .declVar ts := by
  obtain ⟨_, _, rfl, ⟨_, _, rfl, ⟨base, -, gapless, rfl⟩, h⟩, h'⟩ := h
  have each (us : List Lexeme) (h : (rule .varDef).Holds HasTree us) :
      Spelled Declarator.Formed Declarator.parts us := h
  obtain ⟨declarators, formed, gapless', rfl⟩ := spelled_of_list each h
  obtain ⟨semicolon, rfl⟩ := holds_mark.mp h'
  exact ⟨⟨base, declarators, .found semicolon⟩, formed, by simp [VarDecl.parts, gapless, gapless'],
    by simp [VarDecl.parts]⟩

end

end Grammar

/-! ### Statements -/

/-- The statement with an `else` behind it, which goes to the `if` that is still open. -/
def Stmt.withElse (elseWord : Place) (otherwise : Stmt) : Stmt → Stmt
  | .ifThen word condition body =>
    if body.endsOpen then .ifThen word condition (withElse elseWord otherwise body)
    else .ifElse word condition body elseWord otherwise
  | .ifElse word condition body elseWord' otherwise' =>
    .ifElse word condition body elseWord' (withElse elseWord otherwise otherwise')
  | .whileLoop word condition body =>
    .whileLoop word condition (withElse elseWord otherwise body)
  | .forLoop word header body => .forLoop word header (withElse elseWord otherwise body)
  | other => other

theorem Stmt.formed_withElse (elseWord : Place) {otherwise : Stmt} (formed' : otherwise.Formed) :
    ∀ stmt : Stmt, stmt.endsOpen = true → stmt.Formed → (withElse elseWord otherwise stmt).Formed
  | .ifThen word condition body, _, formed => by
    unfold withElse
    split
    case isTrue isOpen => exact ⟨formed.1, formed_withElse elseWord formed' body isOpen formed.2⟩
    case isFalse closed => exact ⟨formed.1, formed.2, by simpa using closed, formed'⟩
  | .ifElse word condition body elseWord' otherwise', isOpen, formed => by
    obtain ⟨formed₁, formed₂, closed, formed₃⟩ := formed
    exact ⟨formed₁, formed₂, closed, formed_withElse elseWord formed' otherwise' isOpen formed₃⟩
  | .whileLoop word condition body, isOpen, formed =>
    ⟨formed.1, formed_withElse elseWord formed' body isOpen formed.2⟩
  | .forLoop word header body, isOpen, formed =>
    ⟨formed.1, formed_withElse elseWord formed' body isOpen formed.2⟩

theorem Stmt.parts_withElse (elseWord : Place) (otherwise : Stmt) :
    ∀ stmt : Stmt, stmt.endsOpen = true →
      (withElse elseWord otherwise stmt).parts =
        stmt.parts ++ Keyword.elseKw.part elseWord ++ otherwise.parts
  | .ifThen word condition body, _ => by
    unfold withElse
    split
    case isTrue isOpen => simp [parts, parts_withElse elseWord otherwise body isOpen]
    case isFalse closed => simp [parts]
  | .ifElse word condition body elseWord' otherwise', isOpen => by
    simp [withElse, parts, parts_withElse elseWord otherwise otherwise' isOpen]
  | .whileLoop word condition body, isOpen => by
    simp [withElse, parts, parts_withElse elseWord otherwise body isOpen]
  | .forLoop word header body, isOpen => by
    simp [withElse, parts, parts_withElse elseWord otherwise body isOpen]

namespace Grammar

open Form

section

variable {ts : List Lexeme}

theorem hasTree_stmCompound (h : (production .stmCompound).Holds HasTree ts) :
    HasTree .stmCompound ts := by
  obtain ⟨_, _, rfl, ⟨_, _, rfl, h, words, rfl, each⟩, h'⟩ := h
  obtain ⟨opening, rfl⟩ := holds_mark.mp h
  obtain ⟨closing, rfl⟩ := holds_mark.mp h'
  suffices Spelled Items.Formed Items.parts words.flatten by
    obtain ⟨items, formed, gapless, same⟩ := this
    exact ⟨⟨opening, items, .found closing⟩, formed, by simp [Block.parts, gapless],
      by simp [Block.parts, same]⟩
  induction words with
  | nil => exact ⟨.nil, trivial, rfl, rfl⟩
  | cons us words ih =>
    obtain ⟨items, formed, gapless, same⟩ := ih fun vs among => each vs (by simp [among])
    rcases each us (by simp) with ⟨decl, formed', gapless', rfl⟩ | ⟨stmt, formed', gapless', rfl⟩
    · exact ⟨.decl decl items, ⟨formed', formed⟩, by simp [Items.parts, gapless, gapless'],
        by simp [Items.parts, same]⟩
    · exact ⟨.stmt stmt items, ⟨formed', formed⟩, by simp [Items.parts, gapless, gapless'],
        by simp [Items.parts, same]⟩

/-- A word with a condition. -/
theorem spelled_condition {keyword : Keyword}
    (h : (word keyword ++ mark .leftParen ++ rule .expr ++ mark .rightParen).Holds HasTree ts) :
    ∃ (place : Place) (condition : Condition), condition.expr.Formed ∧ Gapless condition.parts ∧
      ts = lexemesOf (keyword.part place ++ condition.parts) := by
  obtain ⟨_, _, rfl, ⟨_, _, rfl, ⟨_, _, rfl, h, h'⟩, expr, ⟨formed, -⟩, gapless, rfl⟩, h''⟩ := h
  obtain ⟨place, rfl⟩ := holds_word.mp h
  obtain ⟨opening, rfl⟩ := holds_mark.mp h'
  obtain ⟨closing, rfl⟩ := holds_mark.mp h''
  exact ⟨place, ⟨.found opening, expr, .found closing⟩, formed, by simpa [Condition.parts] using gapless,
    by simp [Condition.parts]⟩

theorem spelled_optionalExpr (h : (opt (rule .expr)).Holds HasTree ts) :
    Spelled (fun value : Option Expr => ∀ expr ∈ value, expr.Formed) (optionalParts Expr.parts) ts :=
  spelled_of_opt spelled_expr h

theorem spelled_forHeader
    (h : (word .forKw ++ mark .leftParen ++ opt (rule .expr) ++ mark .semicolon ++
      opt (rule .expr) ++ mark .semicolon ++ opt (rule .expr) ++ mark .rightParen).Holds HasTree ts) :
    ∃ (place : Place) (header : ForHeader), header.Formed ∧ Gapless header.parts ∧
      ts = lexemesOf (Keyword.forKw.part place ++ header.parts) := by
  obtain ⟨_, _, rfl, ⟨_, _, rfl, ⟨_, _, rfl, ⟨_, _, rfl, ⟨_, _, rfl, ⟨_, _, rfl, ⟨_, _, rfl,
    h₁, h₂⟩, h₃⟩, h₄⟩, h₅⟩, h₆⟩, h₇⟩, h₈⟩ := h
  obtain ⟨place, rfl⟩ := holds_word.mp h₁
  obtain ⟨opening, rfl⟩ := holds_mark.mp h₂
  obtain ⟨first, formed₁, gapless₁, rfl⟩ := spelled_optionalExpr h₃
  obtain ⟨semicolon, rfl⟩ := holds_mark.mp h₄
  obtain ⟨condition, formed₂, gapless₂, rfl⟩ := spelled_optionalExpr h₅
  obtain ⟨semicolon', rfl⟩ := holds_mark.mp h₆
  obtain ⟨step, formed₃, gapless₃, rfl⟩ := spelled_optionalExpr h₇
  obtain ⟨closing, rfl⟩ := holds_mark.mp h₈
  exact ⟨place, ⟨.found opening, first, .found semicolon, condition, .found semicolon', step,
    .found closing⟩, ⟨formed₁, formed₂, formed₃⟩,
    by simp [ForHeader.parts, gapless₁, gapless₂, gapless₃], by simp [ForHeader.parts]⟩

theorem hasTree_stm (h : (production .stm).Holds HasTree ts) : HasTree .stm ts := by
  rcases h with (((((h | h) | h) | h) | h) | h) | h
  case inl.inl.inl.inl.inl.inl =>
    obtain ⟨⟨opening, items, closing⟩, formed, gapless, rfl⟩ := h
    exact ⟨.block opening items closing, formed, gapless, rfl⟩
  case inl.inl.inl.inl.inl.inr =>
    obtain ⟨_, _, rfl, ⟨_, _, rfl, h, body, formed', gapless', rfl⟩, h'⟩ := h
    obtain ⟨place, condition, formed, gapless, rfl⟩ := spelled_condition h
    rcases h' with rfl | ⟨_, _, rfl, h', otherwise, formed'', gapless'', rfl⟩
    · exact ⟨.ifThen place condition body, ⟨formed, formed'⟩, by simp [Stmt.parts, gapless, gapless'],
        by simp [Stmt.parts]⟩
    · obtain ⟨elsePlace, rfl⟩ := holds_word.mp h'
      -- the `else` goes to the nearest `if`, which is this one only if the body is closed
      cases isOpen : body.endsOpen with
      | false =>
        exact ⟨.ifElse place condition body elsePlace otherwise, ⟨formed, formed', isOpen, formed''⟩,
          by simp [Stmt.parts, gapless, gapless', gapless''], by simp [Stmt.parts]⟩
      | true =>
        have parts := Stmt.parts_withElse elsePlace otherwise body isOpen
        exact ⟨.ifThen place condition (Stmt.withElse elsePlace otherwise body),
          ⟨formed, Stmt.formed_withElse elsePlace formed'' body isOpen formed'⟩,
          by simp [Stmt.parts, parts, gapless, gapless', gapless''], by simp [Stmt.parts, parts]⟩
  case inl.inl.inl.inl.inr =>
    obtain ⟨_, _, rfl, h, body, formed', gapless', rfl⟩ := h
    obtain ⟨place, condition, formed, gapless, rfl⟩ := spelled_condition h
    exact ⟨.whileLoop place condition body, ⟨formed, formed'⟩, by simp [Stmt.parts, gapless, gapless'],
      by simp [Stmt.parts]⟩
  case inl.inl.inl.inr =>
    obtain ⟨_, _, rfl, h, body, formed', gapless', rfl⟩ := h
    obtain ⟨place, header, formed, gapless, rfl⟩ := spelled_forHeader h
    exact ⟨.forLoop place header body, ⟨formed, formed'⟩, by simp [Stmt.parts, gapless, gapless'],
      by simp [Stmt.parts]⟩
  case inl.inl.inr =>
    obtain ⟨_, _, rfl, h, h'⟩ := h
    obtain ⟨place, rfl⟩ := holds_word.mp h
    obtain ⟨semicolon, rfl⟩ := holds_mark.mp h'
    exact ⟨.breakLoop place (.found semicolon), trivial, rfl, rfl⟩
  case inl.inr =>
    obtain ⟨_, _, rfl, ⟨_, _, rfl, h, h'⟩, h''⟩ := h
    obtain ⟨place, rfl⟩ := holds_word.mp h
    obtain ⟨value, formed, gapless, rfl⟩ := spelled_optionalExpr h'
    obtain ⟨semicolon, rfl⟩ := holds_mark.mp h''
    exact ⟨.returnValue place value (.found semicolon), formed, by simpa [Stmt.parts] using gapless,
      by simp [Stmt.parts]⟩
  case inr =>
    obtain ⟨_, _, rfl, h, h'⟩ := h
    obtain ⟨semicolon, rfl⟩ := holds_mark.mp h'
    rcases h with rfl | h
    · exact ⟨.empty semicolon, trivial, rfl, rfl⟩
    · obtain ⟨expr, formed, gapless, rfl⟩ := spelled_expr _ h
      exact ⟨.expr expr (.found semicolon), formed, by simpa [Stmt.parts] using gapless,
        by simp [Stmt.parts]⟩

/-! ### Top-level declarations -/

theorem hasTree_declStruct (h : (production .declStruct).Holds HasTree ts) :
    HasTree .declStruct ts := by
  obtain ⟨_, _, rfl, ⟨_, _, rfl, ⟨_, _, rfl, ⟨_, _, rfl, ⟨_, _, rfl, h₁, h₂⟩, h₃⟩, h₄⟩, h₅⟩, h₆⟩ := h
  obtain ⟨word, rfl⟩ := holds_word.mp h₁
  obtain ⟨name, rfl⟩ := holds_name.mp h₂
  obtain ⟨opening, rfl⟩ := holds_mark.mp h₃
  have each (us : List Lexeme) (h : (rule .declVar).Holds HasTree us) :
      Spelled VarDecl.Formed VarDecl.parts us := h
  obtain ⟨members, formed, gapless, rfl⟩ := spelled_of_star each h₄
  obtain ⟨closing, rfl⟩ := holds_mark.mp h₅
  obtain ⟨semicolon, rfl⟩ := holds_mark.mp h₆
  exact ⟨.struct word name opening members (.found closing) (.found semicolon), formed,
    by simpa [Decl.parts] using gapless, by simp [Decl.parts]⟩

theorem spelled_result
    (h : (word .voidKw ||| rule .typeBase ++ opt (op .star)).Holds HasTree ts) :
    Spelled (fun _ => True) ResultType.parts ts := by
  rcases h with h | ⟨_, _, rfl, ⟨base, -, gapless, rfl⟩, rfl | h⟩
  · obtain ⟨place, rfl⟩ := holds_word.mp h
    exact ⟨.void place, trivial, rfl, rfl⟩
  · exact ⟨.value base, trivial, gapless, by simp [ResultType.parts]⟩
  · obtain ⟨star, rfl⟩ := holds_op.mp h
    exact ⟨.array base star, trivial, by simpa [ResultType.parts] using gapless,
      by simp [ResultType.parts]⟩

theorem hasTree_declFunc (h : (production .declFunc).Holds HasTree ts) : HasTree .declFunc ts := by
  obtain ⟨_, _, rfl, ⟨_, _, rfl, ⟨_, _, rfl, ⟨_, _, rfl, ⟨_, _, rfl, h₁, h₂⟩, h₃⟩, h₄⟩, h₅⟩,
    block, formed', gapless'', rfl⟩ := h
  obtain ⟨result, -, gapless, rfl⟩ := spelled_result h₁
  obtain ⟨name, rfl⟩ := holds_name.mp h₂
  obtain ⟨opening, rfl⟩ := holds_mark.mp h₃
  have each (us : List Lexeme) (h : (rule .funcArg).Holds HasTree us) :
      Spelled (fun slot => ∀ param, slot = .found param → param.Formed) (Slot.parts Param.parts) us := by
    obtain ⟨param, formed, gapless, rfl⟩ := h
    exact ⟨.found param, by rintro _ ⟨⟩; exact formed, gapless, rfl⟩
  obtain ⟨params, formed, gapless', rfl⟩ := spelled_of_opt (fun us => spelled_of_list each) h₄
  obtain ⟨closing, rfl⟩ := holds_mark.mp h₅
  exact ⟨.function result name opening params (.found closing) (.found block),
    ⟨fun items same param among => formed items same _ among param rfl, by rintro _ ⟨⟩; exact formed'⟩,
    by simp [Decl.parts, gapless, gapless', gapless''], by simp [Decl.parts]⟩

theorem hasTree_unit (h : (production .unit).Holds HasTree ts) : HasTree .unit ts := by
  obtain ⟨_, _, rfl, h, ⟨⟨_, place⟩, rfl, rfl⟩⟩ := h
  have each (us : List Lexeme)
      (h : (rule .declStruct ||| rule .declFunc ||| rule .declVar).Holds HasTree us) :
      Spelled Decl.Formed Decl.parts us := by
    rcases h with (h | h) | ⟨decl, formed, gapless, rfl⟩
    · exact h
    · exact h
    · exact ⟨.vars ((lexemesOf decl.base.parts).length + 1) decl, ⟨formed, fun _ => rfl⟩, gapless, rfl⟩
  obtain ⟨decls, formed, gapless, rfl⟩ := spelled_of_star each h
  exact ⟨decls, place, formed, gapless, rfl⟩

/-- The meanings are closed under the rules. -/
theorem hasTree_closed :
    ∀ (name : Nonterminal) (ts : List Lexeme), (production name).Holds HasTree ts → HasTree name ts
  | .unit, _, h => hasTree_unit h
  | .declStruct, _, h => hasTree_declStruct h
  | .declFunc, _, h => hasTree_declFunc h
  | .declVar, _, h => hasTree_declVar h
  | .varDef, _, h => hasTree_varDef h
  | .init, _, h => hasTree_init h
  | .typeBase, _, h => hasTree_typeBase h
  | .arrayDecl, _, h => hasTree_arrayDecl h
  | .typeName, _, h => hasTree_typeName h
  | .funcArg, _, h => hasTree_funcArg h
  | .stmCompound, _, h => hasTree_stmCompound h
  | .stm, _, h => hasTree_stm h
  | .expr, _, h => h
  | .exprAssign, _, h => hasTree_exprAssign h
  | .exprOr, _, h => spelledExpr_chain (by omega) rfl (spelled_single rfl) h
  | .exprAnd, _, h => spelledExpr_chain (by omega) rfl (spelled_single rfl) h
  | .exprEquality, _, h => spelledExpr_chain (by omega) rfl spelled_equality h
  | .exprRelational, _, h => spelledExpr_chain (by omega) rfl spelled_relational h
  | .exprAdditive, _, h => spelledExpr_chain (by omega) rfl spelled_additive h
  | .exprMultiplicative, _, h => spelledExpr_chain (by omega) rfl spelled_multiplicative h
  | .exprCast, _, h => hasTree_exprCast h
  | .exprUnary, _, h => hasTree_exprUnary h
  | .exprPostfix, _, h => hasTree_exprPostfix h
  | .exprPrimary, _, h => hasTree_exprPrimary h
  | .constIntExpr, _, h => spelledSize_chain (by omega) rfl spelled_additive h
  | .constTerm, _, h => spelledSize_chain (by omega) rfl spelled_multiplicative h
  | .constUnary, _, h => hasTree_constUnary h
  | .constPrimary, _, h => hasTree_constPrimary h

/-- The grammar derives the kinds of just those lexemes that well-formed declarations are made of. -/
theorem derives_unit_iff (ts : List Lexeme) :
    Derives (rule .unit) (ts.map At.value) ↔ HasTree .unit ts := by
  constructor
  · exact fun h => h.holds hasTree_closed ts rfl
  · rintro ⟨decls, place, formed, gapless, rfl⟩
    simpa [kindsOf] using derives_unit formed gapless

end

end Grammar

end PlainC
