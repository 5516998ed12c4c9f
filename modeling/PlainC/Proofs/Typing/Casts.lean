import PlainC.Proofs.Typing.Analysis

set_option autoImplicit false

/-!
Casts one behind the other. Types that convert to each other fall into families, so a chain of casts
is as good as the check of each of its types against the operand itself, and a cast to the type of a
left side makes no difference to an assignment.
-/

namespace PlainC

open Checked PlainC.Expr

/-! ### Families of types -/

/-- What conversion keeps of a type: that it is a number, which struct it is, or what it is an array
of. -/
inductive Ty.Family where
  | number
  | struct (index : Nat)
  | array (base : Base)
  deriving DecidableEq

namespace Ty

/-- The family of a type. A scalar without a value has none. -/
def family? (ty : Ty) : Option Family :=
  if ty.isArray then some (.array ty.base)
  else match ty.base with
    | .int | .double | .char => some .number
    | .struct index => some (.struct index)
    | .void => none

variable {ty target source left right third : Ty}

theorem family?_eq_none_iff : ty.family? = none ↔ ty = .void := by
  obtain ⟨base, extent⟩ := ty
  by_cases scalar : extent = .scalar
  · subst scalar
    cases base <;> simp [family?, isArray, void]
  · simp [family?, isArray, void, scalar]

/-- Types convert to each other within a family. -/
theorem accepts_iff : target.accepts source = true ↔
    ∃ family, target.family? = some family ∧ source.family? = some family := by
  obtain ⟨base, extent⟩ := target
  obtain ⟨base', extent'⟩ := source
  by_cases scalar : extent = .scalar
  · by_cases scalar' : extent' = .scalar
    · subst scalar scalar'
      cases base <;> cases base' <;> simp [accepts, family?, isArray, Base.rank?, eq_comm]
    · subst scalar
      cases base <;> simp [accepts, family?, isArray, scalar']
  · by_cases scalar' : extent' = .scalar
    · subst scalar'
      cases base' <;> simp [accepts, family?, isArray, scalar]
    · simp [accepts, family?, isArray, scalar, scalar', eq_comm]

theorem accepts_comm (target source : Ty) : target.accepts source = source.accepts target := by
  rw [Bool.eq_iff_iff, accepts_iff, accepts_iff]
  exact exists_congr fun _ => and_comm

theorem accepts_trans (first : left.accepts right = true) (second : right.accepts third = true) :
    left.accepts third = true := by
  obtain ⟨family, member, member'⟩ := accepts_iff.mp first
  obtain ⟨family', same, member''⟩ := accepts_iff.mp second
  obtain rfl := Option.some.inj (member'.symm.trans same)
  exact accepts_iff.mpr ⟨family, member, member''⟩

theorem accepts_self_iff : ty.accepts ty = true ↔ ty ≠ .void := by
  rw [accepts_iff, Ne, ← family?_eq_none_iff, ← Ne, Option.ne_none_iff_exists']
  exact exists_congr fun _ => and_self_iff

/-- Types that convert to each other are accepted alike. -/
theorem accepts_congr (same : left.accepts right = true) (ty : Ty) :
    ty.accepts left = ty.accepts right := by
  rw [Bool.eq_iff_iff]
  exact ⟨fun h => accepts_trans h same, fun h => accepts_trans h (accepts_comm left right ▸ same)⟩

end Ty

/-! ### Trees -/

/-- A type in parentheses, as it stands in front of an operand. -/
structure Conversion where
  opening : Place
  target : TypeName
  closing : Place

namespace Conversion

def lexemes (conversion : Conversion) : List Lexeme :=
  ⟨.delimiter .leftParen, conversion.opening⟩ ::
    (lexemesOf conversion.target.parts ++ [⟨.delimiter .rightParen, conversion.closing⟩])

/-- The cast of an operand. -/
def apply (conversion : Conversion) (operand : Expr) : Expr :=
  .cast conversion.opening conversion.target (.found conversion.closing) operand

/-- The operand behind all the casts, of which the last one comes next to it. -/
def applyAll (conversions : List Conversion) (operand : Expr) : Expr := conversions.foldr apply operand

/-- The type between the parentheses is well-formed, and means this one. -/
structure Denotes (table : SymbolTable) (conversion : Conversion) (ty : Ty) : Prop where
  formed : conversion.target.Formed
  given : (conversion.target.resolve table).Gives ty

variable {table : SymbolTable} {conversion : Conversion} {conversions : List Conversion}
  {expr target value : Expr} {operand source : Operand} {ts rest : List Lexeme} {ty : Ty} {tys : List Ty}

theorem fronts_apply (denotes : conversion.Denotes table ty) (fronts : expr.Fronts ts rest)
    (tight : 7 ≤ expr.tightness) :
    (conversion.apply expr).Fronts (conversion.lexemes ++ ts) rest where
  formed := ⟨denotes.formed, fronts.formed, tight⟩
  gapless := by
    have gapless := (TypeName.reports_resolve table conversion.target).gapless denotes.given
    simpa [apply, Expr.parts] using ⟨gapless, fronts.gapless⟩
  written := by simp [apply, lexemes, Expr.parts, fronts.written]
  stops := fronts.stops

theorem fronts_applyAll (denote : List.Forall₂ (Denotes table) conversions tys)
    (fronts : expr.Fronts ts rest) (tight : 7 ≤ expr.tightness) :
    (applyAll conversions expr).Fronts (conversions.flatMap lexemes ++ ts) rest ∧
      7 ≤ (applyAll conversions expr).tightness := by
  induction denote with
  | nil => exact ⟨fronts, tight⟩
  | cons denotes _ ih =>
    rw [List.flatMap_cons, List.append_assoc]
    exact ⟨fronts_apply denotes ih.1 ih.2, Nat.le_refl 7⟩

/-- The left side of an assignment stands in front of its value. -/
theorem fronts_assign (formed : target.Formed) (gapless : Gapless target.parts)
    (tight : 1 ≤ target.tightness) (op : Place) (fronts : value.Fronts ts rest) :
    (Expr.assign target op value).Fronts
      (lexemesOf target.parts ++ ⟨.operator .assign, op⟩ :: ts) rest where
  formed := ⟨formed, tight, fronts.formed⟩
  gapless := by simpa [Expr.parts] using ⟨gapless, fronts.gapless⟩
  written := by simp [Expr.parts, fronts.written]
  stops := fronts.stops

/-! ### Types -/

theorem gives_apply (denotes : conversion.Denotes table ty) :
    ((conversion.apply expr).type table).Gives operand ↔ ∃ source, (expr.type table).Gives source ∧
      ty.accepts source.ty = true ∧ operand = .computed ty := by
  simp only [apply, Expr.type, gives_bind, gives_requireMark, gives_typeOfCast]
  constructor
  · rintro ⟨ty', given', _, -, source, given, accepts, rfl⟩
    obtain rfl := given'.unique denotes.given
    exact ⟨source, given, accepts, rfl⟩
  · rintro ⟨source, given, accepts, rfl⟩
    exact ⟨ty, denotes.given, (), ⟨_, rfl⟩, source, given, accepts, rfl⟩

/-- Each cast is checked against what is behind it, but as well against the operand. -/
theorem gives_applyAll (given : (expr.type table).Gives source)
    (denotes : conversion.Denotes table ty) (denote : List.Forall₂ (Denotes table) conversions tys) :
    ((applyAll (conversion :: conversions) expr).type table).Gives operand ↔
      (∀ ty' ∈ ty :: tys, ty'.accepts source.ty = true) ∧ operand = .computed ty := by
  induction denote generalizing conversion ty operand with
  | nil =>
    refine (gives_apply denotes).trans ⟨?_, ?_⟩
    · rintro ⟨source', given', accepts, rfl⟩
      obtain rfl := given'.unique given
      exact ⟨by simpa using accepts, rfl⟩
    · rintro ⟨accepts, rfl⟩
      exact ⟨source, given, accepts ty List.mem_cons_self, rfl⟩
  | @cons inner innerTy conversions tys denotes' _ ih =>
    have behind (accepts : innerTy.accepts source.ty = true) :
        ty.accepts (Operand.computed innerTy).ty = ty.accepts source.ty := Ty.accepts_congr accepts ty
    refine (gives_apply denotes).trans ⟨?_, ?_⟩
    · rintro ⟨middle, given', accepts, rfl⟩
      obtain ⟨others, rfl⟩ := (ih denotes').mp given'
      rw [behind (others innerTy List.mem_cons_self)] at accepts
      exact ⟨List.forall_mem_cons.mpr ⟨accepts, others⟩, rfl⟩
    · rintro ⟨accepts, rfl⟩
      obtain ⟨first, others⟩ := List.forall_mem_cons.mp accepts
      refine ⟨.computed innerTy, (ih denotes').mpr ⟨others, rfl⟩, ?_, rfl⟩
      rwa [behind (others innerTy List.mem_cons_self)]

theorem gives_type_assign {op : Place} (given : (target.type table).Gives (.stored ty)) :
    ((Expr.assign target op value).type table).Gives operand ↔
      ∃ source, (value.type table).Gives source ∧ ty.isArray = false ∧
        ty.accepts source.ty = true ∧ operand = .computed ty := by
  simp only [Expr.type, gives_bind, gives_typeOfAssign]
  constructor
  · rintro ⟨left, given', source, valued, -, scalar, accepts, rfl⟩
    obtain rfl := given'.unique given
    exact ⟨source, valued, scalar, accepts, rfl⟩
  · rintro ⟨source, valued, scalar, accepts, rfl⟩
    exact ⟨_, given, source, valued, rfl, scalar, accepts, rfl⟩

/-- What is assigned is converted in any case. -/
theorem gives_assign_apply {op : Place} (given : (target.type table).Gives (.stored ty))
    (denotes : conversion.Denotes table ty) :
    ((Expr.assign target op (conversion.apply value)).type table).Gives operand ↔
      ((Expr.assign target op value).type table).Gives operand := by
  rw [gives_type_assign given, gives_type_assign given]
  constructor
  · rintro ⟨middle, valued, scalar, -, rfl⟩
    obtain ⟨source, valued, accepts, -⟩ := (gives_apply denotes).mp valued
    exact ⟨source, valued, scalar, accepts, rfl⟩
  · rintro ⟨source, valued, scalar, accepts, rfl⟩
    have self : ty.accepts ty = true := (Ty.accepts_congr accepts ty).trans accepts
    exact ⟨_, (gives_apply denotes).mpr ⟨source, valued, accepts, rfl⟩, scalar, self, rfl⟩

/-! ### Lexemes -/

/-- Conversion goes both ways and over any number of steps, and only void does not convert to itself.
So an operand behind casts is read as such, and accepted just if it converts to each of the types by
itself; it has the first of them then, and cannot be assigned to. And in front of a value, a cast to
the type of the left side makes no difference to an assignment. -/
theorem conversions_collapse (table : SymbolTable) (last : Lexeme) :
    (∀ target source : Ty, target.accepts source = source.accepts target) ∧
    (∀ first second third : Ty, first.accepts second = true → second.accepts third = true →
      first.accepts third = true) ∧
    (∀ ty : Ty, ty.accepts ty = true ↔ ty ≠ .void) ∧
    (∀ (expr : Expr) (source : Operand) (ts rest : List Lexeme) (conversion : Conversion)
      (conversions : List Conversion) (ty : Ty) (tys : List Ty),
      expr.Fronts ts rest → 7 ≤ expr.tightness → (expr.type table).result = .ok source →
      List.Forall₂ (Denotes table) (conversion :: conversions) (ty :: tys) →
        let read := Expr.parse last ((conversion :: conversions).flatMap lexemes ++ ts)
        read.2 = rest ∧ ∀ operand, (read.1.type table).result = .ok operand ↔
          (∀ ty' ∈ ty :: tys, ty'.accepts source.ty = true) ∧ operand = ⟨ty, false⟩) ∧
    ∀ (target value : Expr) (op : Place) (ts rest : List Lexeme) (conversion : Conversion) (ty : Ty),
      target.Formed → 1 ≤ target.tightness → (target.type table).result = .ok ⟨ty, true⟩ →
      conversion.Denotes table ty → value.Fronts ts rest → 7 ≤ value.tightness →
        let front := lexemesOf target.parts ++ [⟨.operator .assign, op⟩]
        let plain := Expr.parse last (front ++ ts)
        let converted := Expr.parse last (front ++ (conversion.lexemes ++ ts))
        plain.2 = rest ∧ converted.2 = rest ∧ ∀ operand,
          (plain.1.type table).result = .ok operand ↔ (converted.1.type table).result = .ok operand := by
  refine ⟨Ty.accepts_comm, fun _ _ _ => Ty.accepts_trans, fun _ => Ty.accepts_self_iff, ?_, ?_⟩
  · intro expr source ts rest conversion conversions ty tys fronts tight given denote
    obtain ⟨chain, -⟩ := fronts_applyAll denote fronts tight
    obtain ⟨denotes, denote⟩ := List.forall₂_cons.mp denote
    simp only
    rw [chain.parse_eq last]
    exact ⟨rfl, fun operand => gives_applyAll given denotes denote⟩
  · intro target value op ts rest conversion ty formed tight given denotes fronts tight'
    have gapless := (Expr.reports_type table target).gapless given
    have plain := fronts_assign formed gapless tight op fronts
    have converted := fronts_assign formed gapless tight op (fronts_apply denotes fronts tight')
    simp only [List.append_assoc, List.singleton_append]
    rw [plain.parse_eq last, converted.parse_eq last]
    exact ⟨rfl, rfl, fun operand => (gives_assign_apply given denotes).symm⟩

/-- With a real `x`, `(char)(int) x` is a `char`, and `x = (double) x` is as good as `x = x`. -/
theorem conversions_collapse_real :
    let table : SymbolTable := ⟨["x"], [⟨"x", .var, .double, .global, 0, 1, [], []⟩]⟩
    let at_ (index : Nat) : Place := ⟨index, ⟨index, index + 1⟩, 1⟩
    let operand : Lexeme := ⟨.identifier "x", at_ 6⟩
    let rest : List Lexeme := [⟨.delimiter .semicolon, at_ 7⟩]
    let character : Conversion := ⟨at_ 0, ⟨.char (at_ 1), .absent⟩, at_ 2⟩
    let integer : Conversion := ⟨at_ 3, ⟨.int (at_ 4), .absent⟩, at_ 5⟩
    let real : Conversion := ⟨at_ 3, ⟨.double (at_ 4), .absent⟩, at_ 5⟩
    let last : Lexeme := ⟨.endOfInput, at_ 8⟩
    let front : List Lexeme := [⟨.identifier "x", at_ 1⟩, ⟨.operator .assign, at_ 2⟩]
    ((Expr.parse last (character.lexemes ++ (integer.lexemes ++ operand :: rest))).1.type table).result =
      .ok ⟨.char, false⟩ ∧
    ∀ typed, ((Expr.parse last (front ++ operand :: rest)).1.type table).result = .ok typed ↔
      ((Expr.parse last (front ++ (real.lexemes ++ operand :: rest))).1.type table).result =
        .ok typed := by
  intro table at_ operand rest character integer real last front
  obtain ⟨-, -, -, chains, assignments⟩ := conversions_collapse table last
  let value : Expr := .reference ⟨"x", at_ 6⟩
  have fronts : value.Fronts (operand :: rest) rest := ⟨trivial, rfl, rfl, by
    refine stops_of_closed ?_ 0 _
    rintro t first
    obtain rfl := Option.some.inj first
    exact ⟨.semicolon, by decide, rfl⟩⟩
  have given : (value.type table).result = .ok (.stored .double) := rfl
  constructor
  · have denote : List.Forall₂ (Denotes table) [character, integer] [.char, .int] :=
      .cons ⟨trivial, rfl⟩ (.cons ⟨trivial, rfl⟩ .nil)
    obtain ⟨-, accepted⟩ := chains value (.stored .double) (operand :: rest) rest character [integer]
      .char [.int] fronts (by decide) given denote
    have typed := (accepted ⟨.char, false⟩).mpr ⟨by decide, rfl⟩
    simpa using typed
  · exact (assignments (.reference ⟨"x", at_ 1⟩) value (at_ 2) (operand :: rest) rest real .double trivial
      (by decide) rfl ⟨trivial, rfl⟩ fronts (by decide)).2.2

end Conversion

end PlainC
