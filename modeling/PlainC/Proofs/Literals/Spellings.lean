import PlainC.Proofs.Scanning.Layout

set_option autoImplicit false

/-!
The spellings of literals. The lexeme of a literal is all that a pattern of its form takes, so its
parts are those of the pattern.
-/

namespace PlainC

namespace Pattern

/-- The pattern takes the whole text. -/
def Covers (pattern : Pattern) (cs : List Char) : Prop := pattern cs = some cs.length

section

variable {cls : Char → Bool} {first second : Pattern} {cs rest : List Char}

theorem Regular.covers (regular : Regular first) (found : first (cs ++ rest) = some cs.length) :
    first.Covers cs :=
  regular.shorten found (Nat.le_refl _)

theorem Fixed.covers (fixed : Fixed first) (found : first (cs ++ rest) = some cs.length) :
    first.Covers cs := by
  have alone := fixed cs rest [] found
  rwa [List.append_nil] at alone

theorem covers_one_iff : (one cls).Covers cs ↔ ∃ c, cs = [c] ∧ cls c = true := by
  cases cs with
  | nil => simp [Covers, one]
  | cons c cs =>
    simp only [Covers, one, Option.ite_none_right_eq_some, Option.some.injEq, List.length_cons]
    constructor
    · intro found
      obtain rfl := List.length_eq_zero_iff.mp (Nat.succ.inj found.2).symm
      exact ⟨c, rfl, found.1⟩
    · intro found
      obtain ⟨_, same, passes⟩ := found
      cases same
      exact ⟨passes, rfl⟩

theorem covers_many_iff : (many cls).Covers cs ↔ cs ≠ [] ∧ ∀ c ∈ cs, cls c = true := by
  unfold Covers
  rw [many_eq_some_iff, ne_eq, List.length_eq_zero_iff]
  have all : (cs.takeWhile cls).length = cs.length ↔ ∀ c ∈ cs, cls c = true := by
    rw [← List.takeWhile_eq_self_iff]
    exact ⟨(List.takeWhile_prefix cls).eq_of_length, congrArg List.length⟩
  rw [all]

theorem covers_exactly_iff {text : String} : (exactly text).Covers cs ↔ cs = text.toList := by
  unfold Covers
  rw [exactly_eq_some_iff, ← String.length_toList]
  constructor
  · intro found
    exact (found.2.eq_of_length found.1.symm).symm
  · intro same
    subst same
    exact ⟨rfl, List.prefix_refl _⟩

theorem Covers.of_optionally (h : (optionally first).Covers cs) : cs = [] ∨ first.Covers cs := by
  unfold Covers optionally at h
  cases found : first cs with
  | none =>
    rw [found] at h
    exact .inl (List.length_eq_zero_iff.mp (Option.some.inj h).symm)
  | some n =>
    rw [found] at h
    exact .inr (found.trans h)

/-- What two patterns cover is in two parts, if the first one takes no notice of what stands behind
its part. -/
theorem Covers.of_andThen
    (alone : ∀ {cs rest}, first (cs ++ rest) = some cs.length → first.Covers cs)
    (h : (andThen first second).Covers cs) :
    ∃ front behind, cs = front ++ behind ∧ first.Covers front ∧ second.Covers behind := by
  obtain ⟨n, m, foundFirst, foundSecond, length⟩ := andThen_eq_some_iff.mp h
  have front : (cs.take n).length = n := by
    rw [List.length_take]
    omega
  have behind : (cs.drop n).length = m := by
    rw [List.length_drop]
    omega
  have parts := List.take_append_drop n cs
  have first : first (cs.take n ++ cs.drop n) = some (cs.take n).length := by
    rw [parts, front]
    exact foundFirst
  refine ⟨cs.take n, cs.drop n, parts.symm, alone first, ?_⟩
  · rw [Covers, behind]
    exact foundSecond

end

/-! ### Numbers -/

theorem covers_digits_iff {cs : List Char} :
    digits.Covers cs ↔ cs ≠ [] ∧ ∀ c ∈ cs, isDigit c = true :=
  covers_many_iff

theorem Covers.hexInteger {cs : List Char} (h : hexInteger.Covers cs) :
    ∃ x hex, cs = '0' :: x :: hex ∧ (x = 'x' ∨ x = 'X') ∧ hex ≠ [] ∧
      ∀ c ∈ hex, isHexDigit c = true := by
  have opening : Regular (exactly "0") := regular_exactly (by decide) (by decide)
  have letter : Regular (one fun c => c = 'x' || c = 'X') := regular_one (by decide)
  obtain ⟨front, hex, rfl, mark, number⟩ :=
    of_andThen (opening.andThen (settled_exactly _) letter).covers h
  obtain ⟨zero, x, rfl, isZero, isLetter⟩ := mark.of_andThen opening.covers
  obtain rfl := covers_exactly_iff.mp isZero
  obtain ⟨x, rfl, isX⟩ := covers_one_iff.mp isLetter
  simp only [Bool.or_eq_true, decide_eq_true_eq] at isX
  exact ⟨x, hex, rfl, isX, covers_many_iff.mp number⟩

/-- An exponent is a letter with a whole number, which may have a sign. -/
theorem Covers.exponent {cs : List Char} (h : exponent.Covers cs) :
    ∃ e sign number, cs = e :: (sign ++ number) ∧ (e = 'e' ∨ e = 'E') ∧
      (sign = [] ∨ sign = ['+'] ∨ sign = ['-']) ∧ digits.Covers number := by
  have letter : Regular (one fun c => c = 'e' || c = 'E') := regular_one (by decide)
  have sign : Regular (one fun c => c = '+' || c = '-') := regular_one (by decide)
  obtain ⟨front, behind, rfl, isLetter, power⟩ := of_andThen letter.covers h
  obtain ⟨e, rfl, isE⟩ := covers_one_iff.mp isLetter
  obtain ⟨front, number, rfl, isSign, isNumber⟩ := power.of_andThen sign.optionally.covers
  simp only [Bool.or_eq_true, decide_eq_true_eq] at isE
  refine ⟨e, front, number, rfl, isE, ?_, isNumber⟩
  rcases isSign.of_optionally with none | some
  · exact .inl none
  · obtain ⟨c, rfl, isOne⟩ := covers_one_iff.mp some
    simp only [Bool.or_eq_true, decide_eq_true_eq] at isOne
    rcases isOne with rfl | rfl
    · exact .inr (.inl rfl)
    · exact .inr (.inr rfl)

theorem Covers.fractionReal {cs : List Char} (h : fractionReal.Covers cs) :
    ∃ whole fraction power, cs = whole ++ '.' :: (fraction ++ power) ∧ digits.Covers whole ∧
      digits.Covers fraction ∧ (power = [] ∨ Pattern.exponent.Covers power) := by
  have point : Regular (exactly ".") := regular_exactly (by decide) (by decide)
  have behindPoint := point.andThen (settled_exactly _) regular_digits
  have number := regular_digits.andThen settled_many behindPoint
  obtain ⟨front, power, rfl, isNumber, isPower⟩ := of_andThen number.covers h
  obtain ⟨whole, behind, rfl, isWhole, isBehind⟩ := isNumber.of_andThen regular_digits.covers
  obtain ⟨dot, fraction, rfl, isPoint, isFraction⟩ := isBehind.of_andThen point.covers
  obtain rfl := covers_exactly_iff.mp isPoint
  exact ⟨whole, fraction, power, by simp, isWhole, isFraction, isPower.of_optionally⟩

theorem Covers.exponentReal {cs : List Char} (h : exponentReal.Covers cs) :
    ∃ whole power, cs = whole ++ power ∧ digits.Covers whole ∧ Pattern.exponent.Covers power :=
  of_andThen regular_digits.covers h

/-! ### Quoted literals -/

theorem Covers.item {mark : Char} {cs : List Char} (h : (item mark).Covers cs) :
    (∃ letter, cs = ['\\', letter] ∧ isEscape letter = true) ∨
      ∃ c, cs = [c] ∧ isPlain mark c = true := by
  unfold Covers Pattern.item at h
  split at h
  · cases h
  · rename_i c rest
    rw [Option.ite_none_right_eq_some] at h
    obtain ⟨escape, length⟩ := h
    obtain rfl : rest = [] := List.length_eq_zero_iff.mp (by simpa using length)
    exact .inl ⟨c, rfl, escape⟩
  · rename_i c rest _
    rw [Option.ite_none_right_eq_some] at h
    obtain ⟨plain, length⟩ := h
    obtain rfl : rest = [] := List.length_eq_zero_iff.mp (by simpa using length)
    exact .inr ⟨c, rfl, plain⟩

theorem Covers.character {cs : List Char} (h : character.Covers cs) :
    ∃ inner, cs = '\'' :: (inner ++ ['\'']) ∧ (Pattern.item '\'').Covers inner := by
  have mark := fixed_exactly "'"
  obtain ⟨front, behind, rfl, isFront, isMark⟩ :=
    of_andThen (mark.andThen (fixed_item '\'')).covers h
  obtain ⟨opening, inner, rfl, isOpening, isItem⟩ := isFront.of_andThen mark.covers
  obtain rfl := covers_exactly_iff.mp isOpening
  obtain rfl := covers_exactly_iff.mp isMark
  exact ⟨inner, rfl, isItem⟩

theorem Covers.string {cs : List Char} (h : string.Covers cs) :
    ∃ inner, cs = '"' :: (inner ++ ['"']) ∧ items '"' (inner ++ ['"']) = inner.length := by
  unfold Pattern.string at h
  rw [andThen_assoc] at h
  obtain ⟨opening, behind, rfl, isOpening, isBehind⟩ := h.of_andThen (fixed_exactly "\"").covers
  obtain rfl := covers_exactly_iff.mp isOpening
  -- the items in front of the mark are found in front of it only, so they are cut off by length
  obtain ⟨n, m, isItems, isMark, length⟩ := andThen_eq_some_iff.mp isBehind
  obtain ⟨rfl, closes⟩ := exactly_eq_some_iff.mp isMark
  have closing : behind.drop n = "\"".toList := by
    refine (closes.eq_of_length ?_).symm
    rw [String.length_toList, List.length_drop]
    omega
  have parts : behind = behind.take n ++ ['"'] := by
    have whole := List.take_append_drop n behind
    rw [closing] at whole
    exact whole.symm
  have taken : (behind.take n).length = n := by
    rw [List.length_take]
    omega
  refine ⟨behind.take n, congrArg ('"' :: ·) parts, ?_⟩
  rw [← parts, taken]
  exact Option.some.inj isItems

end Pattern

/-! ### Literals -/

/-- The patterns of the literals of each form. -/
def LiteralForm.patterns : LiteralForm → List Pattern
  | integer => [Pattern.hexInteger, Pattern.digits]
  | real => [Pattern.fractionReal, Pattern.exponentReal]
  | character => [Pattern.character]
  | string => [Pattern.string]

/-- A rule that makes literals has a pattern of their form, and their text is the lexeme. -/
theorem LexemeRule.pattern_mem {rule : LexemeRule} (mem : rule ∈ all) {form : LiteralForm}
    {lexeme text : String} (made : rule.kind lexeme = .literal form text) :
    rule.pattern ∈ form.patterns ∧ lexeme = text := by
  rcases List.mem_append.mp mem with front | mark
  · rcases List.mem_append.mp front with other | operator
    · simp only [List.mem_cons, List.not_mem_nil, or_false] at other
      rcases other with rfl | rfl | rfl | rfl | rfl | rfl | rfl | rfl | rfl | rfl
      case inr.inl =>
        change Kind.ofWord lexeme = _ at made
        unfold Kind.ofWord at made
        split at made <;> cases made
      all_goals
        cases made
        try exact ⟨by simp [LiteralForm.patterns], rfl⟩
    · obtain ⟨op, -, rfl⟩ := List.mem_map.mp operator
      cases made
  · obtain ⟨delimiter, -, rfl⟩ := List.mem_map.mp mark
    cases made

theorem LiteralForm.covers_fixed {form : LiteralForm} {pattern : Pattern}
    (mem : pattern ∈ form.patterns) {cs rest : List Char}
    (found : pattern (cs ++ rest) = some cs.length) : pattern.Covers cs := by
  cases form <;> simp only [patterns, List.mem_cons, List.not_mem_nil, or_false] at mem
  case integer =>
    rcases mem with rfl | rfl
    · exact Pattern.regular_hexInteger.covers found
    · exact Pattern.regular_digits.covers found
  case real =>
    rcases mem with rfl | rfl
    · exact Pattern.regular_fractionReal.covers found
    · exact Pattern.regular_exponentReal.covers found
  case character =>
    subst mem
    exact Pattern.fixed_character.covers found
  case string =>
    subst mem
    exact Pattern.fixed_string.covers found

/-- The lexeme of a literal is all that a pattern of its form takes. -/
theorem Kind.IsScanned.covers {form : LiteralForm} {text : String}
    (scanned : (Kind.literal form text).IsScanned) :
    ∃ pattern ∈ form.patterns, pattern.Covers text.toList := by
  obtain ⟨-, rest, -, matched⟩ := scanned
  obtain ⟨rule, mem, read⟩ := List.exists_of_findSome?_eq_some matched
  obtain ⟨found, made⟩ := LexemeRule.read?_eq_some_iff.mp read
  obtain ⟨isPattern, -⟩ := LexemeRule.pattern_mem mem made
  exact ⟨rule.pattern, isPattern, LiteralForm.covers_fixed isPattern found⟩

/-- An integer with a leading zero has no digit above seven. -/
theorem Kind.IsScanned.octal {text : String} (scanned : (Kind.literal .integer text).IsScanned) :
    hasBadOctalDigit text.toList = false := by
  obtain ⟨-, rest, noProblem, -⟩ := scanned
  by_contra bad
  rw [Bool.not_eq_false] at bad
  simp only [Kind.numberProblem?, bad, if_true] at noProblem
  split at noProblem <;> cases noProblem

end PlainC
