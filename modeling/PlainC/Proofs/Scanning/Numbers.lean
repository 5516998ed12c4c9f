import PlainC.Proofs.Literals.Spellings
import PlainC.Proofs.Scanning.Longest

set_option autoImplicit false

/-!
The languages of numbers. Where a digit stands, the scan matches the longest front of the text that is
in one of them; so a part of a number is matched only where the whole is none.
-/

open Computability

namespace PlainC

open Pattern

/-! ### Languages -/

def hexIntegers : Language Char :=
  spelled "0" * (oneOf (fun c => c = 'x' || c = 'X') * manyOf isHexDigit)

def exponents : Language Char :=
  oneOf (fun c => c = 'e' || c = 'E') * ((1 + oneOf fun c => c = '+' || c = '-') * manyOf isDigit)

def fractions : Language Char :=
  manyOf isDigit * (spelled "." * (manyOf isDigit * (1 + exponents)))

def exponentials : Language Char := manyOf isDigit * exponents

/-- All that is a number: hexadecimal digits behind their mark, digits with a fraction and perhaps an
exponent, digits with an exponent, and digits alone. -/
def numbers : Language Char := hexIntegers + fractions + exponentials + manyOf isDigit

/-- The marks of exponents. -/
theorem headsIn_exponents : HeadsIn exponents fun c => c = 'e' || c = 'E' := headsIn_oneOf_mul _ _

theorem headsIn_point (language : Language Char) :
    HeadsIn (spelled "." * language) fun c => c = '.' := by
  rintro c rest ⟨_, rfl, behind, -, same⟩
  exact decide_eq_true (List.cons.inj same).1.symm

theorem notDigit_of_exponentMark {c : Char} (h : (c = 'e' || c = 'E') = true) :
    (!isDigit c) = true := by
  rw [Bool.or_eq_true, decide_eq_true_eq, decide_eq_true_eq] at h
  rcases h with rfl | rfl <;> decide

theorem notDigit_of_point {c : Char} (h : decide (c = '.') = true) : (!isDigit c) = true := by
  obtain rfl := of_decide_eq_true h
  decide

theorem notSign_of_digit {c : Char} (h : isDigit c = true) : (!(c = '+' || c = '-')) = true := by
  rw [Bool.not_eq_true', Bool.eq_false_iff]
  intro sign
  rw [Bool.or_eq_true, decide_eq_true_eq, decide_eq_true_eq] at sign
  rcases sign with rfl | rfl <;> revert h <;> decide

namespace Pattern

theorem takesLongest_digits : TakesLongest digits (manyOf isDigit) := takesLongest_many isDigit

theorem takesLongest_hexInteger : TakesLongest hexInteger hexIntegers := by
  unfold hexInteger
  rw [andThen_assoc]
  exact (takesLongest_exactly "0").andThen (decides_spelled _ _)
    ((takesLongest_one _).andThen (decides_oneOf _ _) (takesLongest_many _))

theorem takesLongest_exponent : TakesLongest exponent exponents :=
  (takesLongest_one _).andThen (decides_oneOf _ _)
    ((takesLongest_one _).optionally.andThen
      (decides_optional ((headsIn_manyOf isDigit).mono fun _ => notSign_of_digit))
      takesLongest_digits)

theorem takesLongest_fractionReal : TakesLongest fractionReal fractions := by
  unfold fractionReal
  rw [andThen_assoc, andThen_assoc]
  exact takesLongest_digits.andThen
    (decides_manyOf ((headsIn_point _).mono fun _ => notDigit_of_point))
    ((takesLongest_exactly ".").andThen (decides_spelled _ _)
      (takesLongest_digits.andThen
        (decides_manyOf (headsIn_exponents.optional.mono fun _ => notDigit_of_exponentMark))
        takesLongest_exponent.optionally))

theorem takesLongest_exponentReal : TakesLongest exponentReal exponentials :=
  takesLongest_digits.andThen
    (decides_manyOf (headsIn_exponents.mono fun _ => notDigit_of_exponentMark))
    takesLongest_exponent

/-! ### Where a digit stands -/

variable {cs : List Char} {n m : Nat}

theorem notBlank_of_digit {c : Char} (h : isDigit c = true) : isBlank c = false := by
  refine Bool.eq_false_iff.mpr fun blank => ?_
  have apart : ∀ c ∈ gapStarts, isDigit c = false := by decide
  rw [apart c (List.mem_cons_of_mem _ (isSpace_of_isBlank blank))] at h
  cases h

theorem notWordStart_of_digit {c : Char} (h : isDigit c = true) : isWordStart c = false := by
  obtain ⟨-, high⟩ : '0' ≤ c ∧ c ≤ '9' := by simpa [isDigit] using h
  have above (d : Char) (gt : '9'.toNat < d.toNat) : ¬d ≤ c := fun le =>
    absurd (Nat.lt_of_lt_of_le gt le) (Nat.not_lt.mpr high)
  have other : c ≠ '_' := by
    rintro rfl
    exact above '_' (by decide) (Nat.le_refl _)
  simp [isWordStart, above 'a' (by decide), above 'A' (by decide), other]

theorem digits_isSome {c : Char} (digit : isDigit c = true) (cs : List Char) :
    ∃ m, digits (c :: cs) = some m :=
  ⟨_, many_eq_some_iff.mpr ⟨by simp [digit], rfl⟩⟩

theorem head_of_one {cls : Char → Bool} (found : one cls cs = some n) :
    ∃ c ∈ cs.head?, cls c = true := by
  obtain ⟨_, ⟨c, passes, rfl⟩, ⟨rest, rfl⟩, -⟩ := (takesLongest_one cls).among found
  exact ⟨c, rfl, passes⟩

/-- Behind the digits of a number with a fraction stands the point. -/
theorem head_of_fractionReal (found : fractionReal cs = some n) (count : digits cs = some m) :
    m ≤ n ∧ (cs.drop m).head? = some '.' := by
  unfold fractionReal at found
  rw [andThen_assoc, andThen_assoc] at found
  obtain ⟨m', k, count', tail, rfl⟩ := andThen_eq_some_iff.mp found
  obtain rfl := Option.some.inj (count.symm.trans count')
  obtain ⟨_, _, point, -, -⟩ := andThen_eq_some_iff.mp tail
  obtain ⟨-, rest, same⟩ := exactly_eq_some_iff.mp point
  refine ⟨Nat.le_add_right m k, ?_⟩
  rw [← same]
  rfl

/-- Behind the digits of a number without a fraction stands the mark of its exponent. -/
theorem head_of_exponentReal (found : exponentReal cs = some n) (count : digits cs = some m) :
    m ≤ n ∧ ∃ c ∈ (cs.drop m).head?, (c = 'e' || c = 'E') = true := by
  obtain ⟨m', k, count', tail, rfl⟩ := andThen_eq_some_iff.mp found
  obtain rfl := Option.some.inj (count.symm.trans count')
  obtain ⟨_, _, mark, -, -⟩ := andThen_eq_some_iff.mp tail
  exact ⟨Nat.le_add_right m k, head_of_one mark⟩

/-- Behind the zero of a hexadecimal number stands its mark. -/
theorem head_of_hexInteger (found : hexInteger cs = some n) (count : digits cs = some m) :
    m ≤ n ∧ ∃ c ∈ (cs.drop m).head?, (c = 'x' || c = 'X') = true := by
  unfold hexInteger at found
  rw [andThen_assoc] at found
  obtain ⟨_, k, zero, tail, rfl⟩ := andThen_eq_some_iff.mp found
  obtain ⟨rfl, rest, rfl⟩ := exactly_eq_some_iff.mp zero
  obtain ⟨_, _, mark, -, -⟩ := andThen_eq_some_iff.mp tail
  obtain ⟨c, first, isMark⟩ := head_of_one mark
  obtain ⟨rest, rfl⟩ : ∃ more, rest = c :: more := List.head?_eq_some_iff.mp first
  have notDigit : isDigit c = false := by
    rw [Bool.or_eq_true, decide_eq_true_eq, decide_eq_true_eq] at isMark
    rcases isMark with rfl | rfl <;> decide
  have single : digits ("0".toList ++ c :: rest) = some 1 := by
    refine many_eq_some_iff.mpr ⟨by decide, ?_⟩
    have zeroDigit : isDigit '0' = true := by decide
    simp [notDigit, zeroDigit]
  obtain rfl := Option.some.inj (count.symm.trans single)
  exact ⟨Nat.le_add_right 1 k, c, rfl, isMark⟩

theorem notExponentMark_of_hexMark {c : Char} (h : (c = 'x' || c = 'X') = true) :
    ¬(c = 'e' || c = 'E') = true := by
  rw [Bool.or_eq_true, decide_eq_true_eq, decide_eq_true_eq] at h
  rcases h with rfl | rfl <;> decide

/-- Only one of the patterns of marked numbers matches. -/
theorem fractionReal_of_hexInteger (found : hexInteger cs = some n) (count : digits cs = some m) :
    fractionReal cs = none := by
  rw [Option.eq_none_iff_forall_ne_some]
  intro k fraction
  obtain ⟨-, c, first, isMark⟩ := head_of_hexInteger found count
  obtain rfl := Option.some.inj ((head_of_fractionReal fraction count).2.symm.trans first)
  revert isMark
  decide

theorem exponentReal_of_hexInteger (found : hexInteger cs = some n) (count : digits cs = some m) :
    exponentReal cs = none := by
  rw [Option.eq_none_iff_forall_ne_some]
  intro k exponent
  obtain ⟨-, c, first, isMark⟩ := head_of_hexInteger found count
  obtain ⟨-, d, second, isMark'⟩ := head_of_exponentReal exponent count
  obtain rfl := Option.some.inj (first.symm.trans second)
  exact notExponentMark_of_hexMark isMark isMark'

theorem exponentReal_of_fractionReal (found : fractionReal cs = some n)
    (count : digits cs = some m) : exponentReal cs = none := by
  rw [Option.eq_none_iff_forall_ne_some]
  intro k exponent
  obtain ⟨-, c, first, isMark⟩ := head_of_exponentReal exponent count
  obtain rfl := Option.some.inj ((head_of_fractionReal found count).2.symm.trans first)
  revert isMark
  decide

/-- A number is no longer than what one of the patterns of numbers matches. -/
theorem mem_upperBounds_numbers (hex : ∀ k, hexInteger cs = some k → k ≤ n)
    (fraction : ∀ k, fractionReal cs = some k → k ≤ n)
    (exponent : ∀ k, exponentReal cs = some k → k ≤ n) (plain : ∀ k, digits cs = some k → k ≤ n) :
    n ∈ upperBounds (frontLengths numbers cs) := by
  rintro _ ⟨text, ((isHex | isFraction) | isExponential) | isDigits, begins, rfl⟩
  · obtain ⟨k, found, le⟩ := takesLongest_hexInteger.longest isHex begins
    exact le.trans (hex k found)
  · obtain ⟨k, found, le⟩ := takesLongest_fractionReal.longest isFraction begins
    exact le.trans (fraction k found)
  · obtain ⟨k, found, le⟩ := takesLongest_exponentReal.longest isExponential begins
    exact le.trans (exponent k found)
  · obtain ⟨k, found, le⟩ := takesLongest_digits.longest isDigits begins
    exact le.trans (plain k found)

end Pattern

/-- Where a digit stands, the longest number is matched, as an integer or as a real. -/
theorem LexemeRule.firstMatch_digit {c : Char} (digit : isDigit c = true) (cs : List Char) :
    ∃ form n, (form = .integer ∨ form = .real) ∧
      firstMatch (c :: cs) = some (.literal form (String.ofList ((c :: cs).take n)), n) ∧
      IsGreatest (frontLengths numbers (c :: cs)) n := by
  obtain ⟨m, count⟩ := digits_isSome digit cs
  have notBlank : blanks (c :: cs) = none := by simp [blanks, many, notBlank_of_digit digit]
  have notWord : word (c :: cs) = none := by simp [word, andThen, one, notWordStart_of_digit digit]
  have plain {n : Nat} (le : m ≤ n) : ∀ k, digits (c :: cs) = some k → k ≤ n := by
    rintro k found
    rwa [← Option.some.inj (count.symm.trans found)]
  have same {pattern : Pattern} {n : Nat} (found : pattern (c :: cs) = some n) :
      ∀ k, pattern (c :: cs) = some k → k ≤ n :=
    fun k found' => (Option.some.inj (found'.symm.trans found)).le
  have absent {pattern : Pattern} (fails : pattern (c :: cs) = none) {n : Nat} :
      ∀ k, pattern (c :: cs) = some k → k ≤ n := by
    intro k found
    cases fails.symm.trans found
  -- the patterns are tried in the order of the rules; the first to match also matches the most
  cases hex : hexInteger (c :: cs) with
  | some n =>
    have fraction := fractionReal_of_hexInteger hex count
    have exponent := exponentReal_of_hexInteger hex count
    obtain ⟨text, mem, front⟩ := takesLongest_hexInteger.among hex
    refine ⟨.integer, n, .inl rfl, ?_, ⟨text, Or.inl (Or.inl (Or.inl mem)), front⟩,
      mem_upperBounds_numbers (same hex) (absent fraction) (absent exponent)
        (plain (head_of_hexInteger hex count).1)⟩
    simp only [firstMatch, all, List.cons_append, List.findSome?_cons, read?, notBlank, notWord, hex]
    rfl
  | none =>
    cases fraction : fractionReal (c :: cs) with
    | some n =>
      have exponent := exponentReal_of_fractionReal fraction count
      obtain ⟨text, mem, front⟩ := takesLongest_fractionReal.among fraction
      refine ⟨.real, n, .inr rfl, ?_, ⟨text, Or.inl (Or.inl (Or.inr mem)), front⟩,
        mem_upperBounds_numbers (absent hex) (same fraction) (absent exponent)
          (plain (head_of_fractionReal fraction count).1)⟩
      simp only [firstMatch, all, List.cons_append, List.findSome?_cons, read?, notBlank, notWord, hex,
        fraction]
      rfl
    | none =>
      cases exponent : exponentReal (c :: cs) with
      | some n =>
        obtain ⟨text, mem, front⟩ := takesLongest_exponentReal.among exponent
        refine ⟨.real, n, .inr rfl, ?_, ⟨text, Or.inl (Or.inr mem), front⟩,
          mem_upperBounds_numbers (absent hex) (absent fraction) (same exponent)
            (plain (head_of_exponentReal exponent count).1)⟩
        simp only [firstMatch, all, List.cons_append, List.findSome?_cons, read?, notBlank, notWord,
          hex, fraction, exponent]
        rfl
      | none =>
        obtain ⟨text, mem, front⟩ := takesLongest_digits.among count
        refine ⟨.integer, m, .inl rfl, ?_, ⟨text, Or.inr mem, front⟩,
          mem_upperBounds_numbers (absent hex) (absent fraction) (absent exponent)
            (plain (Nat.le_refl m))⟩
        simp only [firstMatch, all, List.cons_append, List.findSome?_cons, read?, notBlank, notWord,
          hex, fraction, exponent, count]
        rfl

end PlainC
