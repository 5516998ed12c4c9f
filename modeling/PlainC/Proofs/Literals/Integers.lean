import Mathlib.Data.Nat.Digits.Defs
import PlainC.Literal.Integer
import PlainC.Proofs.Literals.Spellings

set_option autoImplicit false

/-!
The values of integers: what their digits are worth, each by its position, up to the greatest value
of the word.
-/

namespace PlainC

namespace Integer

/-! ### Digits by position -/

/-- The digits, in the order of what they are worth. -/
def numerals : List Char :=
  ['0', '1', '2', '3', '4', '5', '6', '7', '8', '9', 'a', 'b', 'c', 'd', 'e', 'f']

/-- What a digit is worth; a capital letter is worth as much as a small one. -/
def worth (c : Char) : Nat := numerals.idxOf c.toLower

/-- A digit in a radix. -/
def IsDigit (radix : Nat) (c : Char) : Prop := worth c < radix

instance (radix : Nat) (c : Char) : Decidable (IsDigit radix c) :=
  inferInstanceAs (Decidable (worth c < radix))

/-- The number of digits in a radix, of which the last one counts the ones. -/
def positional (radix : Nat) (cs : List Char) : Nat :=
  Nat.ofDigits radix (cs.reverse.map worth)

/-- The spellings of integers, each with its radix and its digits: hexadecimal ones behind a zero
and a letter, a single zero and decimal ones without a leading zero, and octal ones behind a zero. -/
inductive Spelling : List Char → Nat → List Char → Prop
  | hexadecimal {x cs} : x = 'x' ∨ x = 'X' → cs ≠ [] → (∀ c ∈ cs, IsDigit 16 c) →
      Spelling ('0' :: x :: cs) 16 cs
  | zero : Spelling ['0'] 10 ['0']
  | decimal {c cs} : c ≠ '0' → (∀ d ∈ c :: cs, IsDigit 10 d) → Spelling (c :: cs) 10 (c :: cs)
  | octal {cs} : cs ≠ [] → (∀ c ∈ cs, IsDigit 8 c) → Spelling ('0' :: cs) 8 cs

@[simp]
theorem positional_nil (radix : Nat) : positional radix [] = 0 := rfl

theorem positional_cons (radix : Nat) (c : Char) (cs : List Char) :
    positional radix (c :: cs) = worth c * radix ^ cs.length + positional radix cs := by
  simp [positional, Nat.ofDigits_append, Nat.add_comm, Nat.mul_comm]

/-! ### One digit -/

theorem lt_of_isDigit {c : Char} (h : IsDigit 16 c) : c.toNat < 128 := by
  have small : c.toLower ∈ numerals := List.idxOf_lt_length_iff.mp h
  have codes : ∀ d ∈ numerals, d.toNat < 128 := by simp [numerals]
  have lower := codes _ small
  unfold Char.toLower at lower
  split at lower
  · rename_i capital
    have high : c.toNat ≤ 90 := capital.2
    omega
  · exact lower

/-- The digits of a number are those that its radix has. -/
theorem digitValue?_of_isDigit {radix : Nat} (known : radix ∈ [8, 10, 16]) {c : Char}
    (h : IsDigit radix c) : digitValue? radix c = some (worth c) := by
  have codes : ∀ radix ∈ [8, 10, 16], ∀ code < 128, worth (Char.ofNat code) < radix →
      digitValue? radix (Char.ofNat code) = some (worth (Char.ofNat code)) := by
    decide +kernel
  have bounds : ∀ radix ∈ [8, 10, 16], radix ≤ 16 := by decide
  have small := lt_of_isDigit (Nat.lt_of_lt_of_le h (bounds radix known))
  rw [← Char.ofNat_toNat c] at h ⊢
  exact codes radix known c.toNat small h

theorem isDigit_of_codes {p : Char → Bool} {radix : Nat}
    (codes : ∀ code < 128, p (Char.ofNat code) = true → worth (Char.ofNat code) < radix) {c : Char}
    (small : c.toNat < 128) (h : p c = true) : IsDigit radix c := by
  rw [← Char.ofNat_toNat c] at h ⊢
  exact codes c.toNat small h

theorem isDigit_of_hexDigit {c : Char} (h : Pattern.isHexDigit c = true) : IsDigit 16 c := by
  refine isDigit_of_codes (by decide +kernel) ?_ h
  simp only [Pattern.isHexDigit, Pattern.isDigit, Bool.or_eq_true, Bool.and_eq_true,
    decide_eq_true_eq] at h
  rcases h with (digit | small) | capital
  · exact Nat.lt_of_le_of_lt digit.2 (by decide)
  · exact Nat.lt_of_le_of_lt small.2 (by decide)
  · exact Nat.lt_of_le_of_lt capital.2 (by decide)

theorem isDigit_of_digit {c : Char} (h : Pattern.isDigit c = true) : IsDigit 10 c := by
  refine isDigit_of_codes (by decide +kernel) ?_ h
  simp only [Pattern.isDigit, Bool.and_eq_true, decide_eq_true_eq] at h
  exact Nat.lt_of_le_of_lt h.2 (by decide)

theorem isDigit_of_octalDigit {c : Char} (h : Pattern.isDigit c = true) (low : ¬c > '7') :
    IsDigit 8 c := by
  have both : (Pattern.isDigit c && !decide (c > '7')) = true := by simp [h, low]
  refine isDigit_of_codes (p := fun c => Pattern.isDigit c && !decide (c > '7'))
    (by decide +kernel) ?_ both
  simp only [Pattern.isDigit, Bool.and_eq_true, decide_eq_true_eq] at h
  exact Nat.lt_of_le_of_lt h.2 (by decide)

/-! ### All digits -/

/-- The digits are read as their number, unless this is above the limit. -/
theorem digits_eq {radix : Nat} (known : radix ∈ [8, 10, 16]) (limit : Nat) (text : String)
    (tooLarge : LiteralError) {cs : List Char} (h : ∀ c ∈ cs, IsDigit radix c) :
    ∀ {before : Nat}, before ≤ limit → digits radix limit text tooLarge before cs =
      if before * radix ^ cs.length + positional radix cs ≤ limit then
        .ok (before * radix ^ cs.length + positional radix cs)
      else .error tooLarge := by
  have positive : 0 < radix := by
    have bounds : ∀ radix ∈ [8, 10, 16], 0 < radix := by decide
    exact bounds radix known
  induction cs with
  | nil =>
    intro before le
    simp [digits, le]
  | cons c cs ih =>
    intro before le
    have first := digitValue?_of_isDigit known (h c List.mem_cons_self)
    have sum : before * radix ^ (c :: cs).length + positional radix (c :: cs) =
        (before * radix + worth c) * radix ^ cs.length + positional radix cs := by
      rw [positional_cons, List.length_cons, Nat.pow_succ]
      ring
    rw [sum, digits, first]
    by_cases exceeds : before * radix + worth c > limit
    · have more : before * radix + worth c ≤
          (before * radix + worth c) * radix ^ cs.length :=
        Nat.le_mul_of_pos_right _ (Nat.pow_pos positive)
      simp only [exceeds, if_true]
      rw [if_neg (by omega)]
    · simp only [exceeds, if_false]
      exact ih (fun d mem => h d (List.mem_cons_of_mem c mem)) (Nat.le_of_not_lt exceeds)

/-! ### Spellings -/

namespace Spelling

variable {cs number : List Char} {base : Nat}

theorem radix_mem (spelled : Spelling cs base number) : base ∈ [8, 10, 16] := by
  cases spelled <;> decide

theorem isDigit (spelled : Spelling cs base number) : ∀ c ∈ number, IsDigit base c := by
  cases spelled with
  | hexadecimal letter some isDigit => exact isDigit
  | zero =>
    simp only [List.mem_singleton, forall_eq]
    decide
  | decimal other isDigit => exact isDigit
  | octal some isDigit => exact isDigit

theorem ne_nil (spelled : Spelling cs base number) : number ≠ [] := by
  cases spelled with
  | hexadecimal letter some isDigit => exact some
  | zero => exact List.cons_ne_nil _ _
  | decimal other isDigit => exact List.cons_ne_nil _ _
  | octal some isDigit => exact some

theorem radix_eq (spelled : Spelling cs base number) : radix cs = (base, number) := by
  cases spelled with
  | hexadecimal letter some isDigit =>
    rcases letter with rfl | rfl
    · rfl
    · rfl
  | zero => rfl
  | decimal other isDigit => simp [radix, other]
  | octal some isDigit =>
    cases number with
    | nil => exact absurd rfl some
    | cons c number =>
      have digit := isDigit c List.mem_cons_self
      have small : c ≠ 'x' := by
        rintro rfl
        revert digit
        decide
      have capital : c ≠ 'X' := by
        rintro rfl
        revert digit
        decide
      simp [radix]

end Spelling

/-- An integer has the value of its digits, or it is out of range. -/
theorem decode_eq {text : String} {base : Nat} {number : List Char}
    (spelled : Spelling text.toList base number) : decode text =
      if positional base number ≤ maxMagnitude - 1 then .ok (positional base number)
      else .error (.outOfRange text) := by
  have isDigit := spelled.isDigit
  have value := digits_eq spelled.radix_mem (maxMagnitude - 1) text (.outOfRange text)
    isDigit (Nat.zero_le _)
  simp only [Nat.zero_mul, Nat.zero_add] at value
  have known := spelled.radix_mem
  have some := spelled.ne_nil
  unfold decode
  rw [spelled.radix_eq]
  simp only
  cases number with
  | nil => exact absurd rfl some
  | cons c number =>
    have first := digitValue?_of_isDigit known (isDigit c List.mem_cons_self)
    have noSign : ∀ sign ∈ ['+', '-'], digitValue? base sign = none := by simp [digitValue?]
    have plus : c ≠ '+' := by
      rintro rfl
      cases first.symm.trans (noSign '+' (by decide))
    have minus : c ≠ '-' := by
      rintro rfl
      cases first.symm.trans (noSign '-' (by decide))
    simp [plus, minus, value]
    split <;> rfl

/-- The lexeme of an integer is spelled as one. -/
theorem exists_spelling {text : String} (scanned : (Kind.literal .integer text).IsScanned) :
    ∃ base number, Spelling text.toList base number := by
  obtain ⟨pattern, mem, covers⟩ := scanned.covers
  simp only [LiteralForm.patterns, List.mem_cons, List.not_mem_nil, or_false] at mem
  rcases mem with rfl | rfl
  · obtain ⟨x, hex, same, letter, some, isHex⟩ := covers.hexInteger
    rw [same]
    exact ⟨16, hex, .hexadecimal letter some fun c mem => isDigit_of_hexDigit (isHex c mem)⟩
  · obtain ⟨some, isDigit⟩ := Pattern.covers_digits_iff.mp covers
    have low := scanned.octal
    cases whole : text.toList with
    | nil => exact absurd whole some
    | cons c cs =>
      rw [whole] at isDigit low
      by_cases zero : c = '0'
      · subst zero
        by_cases alone : cs = []
        · subst alone
          exact ⟨10, ['0'], .zero⟩
        · refine ⟨8, cs, .octal alone fun d mem => ?_⟩
          have digit := isDigit d (List.mem_cons_of_mem _ mem)
          refine isDigit_of_octalDigit digit fun high => ?_
          have bad : hasBadOctalDigit ('0' :: cs) = true := by
            simp only [hasBadOctalDigit, List.head?_cons, decide_true, Bool.true_and,
              Bool.and_eq_true, List.all_eq_true, List.any_eq_true, decide_eq_true_eq]
            exact ⟨isDigit, d, List.mem_cons_of_mem _ mem, high⟩
          cases bad.symm.trans low
      · exact ⟨10, c :: cs, .decimal zero fun d mem => isDigit_of_digit (isDigit d mem)⟩

end Integer

end PlainC
