import PlainC.Proofs.Checking.Gives
import PlainC.Proofs.Syntax.Formed
import PlainC.Size.Value

set_option autoImplicit false

/-!
Array sizes as exact arithmetic. A size has a value in whole numbers without bound, and operators that
are applied one after the other on the way to it. The check of a size gives this value just if all of
them can be applied, and else it fails at the first that cannot.
-/

namespace PlainC

namespace Integer

/-- The numbers of a signed word of 64 bits. -/
def Fits (n : Int) : Prop := -0x8000000000000000 ≤ n ∧ n ≤ 0x7fffffffffffffff

instance (n : Int) : Decidable (Fits n) := by
  unfold Fits
  infer_instance

theorem inRange_iff {n : Int} : inRange n = true ↔ Fits n := by
  rw [inRange, Bool.and_eq_true, decide_eq_true_eq, decide_eq_true_eq]
  rfl

/-! ### Literals -/

theorem digits_le {radix limit : Nat} {text : String} {tooLarge : LiteralError} {cs : List Char}
    {before n : Nat} (start : before ≤ limit)
    (read : digits radix limit text tooLarge before cs = .ok n) : n ≤ limit := by
  induction cs generalizing before with
  | nil =>
    obtain rfl := Except.ok.inj read
    exact start
  | cons c cs ih =>
    unfold digits at read
    split at read
    · cases read
    · split at read
      · cases read
      · exact ih (by omega) read

theorem fits_of_map {read : Except LiteralError Nat} {sign : Nat → Int} {value : Int}
    (fits : ∀ n, read = .ok n → Fits (sign n)) (decoded : read.map sign = .ok value) :
    Fits value := by
  cases read with
  | error error => cases decoded
  | ok n =>
    obtain rfl := Except.ok.inj decoded
    exact fits n rfl

/-- A literal with a value is a number of the word. -/
theorem fits_of_decode {text : String} {value : Int} (decoded : decode text = .ok value) :
    Fits value := by
  have positive {base : Nat} {cs : List Char} :
      ∀ n, digits base (maxMagnitude - 1) text (.outOfRange text) 0 cs = .ok n →
        Fits (Int.ofNat n) := by
    intro n read
    have le := digits_le (Nat.zero_le _) read
    simp only [maxMagnitude] at le
    simp only [Fits, Int.ofNat_eq_natCast]
    omega
  unfold decode at decoded
  simp only at decoded
  split at decoded
  · cases decoded
  · cases decoded
  · cases decoded
  · exact fits_of_map positive decoded
  · refine fits_of_map (fun n read => ?_) decoded
    have le := digits_le (Nat.zero_le _) read
    simp only [maxMagnitude] at le
    simp only [Fits, Int.ofNat_eq_natCast]
    omega
  · exact fits_of_map positive decoded

/-! ### Quotients and remainders -/

/-- Only one quotient leaves the range. -/
theorem fits_tdiv {l r : Int} (fits : Fits l)
    (other : ¬(l = -0x8000000000000000 ∧ r = -1)) : Fits (l.tdiv r) := by
  have small := Int.natAbs_tdiv_le_natAbs l r
  simp only [Fits] at fits ⊢
  by_cases least : l = -0x8000000000000000
  · by_cases zero : r = 0
    · simp [zero]
    by_cases one : r = 1
    · subst one least
      decide
    · have half : (l.tdiv r).natAbs ≤ l.natAbs / 2 := by
        rw [Int.natAbs_tdiv]
        exact Nat.div_le_div_left (by omega) (by decide)
      omega
  · omega

theorem fits_tmod {l r : Int} (fits : Fits l) : Fits (l.tmod r) := by
  have small : (l.tmod r).natAbs ≤ l.natAbs := by
    rw [Int.natAbs_tmod]
    exact Nat.mod_le _ _
  simp only [Fits] at fits ⊢
  rcases Int.le_total 0 l with nonneg | nonpos
  · have := Int.tmod_nonneg r nonneg
    omega
  · have := Int.tmod_nonneg r (Int.neg_nonneg_of_nonpos nonpos)
    rw [Int.neg_tmod] at this
    omega

end Integer

namespace Size

open Integer

/-- An operator that is applied to numbers on the way to the value. A minus sign takes its operand from
zero. -/
structure Operation where
  op : At Operator
  left : Int
  right : Int
  deriving DecidableEq, Repr

namespace Operation

/-- What the operation comes to without bound: quotients are cut off toward zero, and a remainder has
the sign of the dividend. -/
def result (operation : Operation) : Int :=
  match operation.op.value with
  | .minus => operation.left - operation.right
  | .star => operation.left * operation.right
  | .slash => operation.left.tdiv operation.right
  | .percent => operation.left.tmod operation.right
  | _ => operation.left + operation.right

def DividesByZero (operation : Operation) : Prop :=
  operation.op.value ∈ [Operator.slash, .percent] ∧ operation.right = 0

/-- The result leaves the range, or it is the remainder of the least number by -1. -/
def Overflows (operation : Operation) : Prop :=
  ¬Fits operation.result ∨
    operation.op.value = .percent ∧ operation.left = -0x8000000000000000 ∧ operation.right = -1

instance (operation : Operation) : Decidable operation.DividesByZero := by
  unfold DividesByZero
  infer_instance

instance (operation : Operation) : Decidable operation.Overflows := by
  unfold Overflows
  infer_instance

/-- The operation cannot be done. -/
def Fails (operation : Operation) : Prop := operation.DividesByZero ∨ operation.Overflows

instance (operation : Operation) : Decidable operation.Fails := by
  unfold Fails
  infer_instance

/-- Why the operation cannot be done, at its operator. -/
def fault (operation : Operation) : Fault :=
  ⟨.violation (if operation.DividesByZero then .sizeDividedByZero else .sizeOverflow),
    operation.op.place⟩

/-- What comes of the operation. -/
def outcome (operation : Operation) : Except Fault Int :=
  if operation.Fails then .error operation.fault else .ok operation.result

theorem fits_result {operation : Operation} (fine : ¬operation.Fails) : Fits operation.result := by
  simp only [Fails, Overflows, not_or, Decidable.not_not] at fine
  exact fine.2.1

end Operation

/-- All the literals have values. -/
def Decodes : Size → Prop
  | literal text => ∃ value, Integer.decode text.value = .ok value
  | signed _ operand => operand.Decodes
  | binary _ left right => left.Decodes ∧ right.Decodes
  | paren _ inner _ => inner.Decodes
  | missing _ => True

/-- The value in whole numbers without bound. -/
def exact : Size → Int
  | literal text => (Integer.decode text.value).toOption.getD 0
  | signed sign operand => if sign.value = .minus then -operand.exact else operand.exact
  | binary op left right => (Operation.mk op left.exact right.exact).result
  | paren _ inner _ => inner.exact
  | missing _ => 0

/-- The operators that are applied, operands first and from left to right. -/
def operations : Size → List Operation
  | literal _ | missing _ => []
  | signed sign operand =>
    operand.operations ++ if sign.value = .minus then [⟨sign, 0, operand.exact⟩] else []
  | binary op left right => left.operations ++ right.operations ++ [⟨op, left.exact, right.exact⟩]
  | paren _ inner _ => inner.operations

/-- The first operation that cannot be done. -/
def firstFailure? (size : Size) : Option Operation :=
  size.operations.find? fun operation => operation.Fails

theorem firstFailure?_signed (sign : At Operator) (operand : Size) :
    (signed sign operand).firstFailure? = operand.firstFailure?.or
      ((if sign.value = .minus then [⟨sign, 0, operand.exact⟩] else []).find?
        fun operation => operation.Fails) := by
  simp only [firstFailure?, operations, List.find?_append]

theorem firstFailure?_binary (op : At Operator) (left right : Size) :
    (binary op left right).firstFailure? = left.firstFailure?.or (right.firstFailure?.or
      ([⟨op, left.exact, right.exact⟩].find? fun operation => operation.Fails)) := by
  simp only [firstFailure?, operations, List.find?_append, Option.or_assoc]

theorem not_fails_of_find? {operation : Operation}
    (none : ([operation].find? fun operation => operation.Fails) = none) : ¬operation.Fails := by
  simpa using none

/-- Where nothing fails, the value is a number of the word. -/
theorem fits_exact {size : Size} (decodes : size.Decodes) (fine : size.firstFailure? = none) :
    Fits size.exact := by
  induction size with
  | literal text =>
    obtain ⟨value, decoded⟩ := decodes
    rw [exact, decoded]
    exact fits_of_decode decoded
  | signed sign operand ih =>
    rw [firstFailure?_signed, Option.or_eq_none_iff] at fine
    rw [exact]
    by_cases negative : sign.value = .minus
    · rw [if_pos negative] at fine
      have fits := Operation.fits_result (not_fails_of_find? fine.2)
      simpa [Operation.result, negative] using fits
    · rw [if_neg negative]
      exact ih decodes fine.1
  | binary op left right =>
    simp only [firstFailure?_binary, Option.or_eq_none_iff] at fine
    exact Operation.fits_result (not_fails_of_find? fine.2.2)
  | paren _ inner _ ih => exact ih decodes fine
  | missing instead => exact (by decide : Fits 0)

/-! ### Outcomes -/

/-- What comes of a size by exact arithmetic. -/
def outcome (size : Size) : Except Fault Int :=
  match size.firstFailure? with
  | some operation => .error operation.fault
  | none => .ok size.exact

theorem outcome_signed (sign : At Operator) (operand : Size) :
    (signed sign operand).outcome = operand.outcome >>= fun value =>
      if sign.value = .minus then (Operation.mk sign 0 value).outcome else .ok value := by
  unfold outcome
  rw [firstFailure?_signed, exact]
  cases operand.firstFailure? with
  | some operation => rfl
  | none =>
    by_cases negative : sign.value = .minus
    · by_cases fails : (Operation.mk sign 0 operand.exact).Fails
      · simp [negative, fails, bind, Except.bind, Operation.outcome]
      · simp [negative, fails, bind, Except.bind, Operation.outcome, Operation.result]
    · simp [negative, bind, Except.bind]

theorem outcome_binary (op : At Operator) (left right : Size) :
    (binary op left right).outcome = left.outcome >>= fun l => right.outcome >>= fun r =>
      (Operation.mk op l r).outcome := by
  unfold outcome
  rw [firstFailure?_binary, exact]
  cases left.firstFailure? with
  | some operation => rfl
  | none =>
    cases right.firstFailure? with
    | some operation => rfl
    | none =>
      by_cases fails : (Operation.mk op left.exact right.exact).Fails
      · simp [fails, bind, Except.bind, Operation.outcome]
      · simp [fails, bind, Except.bind, Operation.outcome]

theorem outcome_eq_ok {size : Size} {value : Int} :
    size.outcome = .ok value ↔ size.firstFailure? = none ∧ size.exact = value := by
  unfold outcome
  cases size.firstFailure? <;> simp

theorem fits_of_outcome {size : Size} {value : Int} (decodes : size.Decodes)
    (gives : size.outcome = .ok value) : Fits value := by
  obtain ⟨fine, rfl⟩ := outcome_eq_ok.mp gives
  exact fits_exact decodes fine

/-- An operator on numbers of the word does what the exact operation does. -/
theorem result_apply (op : At Operator) {l r : Int} (known : 5 ≤ op.value.level) (fits : Fits l) :
    (atOperator op.place (apply op.value l r)).result = (Operation.mk op l r).outcome := by
  obtain ⟨op, place⟩ := op
  have checked (value : Int) : (atOperator place
      (if inRange value then .ok value else .error .sizeOverflow)).result =
        if Fits value then .ok value else .error ⟨.violation .sizeOverflow, place⟩ := by
    by_cases inside : Fits value
    · rw [if_pos inside, if_pos (inRange_iff.mpr inside)]
      rfl
    · rw [if_neg inside, if_neg (mt inRange_iff.mp inside)]
      rfl
  cases op with
  | plus | minus | star =>
    simp only [apply, checked, Operation.outcome, Operation.Fails, Operation.fault,
      Operation.DividesByZero, Operation.Overflows, Operation.result]
    split <;> simp [*]
  | slash =>
    by_cases zero : r = 0
    · subst zero
      rfl
    · simp only [apply, zero, if_false, checked, Operation.outcome, Operation.Fails,
        Operation.fault, Operation.DividesByZero, Operation.Overflows, Operation.result]
      split <;> simp [*]
  | percent =>
    by_cases zero : r = 0
    · subst zero
      rfl
    by_cases least : l = -0x8000000000000000 ∧ r = -1
    · obtain ⟨rfl, rfl⟩ := least
      rfl
    · have quotient := inRange_iff.mpr (fits_tdiv fits least)
      simp [apply, quotient, atOperator, Operation.outcome, Operation.Fails,
        Operation.DividesByZero, zero, Operation.Overflows, Operation.result, least, fits_tmod fits]
  | _ => simp [Operator.level] at known

/-- The check of a size is exact arithmetic. -/
theorem result_value {size : Size} (formed : size.Formed) (gapless : Gapless size.parts)
    (decodes : size.Decodes) : size.value.result = size.outcome := by
  induction size with
  | literal text =>
    obtain ⟨value, decoded⟩ := decodes
    rw [Size.value, decoded, outcome_eq_ok.mpr ⟨rfl, by rw [exact, decoded]⟩]
    rfl
  | signed sign operand ih =>
    rw [Size.value, Logged.result_bind, ih formed.2.1 gapless decodes, outcome_signed]
    refine bind_congr fun value => ?_
    unfold negateIf
    by_cases negative : sign.value = .minus
    · have applied := result_apply sign (l := 0) (r := value)
        (by simp [negative, Operator.level]) (by decide)
      rw [if_pos negative, if_pos negative, ← negative]
      exact applied
    · rw [if_neg negative, if_neg negative]
      rfl
  | binary op left right ihLeft ihRight =>
    obtain ⟨known, formedLeft, -, formedRight, -⟩ := formed
    simp only [parts, gapless_append] at gapless
    rw [Size.value, Logged.result_bind, ihLeft formedLeft gapless.1.1 decodes.1, outcome_binary]
    cases gives : left.outcome with
    | error fault => rfl
    | ok l =>
      change (right.value >>= fun r => atOperator op.place (apply op.value l r)).result = _
      rw [Logged.result_bind, ihRight formedRight gapless.2 decodes.2]
      exact bind_congr fun r => result_apply op known (fits_of_outcome decodes.1 gives)
  | paren opening inner closing ih =>
    cases closing with
    | missing => simp [parts] at gapless
    | found closing =>
      simp only [parts, Delimiter.part, Kind.part, gapless_append] at gapless
      have same : (paren opening inner (.found closing)).outcome = inner.outcome := rfl
      rw [Size.value, Logged.result_bind, ih formed gapless.1.2 decodes, same]
      cases inner.outcome <;> rfl
  | missing => simp [parts] at gapless

end Size

end PlainC
