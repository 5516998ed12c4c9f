import PlainC.Proofs.Scanning.Step

set_option autoImplicit false

/-!
Patterns whose match depends on the text that they match and on no more than the first character
behind it, with which the match can go on: white space and the beginning of a comment put an end to
it.
-/

namespace PlainC

/-- The slash, with which a comment begins, and white space. -/
def gapStarts : List Char := ['/', ' ', '\t', '\r', '\n', '\x0c', '\x0b']

instance (p : Char → Prop) [DecidablePred p] : Decidable (∀ c ∈ gapStarts, p c) :=
  List.decidableBAll p gapStarts

/-- The text is empty or begins as a gap does. -/
def StartsGap (after : List Char) : Prop := ∀ c ∈ after.head?, c ∈ gapStarts

namespace Pattern

/-- The match of the pattern is found in the matched text alone, there still is a match if more text
follows, and a gap behind the text changes nothing. -/
structure Regular (pattern : Pattern) : Prop where
  le_length : ∀ {cs n}, pattern cs = some n → n ≤ cs.length
  shorten : ∀ {cs rest n}, pattern (cs ++ rest) = some n → n ≤ cs.length → pattern cs = some n
  extend : ∀ {cs n} (rest), pattern cs = some n → ∃ m, pattern (cs ++ rest) = some m
  total : ∀ {n}, pattern [] = some n → ∀ cs, ∃ m, pattern cs = some m
  stops : ∀ cs {after}, StartsGap after → pattern (cs ++ after) = pattern cs

/-- A match that ends within a text stays as it is if more text follows. -/
def Settled (pattern : Pattern) : Prop :=
  ∀ cs rest n, pattern cs = some n → n < cs.length → pattern (cs ++ rest) = some n

section

variable {cls : Char → Bool} {first second : Pattern}

/-! ### One character and many -/

theorem settled_one : Settled (one cls) := by
  intro cs rest n found lt
  cases cs with
  | nil => cases found
  | cons c cs => exact found

theorem settled_optionally_one : Settled (optionally (one cls)) := by
  intro cs rest n found lt
  cases cs with
  | nil => cases lt
  | cons c cs => exact found

theorem regular_one (apart : ∀ c ∈ gapStarts, cls c = false) : Regular (one cls) where
  le_length {cs n} found := by
    cases cs with
    | nil => cases found
    | cons c cs =>
      obtain ⟨-, rfl⟩ : cls c = true ∧ 1 = n := by simpa [one] using found
      exact Nat.le_add_left 1 cs.length
  shorten {cs rest n} found le := by
    cases cs with
    | nil =>
      obtain rfl := Nat.le_zero.mp le
      cases rest with
      | nil => cases found
      | cons c rest => simp [one] at found
    | cons c cs => exact found
  extend {cs n} rest found := by
    cases cs with
    | nil => cases found
    | cons c cs => exact ⟨n, found⟩
  total := nofun
  stops cs {after} gap := by
    cases cs with
    | nil =>
      cases after with
      | nil => rfl
      | cons c after =>
        have refused := apart c (gap c rfl)
        simp [one, refused]
    | cons c cs => rfl

theorem many_eq_some_iff {cs : List Char} {n : Nat} :
    many cls cs = some n ↔ n ≠ 0 ∧ (cs.takeWhile cls).length = n := by
  unfold many
  split
  · rename_i none
    rw [none]
    constructor
    · nofun
    · rintro ⟨some, rfl⟩
      exact absurd rfl some
  · rename_i m length
    rw [length, Option.some.injEq]
    constructor
    · rintro rfl
      exact ⟨Nat.succ_ne_zero m, rfl⟩
    · rintro ⟨-, same⟩
      exact same

/-- The characters of the class take all of the text, or what follows does not matter. -/
theorem takeWhile_cases (cls : Char → Bool) (cs rest : List Char) :
    (cs.takeWhile cls = cs ∧ (cs ++ rest).takeWhile cls = cs ++ rest.takeWhile cls) ∨
      (cs ++ rest).takeWhile cls = cs.takeWhile cls := by
  rw [List.takeWhile_append]
  split
  · rename_i all
    exact .inl ⟨(List.takeWhile_prefix cls).eq_of_length all, rfl⟩
  · exact .inr rfl

theorem settled_many : Settled (many cls) := by
  intro cs rest n found lt
  obtain ⟨some, rfl⟩ := many_eq_some_iff.mp found
  rcases takeWhile_cases cls cs rest with ⟨all, -⟩ | same
  · rw [all] at lt
    exact absurd lt (Nat.lt_irrefl _)
  · exact many_eq_some_iff.mpr ⟨some, congrArg List.length same⟩

theorem regular_many (apart : ∀ c ∈ gapStarts, cls c = false) : Regular (many cls) where
  le_length {cs n} found := by
    obtain ⟨-, rfl⟩ := many_eq_some_iff.mp found
    exact (List.takeWhile_prefix cls).length_le
  shorten {cs rest n} found le := by
    obtain ⟨some, length⟩ := many_eq_some_iff.mp found
    refine many_eq_some_iff.mpr ⟨some, ?_⟩
    rcases takeWhile_cases cls cs rest with ⟨all, longer⟩ | same
    · rw [longer, List.length_append] at length
      rw [all]
      omega
    · rw [← same]
      exact length
  extend {cs n} rest found := by
    obtain ⟨some, rfl⟩ := many_eq_some_iff.mp found
    refine ⟨_, many_eq_some_iff.mpr ⟨?_, rfl⟩⟩
    rcases takeWhile_cases cls cs rest with ⟨all, longer⟩ | same
    · rw [all] at some
      rw [longer, List.length_append]
      omega
    · rwa [same]
  total := nofun
  stops cs {after} gap := by
    have none : after.takeWhile cls = [] := by
      cases after with
      | nil => rfl
      | cons c after => exact List.takeWhile_cons_of_neg (by simp [apart c (gap c rfl)])
    have same : (cs ++ after).takeWhile cls = cs.takeWhile cls := by
      rcases takeWhile_cases cls cs after with ⟨all, longer⟩ | same
      · rw [longer, none, List.append_nil, all]
      · exact same
    unfold many
    rw [same]

/-! ### Given characters -/

theorem settled_exactly (text : String) : Settled (exactly text) := by
  intro cs rest n found _
  obtain ⟨rfl, begins⟩ := exactly_eq_some_iff.mp found
  exact exactly_eq_some_iff.mpr ⟨rfl, begins.trans (List.prefix_append cs rest)⟩

theorem regular_exactly {text : String} (apart : ∀ c ∈ gapStarts, c ∉ text.toList)
    (some : text ≠ "") : Regular (exactly text) where
  le_length {cs n} found := by
    obtain ⟨rfl, begins⟩ := exactly_eq_some_iff.mp found
    rw [← String.length_toList]
    exact begins.length_le
  shorten {cs rest n} found le := by
    obtain ⟨rfl, begins⟩ := exactly_eq_some_iff.mp found
    refine exactly_eq_some_iff.mpr ⟨rfl, ?_⟩
    rw [← String.length_toList] at le
    exact List.prefix_of_prefix_length_le begins (List.prefix_append cs rest) le
  extend {cs n} rest found := by
    obtain ⟨rfl, begins⟩ := exactly_eq_some_iff.mp found
    exact ⟨_, exactly_eq_some_iff.mpr ⟨rfl, begins.trans (List.prefix_append cs rest)⟩⟩
  total {n} found := by
    obtain ⟨-, begins⟩ := exactly_eq_some_iff.mp found
    exact absurd (String.toList_eq_nil_iff.mp (List.prefix_nil.mp begins)) some
  stops cs {after} gap := by
    have same : text.toList <+: cs ++ after ↔ text.toList <+: cs := by
      refine ⟨fun begins => ?_, fun begins => begins.trans (List.prefix_append cs after)⟩
      rcases List.prefix_or_prefix_of_prefix begins (List.prefix_append cs after) with
        inside | ⟨more, longer⟩
      · exact inside
      · rw [← longer, List.prefix_append_right_inj] at begins
        cases more with
        | nil => exact ⟨[], by rw [← longer, List.append_nil, List.append_nil]⟩
        | cons c more =>
          obtain ⟨behind, rfl⟩ := begins
          exact absurd (by simp [← longer]) (apart c (gap c rfl))
    unfold exactly
    simp only [List.isPrefixOf_iff_prefix, same]

/-! ### One behind the other -/

theorem Settled.andThen (h : Settled first) (h' : Settled second) :
    Settled (Pattern.andThen first second) := by
  intro cs rest n found lt
  obtain ⟨m, k, foundFirst, foundSecond, rfl⟩ := andThen_eq_some_iff.mp found
  have within : m < cs.length := Nat.lt_of_le_of_lt (Nat.le_add_right m k) lt
  refine andThen_eq_some_iff.mpr ⟨m, k, h cs rest m foundFirst within, ?_, rfl⟩
  rw [List.drop_append_of_le_length (Nat.le_of_lt within)]
  apply h' _ rest k foundSecond
  rw [List.length_drop]
  omega

theorem Regular.andThen (h : Regular first) (settled : Settled first) (h' : Regular second) :
    Regular (Pattern.andThen first second) where
  le_length {cs n} found := by
    obtain ⟨m, k, foundFirst, foundSecond, rfl⟩ := andThen_eq_some_iff.mp found
    have le := h.le_length foundFirst
    have le' := h'.le_length foundSecond
    rw [List.length_drop] at le'
    omega
  shorten {cs rest n} found le := by
    obtain ⟨m, k, foundFirst, foundSecond, rfl⟩ := andThen_eq_some_iff.mp found
    have inside : m ≤ cs.length := Nat.le_of_add_right_le le
    rw [List.drop_append_of_le_length inside] at foundSecond
    refine andThen_eq_some_iff.mpr ⟨m, k, h.shorten foundFirst inside, ?_, rfl⟩
    apply h'.shorten foundSecond
    rw [List.length_drop]
    omega
  extend {cs n} rest found := by
    obtain ⟨m, k, foundFirst, foundSecond, rfl⟩ := andThen_eq_some_iff.mp found
    rcases Nat.lt_or_ge m cs.length with lt | ge
    · obtain ⟨k', longer⟩ := h'.extend rest foundSecond
      refine ⟨m + k', andThen_eq_some_iff.mpr ⟨m, k', settled cs rest m foundFirst lt, ?_, rfl⟩⟩
      rwa [List.drop_append_of_le_length (Nat.le_of_lt lt)]
    · -- the first pattern takes all of the text, so the second one can also match nothing
      obtain ⟨m', longer⟩ := h.extend rest foundFirst
      rw [List.drop_eq_nil_of_le ge] at foundSecond
      obtain ⟨k', found'⟩ := h'.total foundSecond ((cs ++ rest).drop m')
      exact ⟨m' + k', andThen_eq_some_iff.mpr ⟨m', k', longer, found', rfl⟩⟩
  total {n} found cs := by
    obtain ⟨m, k, foundFirst, foundSecond, rfl⟩ := andThen_eq_some_iff.mp found
    obtain ⟨m', found⟩ := h.total foundFirst cs
    rw [List.drop_nil] at foundSecond
    obtain ⟨k', found'⟩ := h'.total foundSecond (cs.drop m')
    exact ⟨m' + k', andThen_eq_some_iff.mpr ⟨m', k', found, found', rfl⟩⟩
  stops cs {after} gap := by
    unfold Pattern.andThen
    rw [h.stops cs gap]
    cases found : first cs with
    | none => rfl
    | some m =>
      simp only
      rw [List.drop_append_of_le_length (h.le_length found), h'.stops _ gap]

theorem optionally_eq_some_iff {cs : List Char} {n : Nat} :
    Pattern.optionally first cs = some n ↔ first cs = some n ∨ first cs = none ∧ n = 0 := by
  unfold Pattern.optionally
  cases first cs <;> simp [eq_comm]

theorem Regular.optionally (h : Regular first) : Regular (Pattern.optionally first) where
  le_length found := by
    rcases optionally_eq_some_iff.mp found with found | ⟨-, rfl⟩
    · exact h.le_length found
    · exact Nat.zero_le _
  shorten {cs rest n} found le := by
    rcases optionally_eq_some_iff.mp found with found | ⟨none, rfl⟩
    · exact optionally_eq_some_iff.mpr (.inl (h.shorten found le))
    · refine optionally_eq_some_iff.mpr (.inr ⟨?_, rfl⟩)
      cases found : first cs with
      | none => rfl
      | some m =>
        obtain ⟨m', longer⟩ := h.extend rest found
        cases none.symm.trans longer
  extend _ _ := ⟨_, rfl⟩
  total _ _ := ⟨_, rfl⟩
  stops cs {after} gap := by
    unfold Pattern.optionally
    rw [h.stops cs gap]

/-- What has no match in front of some text has none in front of a gap. -/
theorem Regular.none_again (h : Regular first) {cs rest after : List Char} (gap : StartsGap after)
    (none : first (cs ++ rest) = none) : first (cs ++ after) = .none := by
  rw [h.stops cs gap]
  cases found : first cs with
  | none => rfl
  | some n =>
    obtain ⟨m, longer⟩ := h.extend rest found
    cases none.symm.trans longer

/-- A text that is matched in front of another one is matched in front of a gap. -/
theorem Regular.some_again (h : Regular first) {cs rest after : List Char} (gap : StartsGap after)
    (some : first (cs ++ rest) = some cs.length) : first (cs ++ after) = .some cs.length := by
  rw [h.stops cs gap]
  exact h.shorten some (Nat.le_refl _)

end

/-! ### Words and numbers -/

theorem regular_word : Regular word :=
  (regular_one (by decide)).andThen settled_one (regular_many (by decide)).optionally

theorem regular_digits : Regular digits := regular_many (by decide)

theorem regular_hexInteger : Regular hexInteger :=
  ((regular_exactly (by decide) (by decide)).andThen (settled_exactly _)
    (regular_one (by decide))).andThen ((settled_exactly _).andThen settled_one)
    (regular_many (by decide))

theorem regular_exponent : Regular exponent :=
  (regular_one (by decide)).andThen settled_one
    ((regular_one (by decide)).optionally.andThen settled_optionally_one regular_digits)

theorem regular_fractionReal : Regular fractionReal :=
  (regular_digits.andThen settled_many ((regular_exactly (by decide) (by decide)).andThen
    (settled_exactly _) regular_digits)).andThen
    (settled_many.andThen ((settled_exactly _).andThen settled_many))
    regular_exponent.optionally

theorem regular_exponentReal : Regular exponentReal :=
  regular_digits.andThen settled_many regular_exponent

end Pattern

end PlainC
