import Mathlib.Computability.Language
import PlainC.Proofs.Scanning.Context

set_option autoImplicit false

/-!
Longest matches. The shapes of lexemes are regular languages, and what a pattern matches is the
longest front of a text in its language. A pattern is put together from others that each take all
they can, so this asks of the languages that nothing behind a shorter match can make up for it.
-/

open Computability

namespace PlainC

/-! ### Languages -/

/-- One character of a class. -/
def oneOf (cls : Char → Bool) : Language Char := {text | ∃ c, cls c = true ∧ text = [c]}

/-- Any number of characters of a class, and at least one. -/
def manyOf (cls : Char → Bool) : Language Char := oneOf cls * (oneOf cls)∗

/-- The given characters. -/
def spelled (text : String) : Language Char := {text.toList}

/-- The lengths of the fronts of a text that are in a language. -/
def frontLengths (language : Language Char) (cs : List Char) : Set Nat :=
  {n | ∃ text ∈ language, text <+: cs ∧ text.length = n}

section

variable {cls : Char → Bool} {language : Language Char} {c : Char} {text : List Char}

theorem cons_mem_oneOf_mul : c :: text ∈ oneOf cls * language ↔ cls c = true ∧ text ∈ language := by
  rw [Language.mem_mul]
  constructor
  · rintro ⟨_, ⟨d, passes, rfl⟩, behind, mem, same⟩
    obtain ⟨rfl, rfl⟩ := List.cons.inj same
    exact ⟨passes, mem⟩
  · rintro ⟨passes, mem⟩
    exact ⟨[c], ⟨c, passes, rfl⟩, text, mem, rfl⟩

theorem nil_notMem_oneOf_mul : [] ∉ oneOf cls * language := by
  rw [Language.mem_mul]
  rintro ⟨_, ⟨d, -, rfl⟩, behind, -, same⟩
  cases same

theorem mem_kstar_oneOf : text ∈ (oneOf cls)∗ ↔ ∀ c ∈ text, cls c = true := by
  induction text with
  | nil => simp [Language.nil_mem_kstar]
  | cons c text ih =>
    rw [← Language.one_add_self_mul_kstar_eq_kstar, Language.mem_add, Language.mem_one,
      cons_mem_oneOf_mul, ih, List.forall_mem_cons]
    simp

theorem mem_manyOf : text ∈ manyOf cls ↔ text ≠ [] ∧ ∀ c ∈ text, cls c = true := by
  cases text with
  | nil => exact iff_of_false nil_notMem_oneOf_mul fun absent => absent.1 rfl
  | cons c text => simp [manyOf, cons_mem_oneOf_mul, mem_kstar_oneOf]

/-- The texts of the language begin only with characters of a class. -/
def HeadsIn (language : Language Char) (cls : Char → Bool) : Prop :=
  ∀ c rest, c :: rest ∈ language → cls c = true

theorem HeadsIn.mono {cls' : Char → Bool} (h : HeadsIn language cls)
    (implied : ∀ c, cls c = true → cls' c = true) : HeadsIn language cls' :=
  fun c rest mem => implied c (h c rest mem)

theorem headsIn_oneOf_mul (cls : Char → Bool) (language : Language Char) :
    HeadsIn (oneOf cls * language) cls :=
  fun _ _ mem => (cons_mem_oneOf_mul.mp mem).1

theorem headsIn_manyOf (cls : Char → Bool) : HeadsIn (manyOf cls) cls := headsIn_oneOf_mul cls _

theorem HeadsIn.optional (h : HeadsIn language cls) : HeadsIn (1 + language) cls := by
  rintro c rest (empty | mem)
  · cases empty
  · exact h c rest mem

end

namespace Pattern

/-! ### Longest fronts -/

/-- What the pattern matches at the front of a text is in the language, and no front that is in it is
longer. -/
structure TakesLongest (pattern : Pattern) (language : Language Char) : Prop where
  among : ∀ {cs n}, pattern cs = some n → ∃ text ∈ language, text <+: cs ∧ text.length = n
  longest : ∀ {cs text}, text ∈ language → text <+: cs → ∃ n, pattern cs = some n ∧ text.length ≤ n

/-- Where a front of a text that is in the first language has something of the second one behind it,
either it is the longest one or what is behind it is empty. -/
def Decides (first second : Language Char) : Prop :=
  ∀ text ∈ first, ∀ longer ∈ first, ∀ behind ∈ second, ∀ cs,
    text ++ behind <+: cs → longer <+: cs → text.length < longer.length → behind = []

section

variable {pattern first second : Pattern} {language language' : Language Char}
  {cls : Char → Bool}

theorem TakesLongest.take_mem (h : pattern.TakesLongest language) {cs : List Char} {n : Nat}
    (found : pattern cs = some n) : cs.take n ∈ language := by
  obtain ⟨text, mem, begins, rfl⟩ := h.among found
  rwa [← List.prefix_iff_eq_take.mp begins]

theorem takesLongest_one (cls : Char → Bool) : TakesLongest (one cls) (oneOf cls) := by
  constructor
  · intro cs n found
    cases cs with
    | nil => cases found
    | cons c cs =>
      obtain ⟨passes, rfl⟩ : cls c = true ∧ 1 = n := by simpa [one] using found
      exact ⟨[c], ⟨c, passes, rfl⟩, by simp, rfl⟩
  · rintro cs _ ⟨c, passes, rfl⟩ ⟨rest, rfl⟩
    exact ⟨1, by simp [one, passes], Nat.le_refl 1⟩

theorem prefix_takeWhile {text cs : List Char} (all : ∀ c ∈ text, cls c = true)
    (begins : text <+: cs) : text <+: cs.takeWhile cls := by
  obtain ⟨rest, rfl⟩ := begins
  rw [List.takeWhile_append_of_pos all]
  exact List.prefix_append text _

theorem takesLongest_many (cls : Char → Bool) : TakesLongest (many cls) (manyOf cls) := by
  constructor
  · intro cs n found
    obtain ⟨some, rfl⟩ := many_eq_some_iff.mp found
    refine ⟨cs.takeWhile cls, mem_manyOf.mpr ⟨List.ne_nil_of_length_pos ?_, ?_⟩,
      List.takeWhile_prefix cls, rfl⟩
    · exact Nat.pos_of_ne_zero some
    · exact fun c among => List.mem_takeWhile_imp among
  · intro cs text mem begins
    obtain ⟨nonempty, all⟩ := mem_manyOf.mp mem
    have le := (prefix_takeWhile all begins).length_le
    have positive := List.length_pos_iff.mpr nonempty
    exact ⟨_, many_eq_some_iff.mpr ⟨by omega, rfl⟩, le⟩

theorem takesLongest_exactly (text : String) : TakesLongest (exactly text) (spelled text) := by
  constructor
  · intro cs n found
    obtain ⟨rfl, begins⟩ := exactly_eq_some_iff.mp found
    exact ⟨text.toList, rfl, begins, String.length_toList⟩
  · rintro cs _ rfl begins
    exact ⟨_, exactly_eq_some_iff.mpr ⟨rfl, begins⟩, String.length_toList.le⟩

theorem TakesLongest.optionally (h : pattern.TakesLongest language) :
    TakesLongest (optionally pattern) (1 + language) := by
  constructor
  · intro cs n found
    obtain rfl := Option.some.inj found
    cases taken : pattern cs with
    | none => exact ⟨[], Or.inl rfl, List.nil_prefix, rfl⟩
    | some m =>
      obtain ⟨text, mem, begins, length⟩ := h.among taken
      exact ⟨text, Or.inr mem, begins, length⟩
  · intro cs text mem begins
    refine ⟨_, rfl, ?_⟩
    rcases mem with (rfl : text = []) | mem
    · exact Nat.zero_le _
    · obtain ⟨n, found, le⟩ := h.longest mem begins
      rw [found]
      exact le

theorem TakesLongest.andThen (h : first.TakesLongest language)
    (decides : Decides language language') (h' : second.TakesLongest language') :
    TakesLongest (andThen first second) (language * language') := by
  constructor
  · intro cs n found
    obtain ⟨m, k, foundFirst, foundSecond, rfl⟩ := andThen_eq_some_iff.mp found
    obtain ⟨text, mem, ⟨rest, rfl⟩, rfl⟩ := h.among foundFirst
    rw [List.drop_left] at foundSecond
    obtain ⟨behind, mem', begins, rfl⟩ := h'.among foundSecond
    exact ⟨text ++ behind, Language.append_mem_mul mem mem',
      (List.prefix_append_right_inj text).mpr begins, List.length_append⟩
  · rintro cs _ ⟨text, mem, behind, mem', rfl⟩ begins
    obtain ⟨m, found, le⟩ := h.longest mem ((List.prefix_append text behind).trans begins)
    obtain ⟨longest, memLongest, front, rfl⟩ := h.among found
    -- the first pattern takes what is in front, or more than that and nothing is behind it
    have inside : behind <+: cs.drop longest.length := by
      rcases Nat.eq_or_lt_of_le le with same | lt
      · rw [← same]
        obtain ⟨rest, rfl⟩ := begins
        rw [List.append_assoc, List.drop_left]
        exact List.prefix_append behind rest
      · rw [decides text mem longest memLongest behind mem' cs begins front lt]
        exact List.nil_prefix
    obtain ⟨k, found', le'⟩ := h'.longest mem' inside
    refine ⟨_, andThen_eq_some_iff.mpr ⟨_, k, found, found', rfl⟩, ?_⟩
    rw [List.length_append]
    exact Nat.add_le_add le le'

/-! ### Languages in front of others -/

/-- What is as long as all others of its language leaves no choice. -/
theorem decides_of_length {length : Nat} (same : ∀ text ∈ language, text.length = length)
    (language' : Language Char) : Decides language language' := by
  intro text mem longer mem' behind _ cs _ _ lt
  rw [same text mem, same longer mem'] at lt
  exact absurd lt (Nat.lt_irrefl length)

theorem decides_oneOf (cls : Char → Bool) (language' : Language Char) :
    Decides (oneOf cls) language' :=
  decides_of_length (by rintro _ ⟨c, -, rfl⟩; rfl) language'

theorem decides_spelled (text : String) (language' : Language Char) :
    Decides (spelled text) language' :=
  decides_of_length (by rintro _ rfl; rfl) language'

/-- In the longer one of two fronts there is a further character where the shorter one ends. -/
theorem exists_cons_of_lt {text longer behind cs : List Char} (begins : text ++ behind <+: cs)
    (begins' : longer <+: cs) (lt : text.length < longer.length) :
    ∃ c more, longer = text ++ c :: more ∧ ∀ d ∈ behind.head?, d = c := by
  obtain ⟨more, rfl⟩ := List.prefix_of_prefix_length_le
    ((List.prefix_append text behind).trans begins) begins' (Nat.le_of_lt lt)
  cases more with
  | nil => simp at lt
  | cons c more =>
    refine ⟨c, more, rfl, fun d first => ?_⟩
    obtain ⟨behind, rfl⟩ := List.head?_eq_some_iff.mp first
    obtain ⟨rest, rfl⟩ := begins
    obtain ⟨rest', same⟩ := begins'
    simp only [List.append_assoc, List.append_cancel_left_eq, List.cons_append] at same
    exact (List.cons.inj same).1.symm

/-- Characters of a class, in front of what begins with no such character. -/
theorem decides_of_forall (all : ∀ text ∈ language, ∀ c ∈ text, cls c = true)
    (apart : HeadsIn language' fun c => !cls c) : Decides language language' := by
  intro text _ longer mem behind mem' cs begins begins' lt
  obtain ⟨c, more, rfl, same⟩ := exists_cons_of_lt begins begins' lt
  cases behind with
  | nil => rfl
  | cons d behind =>
    obtain rfl := same d rfl
    have passes := all _ mem d (by simp)
    simpa [passes] using apart d behind mem'

theorem decides_manyOf (apart : HeadsIn language' fun c => !cls c) :
    Decides (manyOf cls) language' :=
  decides_of_forall (fun _ mem => (mem_manyOf.mp mem).2) apart

theorem decides_optional (apart : HeadsIn language' fun c => !cls c) :
    Decides (1 + oneOf cls) language' := by
  refine decides_of_forall ?_ apart
  rintro _ (rfl | ⟨c, passes, rfl⟩)
  · exact List.forall_mem_nil _
  · exact List.forall_mem_singleton.mpr passes

end

end Pattern

end PlainC
