import Mathlib.Data.List.TakeWhile
import PlainC.Token.Pattern

set_option autoImplicit false

/-!
What patterns match. The pattern of a token takes at least one character and stays on one line, and
a pattern of trivia takes white space or a whole comment.
-/

namespace PlainC

namespace Pattern

/-- The first `n` characters of a text are there, and no line feed is among them. -/
structure OneLine (cs : List Char) (n : Nat) : Prop where
  le_length : n ≤ cs.length
  noLineFeed : '\n' ∉ cs.take n

/-- Whatever the pattern matches is on one line and has at least so many characters. -/
def Inline (least : Nat) (pattern : Pattern) : Prop :=
  ∀ cs n, pattern cs = some n → least ≤ n ∧ OneLine cs n

namespace OneLine

variable {cs : List Char} {c : Char} {n m : Nat}

theorem zero (cs : List Char) : OneLine cs 0 := ⟨Nat.zero_le _, by simp⟩

theorem cons (other : c ≠ '\n') (h : OneLine cs n) : OneLine (c :: cs) (n + 1) := by
  refine ⟨Nat.succ_le_succ h.le_length, ?_⟩
  rw [List.take_succ_cons, List.mem_cons, not_or]
  exact ⟨other.symm, h.noLineFeed⟩

theorem add (first : OneLine cs n) (second : OneLine (cs.drop n) m) : OneLine cs (n + m) := by
  refine ⟨?_, ?_⟩
  · have left := first.le_length
    have right := second.le_length
    rw [List.length_drop] at right
    omega
  · rw [List.take_add, List.mem_append, not_or]
    exact ⟨first.noLineFeed, second.noLineFeed⟩

/-- A text that is found in front and has no line feed. -/
theorem of_append {text rest : List Char} (noLineFeed : '\n' ∉ text) :
    OneLine (text ++ rest) text.length :=
  ⟨by simp, by rwa [List.take_left]⟩

theorem takeWhile {cls : Char → Bool} (other : cls '\n' = false) (cs : List Char) :
    OneLine cs (cs.takeWhile cls).length := by
  have among : '\n' ∉ cs.takeWhile cls := fun mem => by
    have passes := List.mem_takeWhile_imp mem
    rw [other] at passes
    cases passes
  have parts := List.takeWhile_append_dropWhile (p := cls) (l := cs)
  rw [← parts]
  have line : OneLine (cs.takeWhile cls ++ cs.dropWhile cls) _ := of_append among
  simpa using line

end OneLine

theorem inline_one {cls : Char → Bool} (other : cls '\n' = false) : Inline 1 (one cls) := by
  intro cs n h
  cases cs with
  | nil => cases h
  | cons c cs =>
    simp only [one, Option.ite_none_right_eq_some, Option.some.injEq] at h
    obtain ⟨passes, rfl⟩ := h
    refine ⟨Nat.le_refl 1, .cons ?_ (.zero cs)⟩
    rintro rfl
    rw [other] at passes
    cases passes

theorem inline_many {cls : Char → Bool} (other : cls '\n' = false) : Inline 1 (many cls) := by
  intro cs n h
  unfold many at h
  split at h
  · cases h
  · rename_i m length
    obtain rfl := Option.some.inj h
    refine ⟨Nat.le_add_left 1 m, ?_⟩
    have line := OneLine.takeWhile other cs
    rwa [length] at line

theorem exactly_eq_some_iff {text : String} {cs : List Char} {n : Nat} :
    exactly text cs = some n ↔ n = text.length ∧ text.toList <+: cs := by
  unfold exactly
  rw [Option.ite_none_right_eq_some, List.isPrefixOf_iff_prefix, Option.some.injEq, and_comm,
    eq_comm (a := n)]

theorem inline_exactly {text : String} (other : '\n' ∉ text.toList) :
    Inline text.length (exactly text) := by
  intro cs n h
  obtain ⟨rfl, rest, rfl⟩ := exactly_eq_some_iff.mp h
  rw [← String.length_toList]
  exact ⟨Nat.le_refl _, .of_append other⟩

section

variable {least least' : Nat} {first second : Pattern}

theorem andThen_eq_some_iff {cs : List Char} {n : Nat} : andThen first second cs = some n ↔
    ∃ m k, first cs = some m ∧ second (cs.drop m) = some k ∧ n = m + k := by
  unfold andThen
  cases first cs with
  | none => simp
  | some m => simp [eq_comm]

theorem Inline.andThen (h : Inline least first) (h' : Inline least' second) :
    Inline (least + least') (Pattern.andThen first second) := by
  intro cs n found
  obtain ⟨m, k, foundFirst, foundSecond, rfl⟩ := andThen_eq_some_iff.mp found
  obtain ⟨le, line⟩ := h cs m foundFirst
  obtain ⟨le', line'⟩ := h' _ k foundSecond
  exact ⟨Nat.add_le_add le le', line.add line'⟩

theorem Inline.optionally (h : Inline least first) : Inline 0 (Pattern.optionally first) := by
  intro cs n found
  obtain rfl := Option.some.inj found
  refine ⟨Nat.zero_le _, ?_⟩
  cases taken : first cs with
  | none => exact .zero cs
  | some m => exact (h cs m taken).2

theorem Inline.weaken (h : Inline least first) (le : least' ≤ least) : Inline least' first :=
  fun cs n found => ⟨Nat.le_trans le (h cs n found).1, (h cs n found).2⟩

end

/-! ### Tokens -/

theorem inline_word : Inline 1 word :=
  (inline_one (by decide)).andThen (inline_many (by decide)).optionally

theorem inline_digits : Inline 1 digits := inline_many (by decide)

theorem inline_hexInteger : Inline 1 hexInteger :=
  (((inline_exactly (by decide)).andThen (inline_one (by decide))).andThen
    (inline_many (by decide))).weaken (by decide)

theorem inline_exponent : Inline 1 exponent :=
  ((inline_one (by decide)).andThen
    ((inline_one (by decide)).optionally.andThen inline_digits)).weaken (by decide)

theorem inline_fractionReal : Inline 1 fractionReal :=
  ((inline_digits.andThen ((inline_exactly (by decide)).andThen inline_digits)).andThen
    inline_exponent.optionally).weaken (by decide)

theorem inline_exponentReal : Inline 1 exponentReal :=
  (inline_digits.andThen inline_exponent).weaken (by decide)

theorem inline_slash : Inline 1 slash := by
  intro cs n h
  unfold slash at h
  split at h
  · cases h
  · obtain rfl := Option.some.inj h
    exact ⟨Nat.le_refl 1, .cons (by decide) (.zero _)⟩
  · cases h

theorem ne_of_isEscape {c : Char} (h : isEscape c = true) : c ≠ '\n' := by
  rintro rfl
  revert h
  decide

theorem ne_of_isPlain {mark c : Char} (h : isPlain mark c = true) : c ≠ '\n' := by
  rintro rfl
  simp [isPlain] at h

theorem oneLine_items (mark : Char) (cs : List Char) : OneLine cs (items mark cs) := by
  fun_induction items mark cs with
  | case1 => exact .zero _
  | case2 c cs escape ih =>
    rw [Nat.add_comm]
    exact .cons (by decide) (.cons (ne_of_isEscape escape) ih)
  | case3 => exact .zero _
  | case4 c cs _ plain ih =>
    rw [Nat.add_comm]
    exact .cons (ne_of_isPlain plain) ih
  | case5 => exact .zero _

theorem inline_item (mark : Char) : Inline 1 (item mark) := by
  intro cs n h
  unfold item at h
  split at h
  · cases h
  · simp only [Option.ite_none_right_eq_some, Option.some.injEq] at h
    obtain ⟨escape, rfl⟩ := h
    exact ⟨by decide, .cons (by decide) (.cons (ne_of_isEscape escape) (.zero _))⟩
  · simp only [Option.ite_none_right_eq_some, Option.some.injEq] at h
    obtain ⟨plain, rfl⟩ := h
    exact ⟨Nat.le_refl 1, .cons (ne_of_isPlain plain) (.zero _)⟩

theorem inline_character : Inline 1 character :=
  (((inline_exactly (by decide)).andThen (inline_item '\'')).andThen
    (inline_exactly (by decide))).weaken (by decide)

theorem inline_string : Inline 1 string := by
  have contents : Inline 0 fun cs => some (items '"' cs) := by
    intro cs n h
    obtain rfl := Option.some.inj h
    exact ⟨Nat.zero_le _, oneLine_items '"' cs⟩
  exact (((inline_exactly (by decide)).andThen contents).andThen
    (inline_exactly (by decide))).weaken (by decide)

end Pattern

/-! ### Trivia -/

/-- The characters that separate tokens. -/
def IsSpace (c : Char) : Prop := c ∈ [' ', '\t', '\r', '\n', '\x0c', '\x0b']

/-- White space, a comment to the end of its line, or a comment between its marks, of which the
closing one occurs only at the end. -/
inductive TriviaPiece : List Char → Prop
  | blanks {cs} : cs ≠ [] → (∀ c ∈ cs, IsSpace c) → TriviaPiece cs
  | lineComment {body} : '\n' ∉ body → TriviaPiece ('/' :: '/' :: body)
  | blockComment {body} : ¬['*', '/'] <:+: body ++ ['*'] →
      TriviaPiece ('/' :: '*' :: (body ++ ['*', '/']))

/-- Any number of pieces of trivia, one behind the other. -/
def Trivia (cs : List Char) : Prop :=
  ∃ pieces : List (List Char), (∀ piece ∈ pieces, TriviaPiece piece) ∧ cs = pieces.flatten

theorem TriviaPiece.ne_nil {cs : List Char} (h : TriviaPiece cs) : cs ≠ [] := by
  cases h with
  | blanks some => exact some
  | lineComment | blockComment => exact List.cons_ne_nil _ _

theorem Trivia.nil : Trivia [] := ⟨[], nofun, rfl⟩

theorem Trivia.cons {piece cs : List Char} (first : TriviaPiece piece) (rest : Trivia cs) :
    Trivia (piece ++ cs) := by
  obtain ⟨pieces, areTrivia, rfl⟩ := rest
  exact ⟨piece :: pieces, by simpa using ⟨first, areTrivia⟩, rfl⟩

namespace Pattern

/-- Whatever the pattern matches is a piece of trivia. -/
def Trivial (pattern : Pattern) : Prop :=
  ∀ cs n, pattern cs = some n → n ≤ cs.length ∧ TriviaPiece (cs.take n)

theorem isSpace_of_isBlank {c : Char} (h : isBlank c = true) : IsSpace c := by
  simp only [isBlank, Bool.or_eq_true, Bool.and_eq_true, decide_eq_true_eq] at h
  rcases h with rfl | ⟨low, high⟩
  · simp [IsSpace]
  · have low' : 9 ≤ c.toNat := low
    have high' : c.toNat ≤ 13 := high
    have codes : ∀ code < 14, 9 ≤ code → IsSpace (Char.ofNat code) := by
      unfold IsSpace
      decide
    rw [← Char.ofNat_toNat c]
    exact codes c.toNat (Nat.lt_succ_of_le high') low'

theorem trivial_blanks : blanks.Trivial := by
  intro cs n h
  unfold blanks many at h
  split at h
  · cases h
  · rename_i m length
    obtain rfl := Option.some.inj h
    have front := List.prefix_iff_eq_take.mp (List.takeWhile_prefix (l := cs) isBlank)
    have le := (List.takeWhile_prefix (l := cs) isBlank).length_le
    rw [length] at front le
    refine ⟨le, ?_⟩
    rw [← front]
    refine .blanks ?_ fun c mem => isSpace_of_isBlank (List.mem_takeWhile_imp mem)
    exact List.ne_nil_of_length_eq_add_one length

theorem trivial_lineComment : lineComment.Trivial := by
  intro cs n h
  unfold lineComment at h
  split at h
  · rename_i rest
    obtain rfl := Option.some.inj h
    have line : OneLine rest (rest.takeWhile fun c => decide (c ≠ '\n')).length :=
      OneLine.takeWhile (by decide) rest
    rw [Nat.add_comm]
    refine ⟨Nat.add_le_add_right line.le_length 2, ?_⟩
    exact .lineComment line.noLineFeed
  · cases h

/-- The closing mark of a comment is the first one. -/
theorem throughCloser_spec {cs : List Char} {n : Nat} (h : throughCloser cs = some n) :
    ∃ body rest, cs = body ++ '*' :: '/' :: rest ∧ n = body.length + 2 ∧
      ¬['*', '/'] <:+: body ++ ['*'] := by
  fun_induction throughCloser cs generalizing n with
  | case1 => cases h
  | case2 rest =>
    obtain rfl := Option.some.inj h
    exact ⟨[], rest, rfl, rfl, by decide⟩
  | case3 c cs other ih =>
    obtain ⟨m, found, rfl⟩ := Option.map_eq_some_iff.mp h
    obtain ⟨body, rest, rfl, rfl, none⟩ := ih found
    refine ⟨c :: body, rest, rfl, rfl, ?_⟩
    rw [List.cons_append, List.infix_cons_iff, not_or]
    refine ⟨?_, none⟩
    intro begins
    obtain ⟨rfl, closes⟩ := List.cons_prefix_cons.mp begins
    cases body with
    | nil => exact absurd closes (by decide)
    | cons d body =>
      obtain ⟨rfl, -⟩ := List.cons_prefix_cons.mp closes
      exact other _ rfl rfl

theorem trivial_blockComment : blockComment.Trivial := by
  intro cs n h
  obtain ⟨m, k, opened, closed, rfl⟩ := andThen_eq_some_iff.mp h
  obtain ⟨rfl, behind, rfl⟩ := exactly_eq_some_iff.mp opened
  have drop : ("/*".toList ++ behind).drop "/*".length = behind := rfl
  rw [drop] at closed
  obtain ⟨body, rest, rfl, rfl, none⟩ := throughCloser_spec closed
  have front : "/*".toList ++ (body ++ '*' :: '/' :: rest) =
      '/' :: '*' :: (body ++ ['*', '/']) ++ rest := by simp
  have length : "/*".length + (body.length + 2) = ('/' :: '*' :: (body ++ ['*', '/'])).length := by
    have two : "/*".length = 2 := by decide
    rw [two, List.length_cons, List.length_cons, List.length_append, Nat.add_comm]
    rfl
  rw [front, length, List.take_left]
  exact ⟨by simp, .blockComment none⟩

end Pattern

end PlainC
