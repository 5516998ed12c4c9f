import PlainC.Proofs.Scanning.Lines
import PlainC.Proofs.Scanning.Step

set_option autoImplicit false

/-!
The tiling of a text: the answers of a scan, which goes on behind its faults, are about lexemes that
stand in the text in this order, with nothing but trivia between them.
-/

namespace PlainC

/-- An answer with the trivia in front of its lexeme. -/
structure Tile where
  gap : List Char
  answer : Answer

/-- The characters of the trivia and of the lexeme. -/
def Tile.chars (tile : Tile) : List Char := tile.gap ++ tile.answer.text

namespace Scanner

/-- The scan behind a number of calls. -/
def after (s : Scanner) : Nat → Scanner
  | 0 => s
  | n + 1 => s.next.2.after n

/-- The answer of the call with a number, counted from zero. -/
def answer (s : Scanner) (n : Nat) : Answer := (s.after n).next.1

theorem next_of_nil {s : Scanner} (none : s.rest = []) :
    s.next = (.ok ⟨.endOfInput, ⟨s.offset, s.offset⟩, s.line⟩, s) := by
  have skipped : s.skipTrivia s.rest.length = s := by
    rw [none]
    rfl
  unfold next lexeme
  rw [skipped, none]

/-- Behind the end of input the scan stays where it is. -/
theorem next_of_end {s : Scanner} (ended : (s.answer 0).IsEnd) : s.next.2.next = s.next := by
  obtain ⟨gap, cuts⟩ := s.cuts_next
  obtain ⟨noText, noRest⟩ := cuts.isEnd ended
  rw [next_of_nil noRest]
  have offset := cuts.offset
  have span := cuts.span
  rw [noText, List.append_nil] at span offset
  rw [← offset] at span
  have line := cuts.answerLine.trans cuts.line.symm
  revert ended span line
  unfold answer after
  rcases s.next with ⟨fault | token, s'⟩
  · nofun
  · rintro (kind : token.kind = .endOfInput) (span : token.span = _) (line : token.line = _)
    rw [← kind, ← span, ← line]

theorem next_after_of_end {s : Scanner} (ended : (s.answer 0).IsEnd) (n : Nat) :
    (s.after n).next = s.next := by
  induction n generalizing s with
  | zero => rfl
  | succ n ih =>
    have same := next_of_end ended
    have ended' : (s.next.2.answer 0).IsEnd := by
      rwa [answer, after, same]
    exact (ih ended').trans same

/-- The answers of a scan up to and with the end of input, each with the trivia in front of it. -/
inductive Tiled : Scanner → List Tile → Tile → Prop
  | finish {s gap} : s.Cuts gap (s.answer 0) s.next.2 → (s.answer 0).IsEnd →
      Tiled s [] ⟨gap, s.answer 0⟩
  | lexeme {s gap tiles last} : s.Cuts gap (s.answer 0) s.next.2 → ¬(s.answer 0).IsEnd →
      Tiled s.next.2 tiles last → Tiled s (⟨gap, s.answer 0⟩ :: tiles) last

/-- Every scan comes to the end of input, because each lexeme before it takes some characters. -/
theorem exists_tiled (s : Scanner) : ∃ tiles last, Tiled s tiles last := by
  generalize length : s.rest.length = n
  induction n using Nat.strongRecOn generalizing s with
  | ind n ih =>
    obtain ⟨gap, cuts⟩ := s.cuts_next
    by_cases ended : (s.answer 0).IsEnd
    · exact ⟨[], _, .finish cuts ended⟩
    · have shorter : s.next.2.rest.length < n := by
        have positive := List.length_pos_iff.mpr (cuts.isLexeme ended)
        rw [← length, cuts.rest, List.length_append, List.length_append]
        omega
      obtain ⟨tiles, last, tiled⟩ := ih _ shorter _ rfl
      exact ⟨_, last, .lexeme cuts ended tiled⟩

namespace Tiled

variable {s : Scanner} {tiles : List Tile} {last : Tile}

theorem rest_eq (h : Tiled s tiles last) : s.rest = (tiles ++ [last]).flatMap Tile.chars := by
  induction h with
  | finish cuts ended =>
    have rest := cuts.rest
    rw [(cuts.isEnd ended).2, List.append_nil] at rest
    simpa [Tile.chars] using rest
  | lexeme cuts _ _ ih =>
    rw [cuts.rest, ih]
    simp [Tile.chars]

theorem trivia_gap (h : Tiled s tiles last) : ∀ tile ∈ tiles ++ [last], Trivia tile.gap := by
  induction h with
  | finish cuts _ => simpa using cuts.trivia
  | lexeme cuts _ _ ih => simpa using ⟨cuts.trivia, by simpa using ih⟩

theorem isLexeme (h : Tiled s tiles last) : ∀ tile ∈ tiles, tile.answer.text ≠ [] ∧
    ∀ token, tile.answer = .ok token → token.kind.IsSpelled := by
  induction h with
  | finish => nofun
  | lexeme cuts notEnd _ ih =>
    rintro tile (_ | ⟨_, mem⟩)
    · exact ⟨cuts.isLexeme notEnd, fun token same => cuts.isSpelled token same notEnd⟩
    · exact ih tile mem

theorem isEnd (h : Tiled s tiles last) : last.answer.IsEnd ∧ last.answer.text = [] := by
  induction h with
  | finish cuts ended => exact ⟨ended, (cuts.isEnd ended).1⟩
  | lexeme _ _ _ ih => exact ih

theorem length_le (h : Tiled s tiles last) : tiles.length ≤ s.rest.length := by
  induction h with
  | finish => exact Nat.zero_le _
  | lexeme cuts notEnd _ ih =>
    have positive := List.length_pos_iff.mpr (cuts.isLexeme notEnd)
    rw [cuts.rest, List.length_append, List.length_append, List.length_cons]
    omega

theorem span_eq (h : Tiled s tiles last) {before behind : List Tile} {tile : Tile}
    (parts : tiles ++ [last] = before ++ tile :: behind) :
    tile.answer.span = ⟨s.offset + byteLength (before.flatMap Tile.chars ++ tile.gap),
      s.offset + byteLength (before.flatMap Tile.chars ++ tile.chars)⟩ := by
  induction h generalizing before with
  | @finish s gap cuts ended =>
    cases before with
    | nil =>
      obtain ⟨rfl, -⟩ := List.cons.inj parts
      exact cuts.span
    | cons => simp at parts
  | lexeme cuts notEnd tiled ih =>
    cases before with
    | nil =>
      obtain ⟨rfl, -⟩ := List.cons.inj parts
      exact cuts.span
    | cons first before =>
      obtain ⟨rfl, behind_eq⟩ := List.cons.inj parts
      rw [ih behind_eq, cuts.offset]
      simp only [Tile.chars, List.flatMap_cons, List.append_assoc, byteLength_append, Nat.add_assoc]

/-- Only the trivia count for the lines. -/
theorem line_eq (h : Tiled s tiles last) {before behind : List Tile} {tile : Tile}
    (parts : tiles ++ [last] = before ++ tile :: behind) :
    tile.answer.line = s.line + (before.flatMap Tile.gap ++ tile.gap).count '\n' := by
  induction h generalizing before with
  | @finish s gap cuts ended =>
    cases before with
    | nil =>
      obtain ⟨rfl, -⟩ := List.cons.inj parts
      exact cuts.answerLine
    | cons => simp at parts
  | lexeme cuts notEnd tiled ih =>
    cases before with
    | nil =>
      obtain ⟨rfl, -⟩ := List.cons.inj parts
      exact cuts.answerLine
    | cons first before =>
      obtain ⟨rfl, behind_eq⟩ := List.cons.inj parts
      rw [ih behind_eq, cuts.line]
      simp only [List.flatMap_cons, List.append_assoc, List.count_append, Nat.add_assoc]

/-- Only a comment without end has a line feed in it, and it goes to the end of the text. -/
theorem lineFeed (h : Tiled s tiles last) {before behind : List Tile} {tile : Tile}
    (parts : tiles ++ [last] = before ++ tile :: behind) (lineFeed : '\n' ∈ tile.answer.text) :
    (∃ fault, tile.answer = .error fault) ∧ OpenComment tile.answer.text ∧
      behind.flatMap Tile.chars = [] := by
  induction h generalizing before with
  | finish cuts _ =>
    cases before with
    | nil =>
      obtain ⟨rfl, rfl⟩ := List.cons.inj parts
      obtain ⟨fault, opened, -⟩ := cuts.lineFeed lineFeed
      exact ⟨fault, opened, rfl⟩
    | cons => simp at parts
  | lexeme cuts _ tiled ih =>
    cases before with
    | nil =>
      obtain ⟨rfl, rfl⟩ := List.cons.inj parts
      obtain ⟨fault, opened, none⟩ := cuts.lineFeed lineFeed
      exact ⟨fault, opened, tiled.rest_eq.symm.trans none⟩
    | cons first before =>
      obtain ⟨rfl, behind_eq⟩ := List.cons.inj parts
      exact ih behind_eq

theorem offset_le (h : Tiled s tiles last) :
    ∀ tile ∈ tiles ++ [last], s.offset ≤ tile.answer.span.start := by
  intro tile mem
  obtain ⟨before, behind, parts⟩ := List.append_of_mem mem
  rw [h.span_eq parts]
  exact Nat.le_add_right _ _

/-- Each lexeme ends before the next one begins. -/
theorem ordered (h : Tiled s tiles last) :
    (tiles ++ [last]).Pairwise fun a b => a.answer.span.stop ≤ b.answer.span.start := by
  induction h with
  | finish => exact List.pairwise_singleton _ _
  | lexeme cuts _ tiled ih =>
    refine .cons (fun tile mem => ?_) ih
    rw [cuts.span, ← cuts.offset]
    exact tiled.offset_le tile mem

theorem answer_eq (h : Tiled s tiles last) (n : Nat) :
    s.answer n = (tiles[n]?.getD last).answer := by
  induction h generalizing n with
  | finish _ ended => exact congrArg Prod.fst (next_after_of_end ended n)
  | lexeme cuts notEnd tiled ih =>
    cases n with
    | zero => rfl
    | succ n => exact ih n

/-- The tokens of a scan are its answers, unless one of them is a fault. -/
theorem tokens_eq (h : Tiled s tiles last) {fuel : Nat} (enough : tiles.length < fuel) :
    s.tokens fuel = (tiles ++ [last]).mapM Tile.answer := by
  induction h generalizing fuel with
  | @finish s gap _ ended =>
    obtain ⟨fuel, rfl⟩ := Nat.exists_eq_add_of_lt enough
    rw [tokens, List.nil_append, List.mapM_cons]
    change Answer.IsEnd s.next.1 at ended
    change _ = s.next.1 >>= _
    revert ended
    rcases s.next with ⟨fault | token, s'⟩
    · nofun
    · intro ended
      exact if_pos ended
  | @lexeme s gap tiles last _ notEnd _ ih =>
    obtain ⟨fuel, rfl⟩ := Nat.exists_eq_add_of_lt (Nat.zero_lt_of_lt enough)
    have rest := @ih (0 + fuel) (by simpa using enough)
    rw [tokens, List.cons_append, List.mapM_cons]
    change ¬Answer.IsEnd s.next.1 at notEnd
    change _ = s.next.1 >>= _
    revert notEnd rest
    rcases s.next with ⟨fault | token, s'⟩
    · intros
      rfl
    · intro rest notEnd
      refine (if_neg notEnd).trans ?_
      rw [rest]
      cases (tiles ++ [last]).mapM Tile.answer <;> rfl

end Tiled

end Scanner

end PlainC
