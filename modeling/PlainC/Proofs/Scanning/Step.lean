import PlainC.Proofs.Scanning.Pattern
import PlainC.Token.Scan

set_option autoImplicit false

/-!
The rules for lexemes and one call of the scanner. Each rule makes tokens or trivia. Behind trivia a
call cuts a lexeme out of the text, be it that of a token or of a fault, or there is nothing left.
-/

namespace PlainC

/-! ### Rules -/

theorem Keyword.text_of_ofText? {word : String} {keyword : Keyword}
    (h : ofText? word = some keyword) : keyword.text = word := by
  simpa using List.find?_some h

/-- The kind of a word is spelled as the word is. -/
theorem Kind.lexeme_ofWord (word : String) : (ofWord word).lexeme = word := by
  unfold ofWord
  split
  · exact Keyword.text_of_ofText? ‹_›
  · rfl

/-- The kind of a token that has a spelling. -/
def Kind.IsSpelled : Kind → Prop
  | trivia | endOfInput => False
  | keyword _ | identifier _ | literal _ _ | operator _ | delimiter _ => True

theorem Kind.isSpelled_ofWord (word : String) : (ofWord word).IsSpelled := by
  unfold ofWord
  split <;> trivial

namespace LexemeRule

/-- The rule matches lexemes on one line, and its kind is spelled as they are. -/
structure MakesToken (rule : LexemeRule) : Prop where
  inline : rule.pattern.Inline 1
  isSpelled : ∀ text, (rule.kind text).IsSpelled
  lexeme : ∀ cs n, rule.pattern cs = some n →
    (rule.kind (String.ofList (cs.take n))).lexeme.toList = cs.take n

/-- The rule matches trivia. -/
structure MakesTrivia (rule : LexemeRule) : Prop where
  trivial : rule.pattern.Trivial
  kind : ∀ text, rule.kind text = .trivia

/-- A rule whose kind is spelled as the text that it is made of. -/
theorem makesToken_of_text {pattern : Pattern} {kind : String → Kind} (inline : pattern.Inline 1)
    (isSpelled : ∀ text, (kind text).IsSpelled) (lexeme : ∀ text, (kind text).lexeme = text) :
    MakesToken ⟨pattern, kind⟩ :=
  ⟨inline, isSpelled, fun cs n _ => by rw [lexeme, String.toList_ofList]⟩

/-- A rule for a kind with one spelling. -/
theorem makesToken_exactly {kind : Kind} {text : String} (isSpelled : kind.IsSpelled)
    (spelling : kind.lexeme = text) (some : 1 ≤ text.length) (noLineFeed : '\n' ∉ text.toList) :
    MakesToken ⟨Pattern.exactly text, fun _ => kind⟩ := by
  refine ⟨(Pattern.inline_exactly noLineFeed).weaken some, fun _ => isSpelled, ?_⟩
  intro cs n found
  obtain ⟨rfl, rest, rfl⟩ := Pattern.exactly_eq_some_iff.mp found
  rw [spelling, ← String.length_toList, List.take_left]

theorem makesToken_ofOperator (op : Operator) : MakesToken (ofOperator op) := by
  unfold ofOperator
  by_cases slash : op = .slash
  · subst slash
    refine ⟨Pattern.inline_slash, fun _ => trivial, ?_⟩
    intro cs n found
    simp only [if_true, Pattern.slash] at found
    split at found
    · cases found
    · obtain rfl := Option.some.inj found
      simp [Kind.lexeme, Operator.text]
    · cases found
  · rw [if_neg slash]
    refine makesToken_exactly trivial rfl ?_ ?_
    · cases op <;> decide
    · cases op <;> decide

theorem makesToken_ofDelimiter (mark : Delimiter) : MakesToken (ofDelimiter mark) := by
  refine makesToken_exactly trivial rfl ?_ ?_
  · cases mark <;> decide
  · cases mark <;> decide

theorem makes_of_mem {rule : LexemeRule} (mem : rule ∈ all) :
    rule.MakesToken ∨ rule.MakesTrivia := by
  rcases List.mem_append.mp mem with front | mark
  · rcases List.mem_append.mp front with other | operator
    · have literal (form : LiteralForm) (text : String) : (Kind.literal form text).IsSpelled := trivial
      simp only [List.mem_cons, List.not_mem_nil, or_false] at other
      rcases other with rfl | rfl | rfl | rfl | rfl | rfl | rfl | rfl | rfl | rfl
      · exact .inr ⟨Pattern.trivial_blanks, fun _ => rfl⟩
      · exact .inl (makesToken_of_text Pattern.inline_word Kind.isSpelled_ofWord Kind.lexeme_ofWord)
      · exact .inl (makesToken_of_text Pattern.inline_hexInteger (literal _) fun _ => rfl)
      · exact .inl (makesToken_of_text Pattern.inline_fractionReal (literal _) fun _ => rfl)
      · exact .inl (makesToken_of_text Pattern.inline_exponentReal (literal _) fun _ => rfl)
      · exact .inl (makesToken_of_text Pattern.inline_digits (literal _) fun _ => rfl)
      · exact .inl (makesToken_of_text Pattern.inline_character (literal _) fun _ => rfl)
      · exact .inl (makesToken_of_text Pattern.inline_string (literal _) fun _ => rfl)
      · exact .inr ⟨Pattern.trivial_lineComment, fun _ => rfl⟩
      · exact .inr ⟨Pattern.trivial_blockComment, fun _ => rfl⟩
    · obtain ⟨op, -, rfl⟩ := List.mem_map.mp operator
      exact .inl (makesToken_ofOperator op)
  · obtain ⟨delimiter, -, rfl⟩ := List.mem_map.mp mark
    exact .inl (makesToken_ofDelimiter delimiter)

/-- What stands in front of a text, if a rule matches: a lexeme on one line, or trivia. -/
theorem firstMatch_spec {cs : List Char} {kind : Kind} {n : Nat}
    (h : firstMatch cs = some (kind, n)) :
    (kind.IsSpelled ∧ 1 ≤ n ∧ Pattern.OneLine cs n ∧ kind.lexeme.toList = cs.take n) ∨
    (kind = .trivia ∧ n ≤ cs.length ∧ TriviaPiece (cs.take n)) := by
  obtain ⟨rule, mem, read⟩ := List.exists_of_findSome?_eq_some h
  obtain ⟨m, found, same⟩ := Option.map_eq_some_iff.mp read
  obtain ⟨rfl, rfl⟩ := Prod.mk.inj same
  rcases makes_of_mem mem with token | trivia
  · obtain ⟨some, line⟩ := token.inline cs m found
    exact .inl ⟨token.isSpelled _, some, line, token.lexeme cs m found⟩
  · obtain ⟨le, piece⟩ := trivia.trivial cs m found
    exact .inr ⟨trivia.kind _, le, piece⟩

end LexemeRule

/-! ### Calls -/

/-- What a call of the scanner answers. -/
abbrev Answer := Except ScanFault Token

namespace Answer

/-- The lexeme of a token or of a fault. -/
def text : Answer → List Char
  | .ok token => token.kind.lexeme.toList
  | .error fault => fault.lexeme.toList

def span : Answer → Span
  | .ok token => token.span
  | .error fault => fault.span

def line : Answer → Nat
  | .ok token => token.line
  | .error fault => fault.line

/-- The end of input, or the token or fault that a lexeme is. -/
def IsEnd : Answer → Prop
  | .ok token => token.kind = .endOfInput
  | .error _ => False

end Answer

/-- The beginning of a comment that is never closed. -/
def OpenComment (text : List Char) : Prop :=
  ∃ body, text = '/' :: '*' :: body ∧ ¬['*', '/'] <:+: body

namespace Pattern

theorem throughCloser_of_infix {cs : List Char} (h : ['*', '/'] <:+: cs) :
    throughCloser cs ≠ none := by
  fun_induction throughCloser cs with
  | case1 => exact absurd (List.infix_nil.mp h) (List.cons_ne_nil _ _)
  | case2 => simp
  | case3 c cs other ih =>
    rcases List.infix_cons_iff.mp h with begins | inside
    · obtain ⟨rfl, behind, rfl⟩ := List.cons_prefix_cons.mp begins
      exact absurd rfl (other behind rfl)
    · simpa using ih inside

end Pattern

namespace LexemeRule

theorem firstMatch_eq_none {cs : List Char} (h : firstMatch cs = none) {rule : LexemeRule}
    (mem : rule ∈ all) : rule.pattern cs = none := by
  have refused := List.findSome?_eq_none_iff.mp h rule mem
  simpa [read?] using refused

theorem firstMatch_nil : firstMatch [] = none := by
  decide

theorem ne_lineFeed_of_none {c : Char} {cs : List Char} (h : firstMatch (c :: cs) = none) :
    c ≠ '\n' := by
  rintro rfl
  have blank : Pattern.isBlank '\n' = true := by decide
  have mem : ⟨Pattern.blanks, fun _ => .trivia⟩ ∈ all := by simp [all]
  have refused := firstMatch_eq_none h mem
  simp [Pattern.blanks, Pattern.many, blank] at refused

theorem openComment_of_none {cs : List Char} (h : firstMatch ('/' :: '*' :: cs) = none) :
    OpenComment ('/' :: '*' :: cs) := by
  refine ⟨cs, rfl, fun closed => Pattern.throughCloser_of_infix closed ?_⟩
  have mem : ⟨Pattern.blockComment, fun _ => .trivia⟩ ∈ all := by simp [all]
  have refused := firstMatch_eq_none h mem
  have opened : Pattern.exactly "/*" ('/' :: '*' :: cs) = some 2 :=
    Pattern.exactly_eq_some_iff.mpr ⟨by decide, cs, rfl⟩
  simpa [Pattern.blockComment, Pattern.andThen, opened] using refused

/-- A lexeme that no rule matches is on one line, or it is a comment without end. -/
theorem unrecognized_spec {c : Char} {cs : List Char} (h : firstMatch (c :: cs) = none) :
    1 ≤ unrecognizedLength (c :: cs) ∧
    (Pattern.OneLine (c :: cs) (unrecognizedLength (c :: cs)) ∨
      unrecognizedLength (c :: cs) = (c :: cs).length ∧ OpenComment (c :: cs)) := by
  unfold unrecognizedLength
  split
  · rename_i body same
    obtain ⟨rfl, rfl⟩ := List.cons.inj same
    exact ⟨by simp, .inr ⟨rfl, openComment_of_none h⟩⟩
  · rename_i body same
    obtain ⟨rfl, rfl⟩ := List.cons.inj same
    refine ⟨Nat.le_add_right 1 _, .inl ?_⟩
    rw [Nat.add_comm]
    exact .cons (by decide) (Pattern.oneLine_items '"' _)
  · exact ⟨Nat.le_refl 1, .inl (.cons (ne_lineFeed_of_none h) (.zero cs))⟩

end LexemeRule

namespace Scanner

/-- A call of the scanner: what is left begins with trivia and then with the lexeme of the answer,
behind which the scan goes on. Only the end of input has no lexeme, and only a comment without end
has a line feed in its lexeme. -/
structure Cuts (s : Scanner) (gap : List Char) (answer : Answer) (s' : Scanner) : Prop where
  trivia : Trivia gap
  rest : s.rest = gap ++ (answer.text ++ s'.rest)
  offset : s'.offset = s.offset + byteLength (gap ++ answer.text)
  line : s'.line = s.line + gap.count '\n'
  span : answer.span = ⟨s.offset + byteLength gap, s.offset + byteLength (gap ++ answer.text)⟩
  answerLine : answer.line = s.line + gap.count '\n'
  isEnd : answer.IsEnd → answer.text = [] ∧ s'.rest = []
  isLexeme : ¬answer.IsEnd → answer.text ≠ []
  isSpelled : ∀ token, answer = .ok token → ¬answer.IsEnd → token.kind.IsSpelled
  lineFeed : '\n' ∈ answer.text →
    (∃ fault, answer = .error fault) ∧ OpenComment answer.text ∧ s'.rest = []

/-- Skipping goes behind all the trivia in front. -/
theorem skipTrivia_spec (fuel : Nat) (s : Scanner) (enough : s.rest.length ≤ fuel) :
    ∃ gap, Trivia gap ∧ s.rest = gap ++ (skipTrivia fuel s).rest ∧
      (skipTrivia fuel s).offset = s.offset + byteLength gap ∧
      (skipTrivia fuel s).line = s.line + gap.count '\n' ∧
      ∀ n, LexemeRule.firstMatch (skipTrivia fuel s).rest ≠ some (.trivia, n) := by
  induction fuel generalizing s with
  | zero =>
    have none : s.rest = [] := List.length_eq_zero_iff.mp (Nat.le_zero.mp enough)
    refine ⟨[], .nil, rfl, rfl, rfl, fun n => ?_⟩
    rw [skipTrivia, none, LexemeRule.firstMatch_nil]
    nofun
  | succ fuel ih =>
    unfold skipTrivia
    split
    · rename_i n found
      rcases LexemeRule.firstMatch_spec found with ⟨spelled, -⟩ | ⟨-, le, piece⟩
      · cases spelled
      · have positive : 0 < n := by
          apply Nat.pos_of_ne_zero
          rintro rfl
          exact piece.ne_nil rfl
        have shorter : (s.skip n).rest.length ≤ fuel := by
          simp only [skip, drop, List.length_drop]
          omega
        obtain ⟨gap, trivia, rest, offset, line, others⟩ := ih (s.skip n) shorter
        refine ⟨s.rest.take n ++ gap, trivia.cons piece, ?_, ?_, ?_, others⟩
        · rw [List.append_assoc, ← rest]
          exact (List.take_append_drop n s.rest).symm
        · rw [offset, byteLength_append, ← Nat.add_assoc]
          rfl
        · rw [line, List.count_append, ← Nat.add_assoc]
          rfl
    · rename_i other
      exact ⟨[], .nil, rfl, rfl, rfl, other⟩

/-- Where a rule matches, and nothing is wrong with a number, there is a token. -/
theorem lexeme_of_match {s : Scanner} {kind : Kind} {n : Nat}
    (found : LexemeRule.firstMatch s.rest = some (kind, n))
    (noProblem : kind.numberProblem? (s.rest.drop n) = none) :
    s.lexeme = (.ok ⟨kind, s.span n, s.line⟩, s.drop n) := by
  unfold lexeme
  split
  · rename_i none
    rw [none, LexemeRule.firstMatch_nil] at found
    cases found
  · simp only [found, noProblem]

/-- The part of a call behind the trivia. -/
theorem cuts_lexeme (s : Scanner) (other : ∀ n, LexemeRule.firstMatch s.rest ≠ some (.trivia, n)) :
    s.Cuts [] s.lexeme.1 s.lexeme.2 := by
  -- an answer about the next `n` characters, which are its lexeme
  have cut {answer : Answer} {n : Nat} (le : n ≤ s.rest.length) (some : 1 ≤ n)
      (text : answer.text = s.rest.take n) (span : answer.span = s.span n)
      (line : answer.line = s.line) (notEnd : ¬answer.IsEnd)
      (spelled : ∀ token, answer = .ok token → token.kind.IsSpelled)
      (lineFeed : '\n' ∈ s.rest.take n → (∃ fault, answer = .error fault) ∧
        OpenComment (s.rest.take n) ∧ s.rest.drop n = []) : s.Cuts [] answer (s.drop n) := by
    refine ⟨.nil, ?_, ?_, rfl, ?_, line, fun h => absurd h notEnd, fun _ => ?_,
      fun token same _ => spelled token same, text ▸ lineFeed⟩
    · rw [text]
      exact (List.take_append_drop n s.rest).symm
    · rw [text]
      rfl
    · rw [text, span]
      rfl
    · rw [text]
      apply List.ne_nil_of_length_pos
      rw [List.length_take]
      omega
  unfold lexeme
  split
  · rename_i none
    exact ⟨.nil, rfl, rfl, rfl, rfl, rfl, fun _ => ⟨rfl, none⟩, fun notEnd => absurd rfl notEnd,
      fun _ _ notEnd => absurd rfl notEnd, nofun⟩
  · rename_i c cs front
    split
    · rename_i kind n found
      rcases LexemeRule.firstMatch_spec found with ⟨spelled, some, inline, text⟩ | ⟨rfl, -⟩
      · have noLineFeed {P : Prop} (mem : '\n' ∈ s.rest.take n) : P := absurd mem inline.noLineFeed
        have notEnd : kind ≠ .endOfInput := by
          rintro rfl
          exact spelled
        split
        · refine cut inline.le_length some text rfl rfl notEnd ?_ noLineFeed
          intro token same
          rwa [← Except.ok.inj same]
        · exact cut inline.le_length some text rfl rfl id nofun noLineFeed
      · exact absurd found (other n)
    · rename_i none
      rw [front] at none
      obtain ⟨some, parts⟩ := LexemeRule.unrecognized_spec none
      rw [← front] at some parts
      have le : unrecognizedLength s.rest ≤ s.rest.length := by
        rcases parts with inline | ⟨all, -⟩
        · exact inline.le_length
        · exact Nat.le_of_eq all
      refine cut le some (String.toList_ofList ..) rfl rfl id nofun ?_
      intro lineFeed
      rcases parts with inline | ⟨all, opened⟩
      · exact absurd lineFeed inline.noLineFeed
      · rw [all, List.take_length, List.drop_length]
        exact ⟨⟨_, rfl⟩, opened, rfl⟩

theorem cuts_next (s : Scanner) : ∃ gap, s.Cuts gap s.next.1 s.next.2 := by
  obtain ⟨gap, trivia, rest, offset, line, other⟩ := skipTrivia_spec s.rest.length s (Nat.le_refl _)
  have cuts := cuts_lexeme _ other
  refine ⟨gap, trivia, ?_, ?_, ?_, ?_, ?_, cuts.isEnd, cuts.isLexeme, cuts.isSpelled, cuts.lineFeed⟩
  · rw [rest, cuts.rest]
    rfl
  · rw [next, cuts.offset, offset, byteLength_append gap, ← Nat.add_assoc]
    rfl
  · rw [next, cuts.line, line]
    rfl
  · rw [next, cuts.span, offset, byteLength_append gap, ← Nat.add_assoc]
    rfl
  · rw [next, cuts.answerLine, line]
    rfl

end Scanner

end PlainC
