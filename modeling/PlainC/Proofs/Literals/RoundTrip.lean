import PlainC.Proofs.Literals.Bytes

set_option autoImplicit false

/-!
Writing a text as a string literal and reading it back: the literal is scanned as one token, and the
value of that is the text.
-/

namespace PlainC

namespace Quoted

/-- Every text can be written between quotation marks. -/
theorem exists_text (value : List Char) : ∃ text, Writes '"' value text := by
  have quoteCode : ('"', 34) ∈ escapeCodes := by decide
  have backslashCode : ('\\', 92) ∈ escapeCodes := by decide
  have lineFeedCode : ('n', 10) ∈ escapeCodes := by decide
  induction value with
  | nil => exact ⟨[], .nil⟩
  | cons c value ih =>
    obtain ⟨text, writes⟩ := ih
    by_cases plain : c ≠ '"' ∧ c ≠ '\\' ∧ c ≠ '\n'
    · exact ⟨c :: text, .raw plain.1 plain.2.1 plain.2.2 writes⟩
    · have special : c = '"' ∨ c = '\\' ∨ c = '\n' := by
        by_contra other
        simp only [not_or] at other
        exact plain other
      rcases special with rfl | rfl | rfl
      · exact ⟨'\\' :: '"' :: text, .escape quoteCode writes⟩
      · exact ⟨'\\' :: '\\' :: text, .escape backslashCode writes⟩
      · exact ⟨'\\' :: 'n' :: text, .escape lineFeedCode writes⟩

variable {value text : List Char}

/-- What is written ends only at the mark behind it. -/
theorem Writes.items_eq (writes : Writes '"' value text) (rest : List Char) :
    Pattern.items '"' (text ++ '"' :: rest) = text.length := by
  induction writes with
  | nil =>
    have other : '"' ≠ '\\' := by decide
    simp [Pattern.items_of_ne _ other, Pattern.isPlain]
  | @raw c value text noMark noEscape noLineFeed writes ih =>
    have plain : Pattern.isPlain '"' c = true := by simp [Pattern.isPlain, noMark, noEscape, noLineFeed]
    rw [List.cons_append, Pattern.items_of_ne _ noEscape, if_pos plain, ih, List.length_cons,
      Nat.add_comm]
  | @escape letter code value text mem writes ih =>
    have isEscape : Pattern.isEscape letter = true := by
      rw [Pattern.isEscape, Escape.decode?_of_mem mem, Option.isSome_some]
    simp only [List.cons_append, Pattern.items, isEscape, if_true, ih, List.length_cons]
    omega

/-- The literal with a text between its marks. -/
def literal (text : List Char) : String := String.ofList ('"' :: (text ++ ['"']))

theorem toList_literal (text : List Char) : (literal text).toList = '"' :: (text ++ ['"']) :=
  String.toList_ofList

theorem Writes.firstMatch_eq (writes : Writes '"' value text) (rest : List Char) :
    LexemeRule.firstMatch ((literal text).toList ++ rest) =
      some (.literal .string (literal text), (literal text).toList.length) := by
  have whole : (literal text).toList ++ rest = '"' :: (text ++ '"' :: rest) := by
    simp [toList_literal]
  have contents : Pattern.string ((literal text).toList ++ rest) =
      some (literal text).toList.length := by
    rw [Pattern.string, Pattern.andThen_assoc]
    refine Pattern.andThen_eq_some_iff.mpr ⟨1, text.length + 1, ?_, ?_, ?_⟩
    · rw [whole]
      exact Pattern.exactly_eq_some_iff.mpr ⟨rfl, _, rfl⟩
    · rw [whole, List.drop_one, List.tail_cons]
      refine Pattern.andThen_eq_some_iff.mpr ⟨text.length, 1, ?_, ?_, rfl⟩
      · rw [writes.items_eq rest]
      · rw [List.drop_left]
        exact Pattern.exactly_eq_some_iff.mpr ⟨rfl, rest, rfl⟩
    · simp [toList_literal, Nat.add_comm]
  rw [whole, LexemeRule.firstMatch_string, ← whole]
  refine LexemeRule.read?_eq_some_iff.mpr ⟨contents, ?_⟩
  rw [List.take_left, String.ofList_toList]

theorem Writes.decodeString_eq (writes : Writes '"' value text) :
    decodeString (literal text) = .ok (String.ofList value) := by
  have contents := contents?_eq (toList_literal text)
  rw [writes.unescape?_eq] at contents
  simp only [decodeString, contents]

end Quoted

namespace Scanner

variable {gap lexeme rest : List Char} {kind : Kind} {s : Scanner}

/-- The scan of a lexeme that is no number, behind a gap. -/
theorem next_of_firstMatch (filler : Filler gap) (here : s.rest = gap ++ (lexeme ++ rest))
    (found : LexemeRule.firstMatch (lexeme ++ rest) = some (kind, lexeme.length))
    (other : kind ≠ .trivia) (noProblem : kind.numberProblem? rest = none) :
    s.next =
      (.ok ⟨kind, ⟨s.offset + byteLength gap, s.offset + byteLength gap + byteLength lexeme⟩,
        s.line + gap.count '\n'⟩,
      ⟨rest, s.offset + byteLength gap + byteLength lexeme, s.line + gap.count '\n'⟩) := by
  have notTrivia : ∀ n, LexemeRule.firstMatch (lexeme ++ rest) ≠ some (.trivia, n) := by
    intro n trivia
    rw [found] at trivia
    exact other (Prod.mk.inj (Option.some.inj trivia)).1
  have skipped := skipTrivia_filler filler notTrivia s here s.rest.length (by
    rw [here, List.length_append]
    exact Nat.le_add_right ..)
  obtain ⟨c, cs, whole⟩ : ∃ c cs, lexeme ++ rest = c :: cs := by
    refine List.exists_cons_of_ne_nil fun empty => ?_
    rw [empty, LexemeRule.firstMatch_nil] at found
    cases found
  rw [next, skipped, Scanner.lexeme]
  simp only [whole]
  rw [← whole, found]
  simp only [List.drop_left, noProblem, span, drop, List.take_left]

theorem tokens_of_next {s' : Scanner} {token : Token} {fuel : Nat}
    (answered : s.next = (.ok token, s')) (notEnd : token.kind ≠ .endOfInput) :
    s.tokens (fuel + 1) = (s'.tokens fuel).map (token :: ·) := by
  rw [tokens, answered]
  exact if_neg notEnd

/-- Where nothing is left, there is only the end of input. -/
theorem tokens_nil (fuel offset line : Nat) : tokens (fuel + 1) ⟨[], offset, line⟩ =
    .ok [⟨.endOfInput, ⟨offset, offset⟩, line⟩] := rfl

end Scanner

namespace Quoted

variable {value text : List Char}

/-- A literal alone is one token. -/
theorem Writes.tokenize_literal (writes : Writes '"' value text) : tokenize (literal text) = .ok
    [⟨.literal .string (literal text), ⟨0, (literal text).utf8ByteSize⟩, 1⟩,
      ⟨.endOfInput, ⟨(literal text).utf8ByteSize, (literal text).utf8ByteSize⟩, 1⟩] := by
  have first := Scanner.next_of_firstMatch (s := Scanner.ofString (literal text)) .nil
    (by simp [Scanner.ofString]) (writes.firstMatch_eq []) (by simp) rfl
  obtain ⟨n, size⟩ : ∃ n, (Scanner.ofString (literal text)).rest.length + 1 = n + 2 :=
    ⟨_, by rw [Scanner.ofString, toList_literal]; rfl⟩
  unfold tokenize
  simp only
  rw [size, Scanner.tokens_of_next first (by simp), Scanner.tokens_nil]
  simp [Scanner.ofString, byteLength, byteLength_toList, Except.map]

/-- The declaration of an array of characters that a literal initializes. -/
def declaration (text : List Char) : String := "char s[] = " ++ literal text ++ ";"

theorem toList_declaration (text : List Char) : (declaration text).toList =
    'c' :: 'h' :: 'a' :: 'r' :: ' ' :: 's' :: '[' :: ']' :: ' ' :: '=' :: ' ' ::
      ((literal text).toList ++ [';']) := by
  rw [declaration, String.toList_append, String.toList_append]
  rfl

/-- The tokens of the declaration; the literal ends at a byte. -/
def declarationTokens (text : List Char) (size : Nat) : List Token :=
  [⟨.keyword .charKw, ⟨0, 4⟩, 1⟩, ⟨.identifier "s", ⟨5, 6⟩, 1⟩,
    ⟨.delimiter .leftBracket, ⟨6, 7⟩, 1⟩, ⟨.delimiter .rightBracket, ⟨7, 8⟩, 1⟩,
    ⟨.operator .assign, ⟨9, 10⟩, 1⟩, ⟨.literal .string (literal text), ⟨11, size⟩, 1⟩,
    ⟨.delimiter .semicolon, ⟨size, size + 1⟩, 1⟩, ⟨.endOfInput, ⟨size + 1, size + 1⟩, 1⟩]

theorem Writes.tokenize_declaration (writes : Writes '"' value text) :
    ∃ size, tokenize (declaration text) = .ok (declarationTokens text size) := by
  have space : Filler [' '] := .space (by simp [IsSpace]) .nil
  have next (gap lexeme rest : List Char) {kind : Kind} (offset : Nat) (filler : Filler gap)
      (found : LexemeRule.firstMatch (lexeme ++ rest) = some (kind, lexeme.length)) :=
    Scanner.next_of_firstMatch (s := ⟨gap ++ (lexeme ++ rest), offset, 1⟩) filler rfl found
  have word (rest : List Char) : Scanner.next ⟨'c' :: 'h' :: 'a' :: 'r' :: ' ' :: rest, 0, 1⟩ =
      (.ok ⟨.keyword .charKw, ⟨0, 4⟩, 1⟩, ⟨' ' :: rest, 4, 1⟩) :=
    next [] ['c', 'h', 'a', 'r'] (' ' :: rest) 0 .nil rfl (by simp) rfl
  have name (rest : List Char) : Scanner.next ⟨' ' :: 's' :: '[' :: rest, 4, 1⟩ =
      (.ok ⟨.identifier "s", ⟨5, 6⟩, 1⟩, ⟨'[' :: rest, 6, 1⟩) :=
    next [' '] ['s'] ('[' :: rest) 4 space rfl (by simp) rfl
  have opening (rest : List Char) : Scanner.next ⟨'[' :: rest, 6, 1⟩ =
      (.ok ⟨.delimiter .leftBracket, ⟨6, 7⟩, 1⟩, ⟨rest, 7, 1⟩) :=
    next [] ['['] rest 6 .nil rfl (by simp) rfl
  have closing (rest : List Char) : Scanner.next ⟨']' :: rest, 7, 1⟩ =
      (.ok ⟨.delimiter .rightBracket, ⟨7, 8⟩, 1⟩, ⟨rest, 8, 1⟩) :=
    next [] [']'] rest 7 .nil rfl (by simp) rfl
  have assign (rest : List Char) : Scanner.next ⟨' ' :: '=' :: ' ' :: rest, 8, 1⟩ =
      (.ok ⟨.operator .assign, ⟨9, 10⟩, 1⟩, ⟨' ' :: rest, 10, 1⟩) :=
    next [' '] ['='] (' ' :: rest) 8 space rfl (by simp) rfl
  have value : Scanner.next ⟨' ' :: ((literal text).toList ++ [';']), 10, 1⟩ =
      (.ok ⟨.literal .string (literal text), ⟨11, 11 + byteLength (literal text).toList⟩, 1⟩,
        ⟨[';'], 11 + byteLength (literal text).toList, 1⟩) :=
    next [' '] _ [';'] 10 space (writes.firstMatch_eq [';']) (by simp) rfl
  have semicolon (size : Nat) : Scanner.next ⟨[';'], size, 1⟩ =
      (.ok ⟨.delimiter .semicolon, ⟨size, size + 1⟩, 1⟩, ⟨[], size + 1, 1⟩) :=
    next [] [';'] [] size .nil rfl (by simp) rfl
  -- there are eight tokens, and at least as many characters
  obtain ⟨fuel, size⟩ : ∃ fuel, (Scanner.ofString (declaration text)).rest.length + 1 = fuel + 8 :=
    ⟨_, by rw [Scanner.ofString, toList_declaration]; rfl⟩
  refine ⟨11 + byteLength (literal text).toList, ?_⟩
  unfold tokenize
  simp only
  rw [size, Scanner.ofString, toList_declaration, Scanner.tokens_of_next (word _) (by simp),
    Scanner.tokens_of_next (name _) (by simp), Scanner.tokens_of_next (opening _) (by simp),
    Scanner.tokens_of_next (closing _) (by simp), Scanner.tokens_of_next (assign _) (by simp),
    Scanner.tokens_of_next value (by simp), Scanner.tokens_of_next (semicolon _) (by simp),
    Scanner.tokens_nil]
  rfl

end Quoted

end PlainC
