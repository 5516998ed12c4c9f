import PlainC.Diagnostic
import PlainC.Proofs.Scanning.Comments
import PlainC.Proofs.Scanning.Numbers

set_option autoImplicit false

/-!
What stands next to a number. Behind a token that ends with a letter, a digit or an underscore stands
no such character, so a number is a token only if nothing that could belong to it is left on either
side; otherwise it is refused together with what it runs into.
-/

open Computability

namespace PlainC

open Pattern LexemeRule

/-! ### Behind a token -/

/-- Only words make keywords and identifiers. -/
theorem LexemeRule.pattern_eq_word {rule : LexemeRule} (mem : rule ∈ all) {lexeme : String}
    (made : (∃ word, rule.kind lexeme = .keyword word) ∨ ∃ name, rule.kind lexeme = .identifier name) :
    rule.pattern = word := by
  rcases List.mem_append.mp mem with front | mark
  · rcases List.mem_append.mp front with other | operator
    · simp only [List.mem_cons, List.not_mem_nil, or_false] at other
      rcases other with rfl | rfl | rfl | rfl | rfl | rfl | rfl | rfl | rfl | rfl
      case inr.inl => rfl
      all_goals rcases made with ⟨_, ⟨⟩⟩ | ⟨_, ⟨⟩⟩
    · obtain ⟨op, -, rfl⟩ := List.mem_map.mp operator
      rcases made with ⟨_, ⟨⟩⟩ | ⟨_, ⟨⟩⟩
  · obtain ⟨delimiter, -, rfl⟩ := List.mem_map.mp mark
    rcases made with ⟨_, ⟨⟩⟩ | ⟨_, ⟨⟩⟩

namespace Pattern

variable {cs : List Char} {n : Nat}

theorem head_drop_takeWhile (cls : Char → Bool) (cs : List Char) :
    ∀ c ∈ (cs.drop (cs.takeWhile cls).length).head?, cls c = false := by
  have rest : cs.drop (cs.takeWhile cls).length = cs.dropWhile cls := by
    calc cs.drop (cs.takeWhile cls).length
        = (cs.takeWhile cls ++ cs.dropWhile cls).drop (cs.takeWhile cls).length := by
          rw [List.takeWhile_append_dropWhile]
      _ = cs.dropWhile cls := List.drop_left
  intro c first
  have stops := List.head?_dropWhile_not cls cs
  rw [rest] at first
  rw [first] at stops
  exact stops

/-- A word takes all letters, digits and underscores. -/
theorem head_drop_word (found : word cs = some n) : ∀ c ∈ (cs.drop n).head?, isWordChar c = false := by
  obtain ⟨m, k, first, rest, rfl⟩ := andThen_eq_some_iff.mp found
  rw [← List.drop_drop]
  obtain rfl := Option.some.inj rest
  cases more : many isWordChar (cs.drop m) with
  | some n =>
    obtain ⟨-, rfl⟩ := many_eq_some_iff.mp more
    exact head_drop_takeWhile isWordChar _
  | none =>
    have none : ((cs.drop m).takeWhile isWordChar).length = 0 := by
      by_contra some
      cases more.symm.trans (many_eq_some_iff.mpr ⟨some, rfl⟩)
    have stops := head_drop_takeWhile isWordChar (cs.drop m)
    rwa [none] at stops

/-- What matches given characters at its end ends with them. -/
theorem suffix_of_andThen {first : Pattern} {text : String}
    (found : andThen first (exactly text) cs = some n) : text.toList <:+ cs.take n := by
  obtain ⟨m, k, -, last, rfl⟩ := andThen_eq_some_iff.mp found
  obtain ⟨rfl, rest, same⟩ := exactly_eq_some_iff.mp last
  rw [List.take_add, ← same, ← String.length_toList, List.take_left]
  exact List.suffix_append _ _

end Pattern

namespace Kind

variable {kind : Kind} {form : LiteralForm} {text : String} {after : List Char}

/-- A number is refused for what it runs into, and else for its digits if it is an integer. -/
theorem numberProblem?_of_number (number : form = .integer ∨ form = .real) :
    (Kind.literal form text).numberProblem? after =
      if after.takeWhile isWordChar ≠ [] then
        some (.malformedNumber (String.ofList (after.takeWhile isWordChar)))
      else if form = .integer ∧ hasBadOctalDigit text.toList then some .octalDigit
      else none := by
  rcases number with rfl | rfl <;> simp [numberProblem?]

/-- Behind a number that is a token stands no letter, digit or underscore. -/
theorem head_of_numberProblem? (number : form = .integer ∨ form = .real)
    (noProblem : (Kind.literal form text).numberProblem? after = none) :
    ∀ c ∈ after.head?, isWordChar c = false := by
  have noTail : after.takeWhile isWordChar = [] := by
    by_contra tail
    rw [numberProblem?_of_number number, if_pos tail] at noProblem
    cases noProblem
  intro c first
  obtain ⟨rest, rfl⟩ := List.head?_eq_some_iff.mp first
  by_contra more
  rw [List.takeWhile_cons_of_pos (by simpa using more)] at noTail
  cases noTail

/-- The pattern of a literal matches its text in front of what stands behind it. -/
theorem IsScannedBefore.exists_pattern (h : (Kind.literal form text).IsScannedBefore after) :
    ∃ pattern ∈ form.patterns, pattern (text.toList ++ after) = some text.toList.length := by
  obtain ⟨-, -, matched⟩ := h
  obtain ⟨rule, mem, read⟩ := List.exists_of_findSome?_eq_some matched
  obtain ⟨found, made⟩ := read?_eq_some_iff.mp read
  exact ⟨rule.pattern, (pattern_mem mem made).1, found⟩

/-- Behind a token that ends with a letter, a digit or an underscore stands no such character. -/
theorem IsScannedBefore.apart (h : kind.IsScannedBefore after) {c : Char}
    (last : c ∈ kind.lexeme.toList.getLast?) (isWord : isWordChar c = true) :
    ∀ d ∈ after.head?, isWordChar d = false := by
  -- the lexeme of a quoted literal ends with its mark
  have quoted {first : Pattern} (mark : String) (d : Char) (only : mark.toList = [d])
      (other : isWordChar d = false)
      (found : andThen first (exactly mark) (kind.lexeme.toList ++ after) =
        some kind.lexeme.toList.length) : False := by
    obtain ⟨inner, ends⟩ := suffix_of_andThen found
    rw [List.take_left, only] at ends
    rw [← ends, List.getLast?_concat] at last
    obtain rfl := Option.some.inj last
    cases other.symm.trans isWord
  cases kind with
  | trivia | endOfInput => cases h.1
  | keyword _ | identifier _ =>
    obtain ⟨rule, mem, read⟩ := List.exists_of_findSome?_eq_some h.2.2
    obtain ⟨found, made⟩ := read?_eq_some_iff.mp read
    rw [pattern_eq_word mem (by first | exact .inl ⟨_, made⟩ | exact .inr ⟨_, made⟩)] at found
    have stops := head_drop_word found
    rwa [List.drop_left] at stops
  | operator op =>
    obtain ⟨d, ends, other⟩ : ∃ d, op.text.toList.getLast? = some d ∧ isWordChar d = false := by
      cases op <;> exact ⟨_, rfl, by decide⟩
    obtain rfl := Option.some.inj (ends.symm.trans last)
    cases other.symm.trans isWord
  | delimiter mark =>
    obtain ⟨d, ends, other⟩ : ∃ d, mark.text.toList.getLast? = some d ∧ isWordChar d = false := by
      cases mark <;> exact ⟨_, rfl, by decide⟩
    obtain rfl := Option.some.inj (ends.symm.trans last)
    cases other.symm.trans isWord
  | literal form text =>
    cases form with
    | integer => exact head_of_numberProblem? (.inl rfl) h.2.1
    | real => exact head_of_numberProblem? (.inr rfl) h.2.1
    | character =>
      obtain ⟨pattern, mem, found⟩ := h.exists_pattern
      obtain rfl := List.mem_singleton.mp mem
      exact (quoted "'" '\'' rfl (by decide) found).elim
    | string =>
      obtain ⟨pattern, mem, found⟩ := h.exists_pattern
      obtain rfl := List.mem_singleton.mp mem
      exact (quoted "\"" '"' rfl (by decide) found).elim

end Kind

/-! ### The longest number -/

theorem headsIn_numbers : HeadsIn numbers isDigit := by
  have digits (language : Language Char) : HeadsIn (manyOf isDigit * language) isDigit := by
    rw [manyOf, mul_assoc]
    exact headsIn_oneOf_mul _ _
  rintro c rest (((⟨_, rfl, behind, -, same⟩ | fraction) | exponential) | integer)
  · obtain rfl := (List.cons.inj same).1
    decide
  · exact digits _ c rest fraction
  · exact digits _ c rest exponential
  · exact headsIn_manyOf isDigit c rest integer

namespace Kind

variable {form : LiteralForm} {text : String} {after : List Char}

theorem IsScannedBefore.mem_integers (h : (Kind.literal .integer text).IsScannedBefore after) :
    text.toList ∈ hexIntegers + manyOf isDigit := by
  obtain ⟨pattern, mem, found⟩ := h.exists_pattern
  have whole : (text.toList ++ after).take text.toList.length = text.toList := List.take_left
  rw [← whole]
  simp only [LiteralForm.patterns, List.mem_cons, List.not_mem_nil, or_false] at mem
  rcases mem with rfl | rfl
  · exact Or.inl (takesLongest_hexInteger.take_mem found)
  · exact Or.inr (takesLongest_digits.take_mem found)

theorem IsScannedBefore.mem_reals (h : (Kind.literal .real text).IsScannedBefore after) :
    text.toList ∈ fractions + exponentials := by
  obtain ⟨pattern, mem, found⟩ := h.exists_pattern
  have whole : (text.toList ++ after).take text.toList.length = text.toList := List.take_left
  rw [← whole]
  simp only [LiteralForm.patterns, List.mem_cons, List.not_mem_nil, or_false] at mem
  rcases mem with rfl | rfl
  · exact Or.inl (takesLongest_fractionReal.take_mem found)
  · exact Or.inr (takesLongest_exponentReal.take_mem found)

theorem IsScannedBefore.mem_numbers (number : form = .integer ∨ form = .real)
    (h : (Kind.literal form text).IsScannedBefore after) : text.toList ∈ numbers := by
  rcases number with rfl | rfl
  · exact h.mem_integers.elim (fun hex => Or.inl (Or.inl (Or.inl hex))) Or.inr
  · exact h.mem_reals.elim (fun fraction => Or.inl (Or.inl (Or.inr fraction)))
      fun exponential => Or.inl (Or.inr exponential)

/-- The text of a number that is a token begins with a digit, and it is the longest number there. -/
theorem IsScannedBefore.isGreatest (number : form = .integer ∨ form = .real)
    (h : (Kind.literal form text).IsScannedBefore after) :
    (∃ c cs, text.toList = c :: cs ∧ isDigit c = true) ∧
      IsGreatest (frontLengths numbers (text.toList ++ after)) text.toList.length := by
  obtain ⟨c, cs, parts⟩ := List.exists_cons_of_ne_nil h.isScanned.lexeme_ne_nil
  change text.toList = c :: cs at parts
  have mem := h.mem_numbers number
  have matched := h.2.2
  change firstMatch (text.toList ++ after) = some (_, text.toList.length) at matched
  rw [parts] at mem matched ⊢
  have digit := headsIn_numbers c cs mem
  obtain ⟨_, n, -, found, greatest⟩ := firstMatch_digit digit (cs ++ after)
  obtain rfl := (Prod.mk.inj (Option.some.inj (matched.symm.trans found))).2
  exact ⟨⟨c, cs, rfl, digit⟩, greatest⟩

/-- Behind an integer in decimal digits there is no fraction. -/
theorem IsScannedBefore.noFraction (h : (Kind.literal .integer text).IsScannedBefore after)
    (decimal : text.toList ∉ hexIntegers) :
    ¬∃ d rest, after = '.' :: d :: rest ∧ isDigit d = true := by
  rintro ⟨d, rest, rfl, digit⟩
  have digits := h.mem_integers.resolve_left decimal
  have single : [d] ∈ manyOf isDigit := mem_manyOf.mpr (by simpa using digit)
  have point : ['.', d] ∈ spelled "." * (manyOf isDigit * (1 + exponents)) :=
    ⟨['.'], rfl, [d], ⟨[d], single, [], Or.inl rfl, rfl⟩, rfl⟩
  have longer : text.toList ++ ['.', d] ∈ fractions := Language.append_mem_mul digits point
  have le := (h.isGreatest (.inl rfl)).2.2 ⟨_, Or.inl (Or.inl (Or.inr longer)), ⟨rest, by simp⟩, rfl⟩
  rw [List.length_append] at le
  exact absurd le (by simp)

end Kind

/-! ### The places of tokens -/

namespace Scanner

theorem after_add_one (s : Scanner) (n : Nat) : s.after (n + 1) = (s.after n).next.2 := by
  induction n generalizing s with
  | zero => rfl
  | succ n ih => exact ih s.next.2

/-- Calls go on behind what they have read. -/
theorem rest_after (s : Scanner) (n : Nat) : ∃ before, s.rest = before ++ (s.after n).rest ∧
    (s.after n).offset = s.offset + byteLength before := by
  induction n with
  | zero => exact ⟨[], rfl, rfl⟩
  | succ n ih =>
    obtain ⟨before, rest, offset⟩ := ih
    obtain ⟨gap, cuts⟩ := (s.after n).cuts_next
    refine ⟨before ++ (gap ++ (s.answer n).text), ?_, ?_⟩
    · rw [after_add_one, rest, cuts.rest]
      simp [answer]
    · rw [after_add_one, cuts.offset, offset, byteLength_append before, Nat.add_assoc]
      rfl

/-- A token of a source is the answer of the call with its number. -/
theorem next_of_tokenize {source : String} {front behind : List Token} {token : Token}
    (scanned : tokenize source = .ok (front ++ token :: behind)) :
    ((ofString source).after front.length).next =
      (.ok token, (ofString source).after (front.length + 1)) := by
  obtain ⟨tiles, last, tiling, -, tiled, -⟩ := exists_tiling source
  obtain ⟨answers, -⟩ := tiled _ scanned
  rw [List.map_append, List.map_cons] at answers
  obtain ⟨before, rest, parts, length, answers⟩ := List.map_eq_append_iff.mp answers.symm
  obtain ⟨tile, behind', rfl, answered, -⟩ := List.map_eq_cons_iff.mp answers
  have same := congrArg List.length length
  rw [List.length_map, List.length_map] at same
  rw [after_add_one, ← same]
  exact Prod.ext ((tiling.answers_of_append parts).1.trans answered) rfl

/-- Where a token directly in front of a number ends, there is no letter, digit or underscore: the
number would be a part of that token or of what it runs into. -/
theorem notWordChar_of_touches {s s' s'' : Scanner} {previous token : Token}
    (first : s.next = (.ok previous, s')) (second : s'.next = (.ok token, s''))
    {form : LiteralForm} {text : String} (isNumber : token.kind = .literal form text)
    (number : form = .integer ∨ form = .real) (touches : previous.span.stop = token.span.start) :
    s'.rest = text.toList ++ s''.rest ∧ ∃ gap lexeme, s.rest = gap ++ lexeme ++ s'.rest ∧
      lexeme ≠ [] ∧ ∀ c ∈ lexeme.getLast?, isWordChar c = false := by
  obtain ⟨gap, cuts⟩ := s.cuts_next
  obtain ⟨gap', cuts'⟩ := s'.cuts_next
  rw [first] at cuts
  rw [second] at cuts'
  have scanned := (isScannedBefore_of_next second).resolve_left (by rw [isNumber]; nofun)
  rw [isNumber] at scanned
  obtain ⟨⟨c, cs, parts, digit⟩, -⟩ := scanned.isGreatest number
  have lexeme : Answer.text (.ok token) = text.toList :=
    congrArg (fun kind : Kind => kind.lexeme.toList) isNumber
  have noGap : gap' = [] := by
    by_contra some
    have stop : previous.span.stop = s'.offset := (congrArg Span.stop cuts.span).trans cuts.offset.symm
    have start : token.span.start = s'.offset + byteLength gap' := congrArg Span.start cuts'.span
    have positive := byteLength_pos some
    omega
  have behind : s'.rest = text.toList ++ s''.rest := by
    rw [cuts'.rest, lexeme, noGap]
    rfl
  rw [parts] at behind
  have notEnd : previous.kind ≠ .endOfInput := fun ended =>
    absurd (behind.symm.trans (cuts.isEnd ended).2) (List.cons_ne_nil _ _)
  have scanned' := (isScannedBefore_of_next first).resolve_left notEnd
  refine ⟨parts ▸ behind, gap, _, cuts.rest.trans (List.append_assoc ..).symm,
    scanned'.isScanned.lexeme_ne_nil, fun d last => ?_⟩
  by_contra isWord
  have apart := scanned'.apart last (by simpa using isWord) c (by rw [behind]; rfl)
  rw [isWordChar, digit, Bool.or_true] at apart
  cases apart

/-- Where a digit stands, the longest number is read or refused. -/
theorem lexeme_digit {s : Scanner} {c : Char} {cs : List Char} (here : s.rest = c :: cs)
    (digit : isDigit c = true) :
    ∃ form number after, (form = .integer ∨ form = .real) ∧ s.rest = number ++ after ∧
      IsGreatest (frontLengths numbers s.rest) number.length ∧
      s.lexeme.1 = match (Kind.literal form (String.ofList number)).numberProblem? after with
        | none => .ok ⟨.literal form (String.ofList number), s.span number.length, s.line⟩
        | some problem => .error ⟨problem, String.ofList number, s.span number.length, s.line⟩ := by
  obtain ⟨form, n, isNumber, found, greatest⟩ := firstMatch_digit digit cs
  rw [← here] at found greatest
  obtain ⟨text, -, ⟨after, parts⟩, rfl⟩ := greatest.1
  refine ⟨form, text, after, isNumber, parts.symm, greatest, ?_⟩
  rw [lexeme, here]
  simp only [← here, found]
  rw [← parts, List.take_left, List.drop_left]
  cases (Kind.literal form (String.ofList text)).numberProblem? after <;> rfl

end Scanner

/-- Digits with a leading zero that have an eight or a nine among them. -/
theorem hasBadOctalDigit_iff {cs : List Char} : hasBadOctalDigit cs = true ↔
    cs.head? = some '0' ∧ (∀ c ∈ cs, isDigit c = true) ∧ ('8' ∈ cs ∨ '9' ∈ cs) := by
  simp only [hasBadOctalDigit, Bool.and_eq_true, decide_eq_true_eq, List.all_eq_true, List.any_eq_true,
    and_assoc]
  refine and_congr_right fun _ => and_congr_right fun digits => ?_
  constructor
  · rintro ⟨c, mem, above⟩
    obtain ⟨-, high⟩ : '0' ≤ c ∧ c ≤ '9' := by simpa [isDigit] using digits c mem
    have code : c.toNat = 56 ∨ c.toNat = 57 := by
      have above' : 55 < c.toNat := above
      have high' : c.toNat ≤ 57 := high
      omega
    rcases code with eight | nine
    · obtain rfl : c = '8' := Char.toNat_inj.mp eight
      exact .inl mem
    · obtain rfl : c = '9' := Char.toNat_inj.mp nine
      exact .inr mem
  · rintro (mem | mem)
    · exact ⟨'8', mem, by decide⟩
    · exact ⟨'9', mem, by decide⟩

namespace Scanner

/-- Numbers are not split. Behind a number among the tokens of a source stands no letter, digit or
underscore, behind one in decimal digits no fraction, and where the token before it ends in front of
it, none of these characters either. Where a digit stands behind the trivia, the longest number there
is read; or it is refused, together with the letters, digits and underscores that it runs into, or
for an eight or a nine behind a leading zero. -/
theorem next_number :
    (∀ source front token behind form text, tokenize source = .ok (front ++ token :: behind) →
      token.kind = .literal form text → form = .integer ∨ form = .real →
      ∃ before after, source.toList = before ++ text.toList ++ after ∧
        token.span = ⟨byteLength before, byteLength (before ++ text.toList)⟩ ∧
        (∀ c ∈ after.head?, isWordChar c = false) ∧
        (form = .integer → text.toList ∉ hexIntegers →
          ¬∃ d rest, after = '.' :: d :: rest ∧ isDigit d = true) ∧
        ∀ previous ∈ front.getLast?, previous.span.stop = token.span.start →
          ∀ c ∈ before.getLast?, isWordChar c = false) ∧
    ∀ s start : Scanner, s.skipTrivia s.rest.length = start →
      ∀ c cs, start.rest = c :: cs → isDigit c = true →
      ∃ number after tail, start.rest = number ++ after ∧ tail = after.takeWhile isWordChar ∧
        IsGreatest (frontLengths numbers start.rest) number.length ∧
        ((∃ form, (form = .integer ∨ form = .real) ∧ tail = [] ∧ s.next.1 =
            .ok ⟨.literal form (String.ofList number), start.span number.length, start.line⟩) ∨
          ∃ fault message, s.next.1 = .error fault ∧ fault.diagnostic =
            ⟨.lexical message (String.ofList number), start.span number.length, start.line⟩ ∧
            (tail ≠ [] ∧ message =
                "malformed number '" ++ String.ofList number ++ String.ofList tail ++ "'" ∨
              tail = [] ∧ message = "invalid digit in octal literal '" ++ String.ofList number ++ "'" ∧
                number.head? = some '0' ∧ (∀ c ∈ number, isDigit c = true) ∧
                ('8' ∈ number ∨ '9' ∈ number))) := by
  constructor
  · intro source front token behind form text scanned isNumber number
    obtain ⟨before, rest, offset⟩ := rest_after (ofString source) front.length
    have read := next_of_tokenize scanned
    obtain ⟨gap, cuts⟩ := ((ofString source).after front.length).cuts_next
    rw [read] at cuts
    have lexeme : Answer.text (.ok token) = text.toList :=
      congrArg (fun kind : Kind => kind.lexeme.toList) isNumber
    have scannedBefore := (isScannedBefore_of_next read).resolve_left (by rw [isNumber]; nofun)
    rw [isNumber] at scannedBefore
    have whole : source.toList =
        before ++ gap ++ text.toList ++ ((ofString source).after (front.length + 1)).rest := by
      rw [show source.toList = _ from rest, cuts.rest, lexeme]
      simp
    refine ⟨before ++ gap, _, whole, ?_, ?_, ?_, ?_⟩
    · rw [show token.span = _ from cuts.span, offset, lexeme]
      simp [byteLength_append, ofString]
    · exact Kind.head_of_numberProblem? number scannedBefore.2.1
    · rintro rfl decimal
      exact scannedBefore.noFraction decimal
    · intro previous last touches c final
      obtain ⟨front, rfl⟩ := List.getLast?_eq_some_iff.mp last
      rw [List.append_assoc, List.singleton_append] at scanned
      rw [List.length_append, List.length_singleton] at read whole
      obtain ⟨behind, gap', lexeme', rest', some, others⟩ :=
        notWordChar_of_touches (next_of_tokenize scanned) read isNumber number touches
      obtain ⟨before', first, -⟩ := rest_after (ofString source) front.length
      have whole' : source.toList = before' ++ gap' ++ lexeme' ++ text.toList ++
          ((ofString source).after (front.length + 1 + 1)).rest := by
        rw [show source.toList = _ from first, rest', behind]
        simp
      -- both ways to cut the source have the number and what follows it in common
      have same : before ++ gap = before' ++ gap' ++ lexeme' :=
        List.append_cancel_right (List.append_cancel_right (whole.symm.trans whole'))
      rw [same, List.getLast?_append_of_ne_nil _ some] at final
      exact others c final
  · intro s start skipped c cs here digit
    obtain ⟨form, number, after, isNumber, parts, greatest, answered⟩ := lexeme_digit here digit
    have read : s.next.1 = start.lexeme.1 := by rw [next, skipped]
    rw [answered, Kind.numberProblem?_of_number isNumber] at read
    refine ⟨number, after, _, parts, rfl, greatest, ?_⟩
    split_ifs at read with tail octal
    · exact .inr ⟨_, _, read, rfl, .inl ⟨tail, rfl⟩⟩
    · obtain ⟨-, bad⟩ := octal
      rw [String.toList_ofList, hasBadOctalDigit_iff] at bad
      exact .inr ⟨_, _, read, rfl, .inr ⟨not_not.mp tail, rfl, bad⟩⟩
    · exact .inl ⟨form, isNumber, not_not.mp tail, read⟩

/-- The hexadecimal number behind the minus is a token of its own, but an exponent without digits is
what the number in front of it runs into. -/
theorem next_number_malformed :
    (∃ tokens, tokenize "1-0x1f" = .ok tokens ∧ ∃ token ∈ tokens,
      token.kind = .literal .integer "0x1f" ∧ ∃ before after,
        "1-0x1f".toList = before ++ "0x1f".toList ++ after ∧
        token.span = ⟨byteLength before, byteLength (before ++ "0x1f".toList)⟩ ∧
        ∀ c ∈ after.head?, isWordChar c = false) ∧
    ∃ fault number tail, (Scanner.next ⟨['1', 'e', '+'], 0, 1⟩).1 = .error fault ∧ tail ≠ [] ∧
      fault.diagnostic.complaint = .lexical
        ("malformed number '" ++ String.ofList number ++ String.ofList tail ++ "'")
        (String.ofList number) := by
  obtain ⟨split, read⟩ := next_number
  constructor
  · have scanned : tokenize "1-0x1f" = .ok ([⟨.literal .integer "1", ⟨0, 1⟩, 1⟩,
        ⟨.operator .minus, ⟨1, 2⟩, 1⟩] ++ ⟨.literal .integer "0x1f", ⟨2, 6⟩, 1⟩ ::
        [⟨.endOfInput, ⟨6, 6⟩, 1⟩]) := rfl
    obtain ⟨before, after, whole, span, ends, -⟩ :=
      split _ _ _ _ .integer "0x1f" scanned rfl (.inl rfl)
    exact ⟨_, scanned, _, by simp, rfl, before, after, whole, span, ends⟩
  · have refused : (Scanner.next ⟨['1', 'e', '+'], 0, 1⟩).1 =
        .error ⟨.malformedNumber "e", "1", ⟨0, 1⟩, 1⟩ := rfl
    obtain ⟨number, after, tail, -, -, -, ⟨form, -, -, answered⟩ | ⟨fault, message, answered,
      diagnostic, ⟨some, rfl⟩ | ⟨-, -, zero, -⟩⟩⟩ :=
        read ⟨['1', 'e', '+'], 0, 1⟩ _ rfl '1' _ rfl (by decide)
    · cases refused.symm.trans answered
    · exact ⟨fault, number, tail, answered, some, congrArg Diagnostic.complaint diagnostic⟩
    · obtain rfl := Except.error.inj (refused.symm.trans answered)
      have text : "1" = String.ofList number :=
        (Complaint.lexical.inj (congrArg Diagnostic.complaint diagnostic)).2
      rw [← String.toList_ofList (l := number), ← text] at zero
      exact absurd zero (by decide)

end Scanner

end PlainC
