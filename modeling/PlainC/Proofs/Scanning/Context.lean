import PlainC.Proofs.Scanning.Regular

set_option autoImplicit false

/-!
Lexemes in other places. In front of white space and of comments, and where the source ends, a lexeme
is read as it was before.
-/

namespace PlainC

namespace Pattern

variable {first second : Pattern}

/-! ### Quoted literals -/

/-- The pattern matches a text in front of anything, if it does so in front of something. -/
def Fixed (pattern : Pattern) : Prop :=
  ∀ cs rest after, pattern (cs ++ rest) = some cs.length → pattern (cs ++ after) = some cs.length

theorem fixed_exactly (text : String) : Fixed (exactly text) := by
  intro cs rest after found
  obtain ⟨length, begins⟩ := exactly_eq_some_iff.mp found
  rw [← String.length_toList] at length
  obtain rfl : text.toList = cs :=
    (List.prefix_of_prefix_length_le begins (List.prefix_append cs rest) length.ge).eq_of_length
      length.symm
  exact exactly_eq_some_iff.mpr ⟨String.length_toList, List.prefix_append _ after⟩

theorem Fixed.andThen {first second : Pattern} (h : Fixed first) (h' : Fixed second) :
    Fixed (Pattern.andThen first second) := by
  intro cs rest after found
  obtain ⟨m, k, foundFirst, foundSecond, length⟩ := andThen_eq_some_iff.mp found
  obtain ⟨front, behind, rfl, rfl⟩ : ∃ front behind, cs = front ++ behind ∧ front.length = m :=
    ⟨cs.take m, cs.drop m, (List.take_append_drop m cs).symm, by rw [List.length_take]; omega⟩
  rw [List.append_assoc] at foundFirst foundSecond ⊢
  rw [List.drop_left] at foundSecond
  rw [List.length_append, Nat.add_left_cancel_iff] at length
  subst length
  refine andThen_eq_some_iff.mpr ⟨_, behind.length, h front _ _ foundFirst, ?_, List.length_append⟩
  rw [List.drop_left]
  exact h' behind rest after foundSecond

theorem andThen_assoc (first second third : Pattern) :
    andThen (andThen first second) third = andThen first (andThen second third) := by
  funext cs
  unfold andThen
  cases first cs with
  | none => rfl
  | some n =>
    simp only
    cases second (cs.drop n) with
    | none => rfl
    | some m =>
      simp only [Option.map_some, List.drop_drop, Option.map_map]
      congr 1
      funext k
      exact Nat.add_assoc n m k

theorem fixed_item (mark : Char) : Fixed (item mark) := by
  intro cs rest after found
  match cs with
  | [] =>
    have some := (inline_item mark _ _ found).1
    cases some
  | [c] =>
    by_cases escape : c = '\\'
    · subst escape
      cases rest <;> simp [item, isPlain] at found
    · have plain (ds : List Char) : item mark (c :: ds) = if isPlain mark c then .some 1 else none := by
        cases ds <;> simp [item, escape]
      simpa [plain] using found
  | c :: d :: cs =>
    by_cases escape : c = '\\'
    · subst escape
      simpa [item] using found
    · simp [item, escape] at found

theorem items_of_ne {mark c : Char} (cs : List Char) (other : c ≠ '\\') :
    items mark (c :: cs) = if isPlain mark c then 1 + items mark cs else 0 := by
  cases cs <;> simp [items, other]

/-- The items in front of a mark are the same ones whatever stands behind the mark. -/
theorem items_again {rest : List Char} (after : List Char) : ∀ {cs : List Char},
    items '"' (cs ++ '"' :: rest) = cs.length → items '"' (cs ++ '"' :: after) = cs.length
  | [], _ => by
    have other : '"' ≠ '\\' := by decide
    simp [items_of_ne _ other, isPlain]
  | c :: cs, h => by
    by_cases escape : c = '\\'
    · subst escape
      cases cs with
      | nil =>
        have quote : isEscape '"' = true := by decide
        simp only [List.singleton_append, items, quote, if_true, List.length_singleton] at h
        omega
      | cons d cs =>
        by_cases escaped : isEscape d = true
        · have inner : items '"' (cs ++ '"' :: rest) = cs.length := by
            simp only [List.cons_append, items, escaped, if_true, List.length_cons] at h
            omega
          have again := items_again after inner
          simp only [List.cons_append, items, escaped, if_true, again, List.length_cons]
          omega
        · simp [items, escaped] at h
    · by_cases plain : isPlain '"' c = true
      · have inner : items '"' (cs ++ '"' :: rest) = cs.length := by
          simp only [List.cons_append, items_of_ne _ escape, plain, if_true, List.length_cons] at h
          omega
        have again := items_again after inner
        simp only [List.cons_append, items_of_ne _ escape, plain, if_true, again, List.length_cons]
        omega
      · simp [items_of_ne _ escape, plain] at h

theorem fixed_character : Fixed character :=
  ((fixed_exactly _).andThen (fixed_item _)).andThen (fixed_exactly _)

theorem fixed_string : Fixed string := by
  have contents : Fixed (andThen (fun cs => some (items '"' cs)) (exactly "\"")) := by
    intro cs rest after found
    obtain ⟨m, k, itemsFound, closed, length⟩ := andThen_eq_some_iff.mp found
    obtain ⟨rfl, closes⟩ := exactly_eq_some_iff.mp closed
    have one : "\"".length = 1 := by decide
    rw [one] at length
    obtain ⟨body, last, rfl, rfl⟩ : ∃ body last, cs = body ++ last ∧ body.length = m :=
      ⟨cs.take m, cs.drop m, (List.take_append_drop m cs).symm, by rw [List.length_take]; omega⟩
    obtain ⟨mark, rfl⟩ : ∃ mark, last = [mark] := by
      apply List.length_eq_one_iff.mp
      rw [List.length_append] at length
      omega
    rw [List.append_assoc, List.drop_left] at closes
    obtain ⟨rfl, -⟩ := List.cons_prefix_cons.mp closes
    rw [List.append_assoc] at itemsFound ⊢
    have again := items_again after (Option.some.inj itemsFound)
    refine andThen_eq_some_iff.mpr ⟨body.length, 1, congrArg some again, ?_, length⟩
    rw [List.drop_left]
    exact exactly_eq_some_iff.mpr ⟨one.symm, List.prefix_append _ after⟩
  unfold string
  rw [andThen_assoc]
  exact (fixed_exactly _).andThen contents

end Pattern

namespace LexemeRule

open Pattern

/-! ### Rules that are not regular -/

/-- The characters with which the rules begin that are not regular. -/
def specialStarts : List Char := gapStarts ++ ['\'', '"']

theorem exactly_of_head {c mark : Char} {text : String} {cs : List Char}
    (head : text.toList.head? = some mark) (other : c ≠ mark) : exactly text (c :: cs) = none := by
  obtain ⟨behind, parts⟩ := List.head?_eq_some_iff.mp head
  simp [exactly, parts, other.symm]

/-- Each rule is regular, or it matches only where one of some characters stands. -/
theorem regular_or_special (rule : LexemeRule) (mem : rule ∈ all) :
    rule.pattern.Regular ∨ ∀ c cs, c ∉ specialStarts → rule.pattern (c :: cs) = none := by
  have ne {c mark : Char} (special : mark ∈ specialStarts) (other : c ∉ specialStarts) : c ≠ mark :=
    fun same => other (same ▸ special)
  have unopened {c mark : Char} {text : String} (cs : List Char)
      (head : text.toList.head? = some mark) (special : mark ∈ specialStarts)
      (other : c ∉ specialStarts) : exactly text (c :: cs) = none :=
    exactly_of_head head (ne special other)
  rcases List.mem_append.mp mem with front | mark
  · rcases List.mem_append.mp front with other | operator
    · simp only [List.mem_cons, List.not_mem_nil, or_false] at other
      rcases other with rfl | rfl | rfl | rfl | rfl | rfl | rfl | rfl | rfl | rfl
      · refine .inr fun c cs other => ?_
        have notBlank : isBlank c = false := by
          refine Bool.eq_false_iff.mpr fun blank => other ?_
          exact List.mem_append_left _ (List.mem_cons_of_mem '/' (isSpace_of_isBlank blank))
        simp [blanks, many, notBlank]
      · exact .inl regular_word
      · exact .inl regular_hexInteger
      · exact .inl regular_fractionReal
      · exact .inl regular_exponentReal
      · exact .inl regular_digits
      · refine .inr fun c cs other => ?_
        have absent : exactly "'" (c :: cs) = none := unopened cs rfl (by decide) other
        simp [character, andThen, absent]
      · refine .inr fun c cs other => ?_
        have absent : exactly "\"" (c :: cs) = none := unopened cs rfl (by decide) other
        simp [string, andThen, absent]
      · refine .inr fun c cs other => ?_
        have notSlash : c ≠ '/' := ne (by decide) other
        simp [lineComment, notSlash]
      · refine .inr fun c cs other => ?_
        have absent : exactly "/*" (c :: cs) = none := unopened cs rfl (by decide) other
        simp [blockComment, andThen, absent]
    · obtain ⟨op, -, rfl⟩ := List.mem_map.mp operator
      by_cases isSlash : op = .slash
      · subst isSlash
        refine .inr fun c cs other => ?_
        have notSlash : c ≠ '/' := ne (by decide) other
        simp [ofOperator, slash, notSlash]
      · rw [ofOperator, if_neg isSlash]
        refine .inl (regular_exactly ?_ ?_)
        · cases op <;> first | exact absurd rfl isSlash | decide
        · cases op <;> decide
  · obtain ⟨delimiter, -, rfl⟩ := List.mem_map.mp mark
    refine .inl (regular_exactly ?_ ?_)
    · cases delimiter <;> decide
    · cases delimiter <;> decide

theorem firstMatch_character (cs : List Char) : firstMatch ('\'' :: cs) =
    (⟨character, .literal .character⟩ : LexemeRule).read? ('\'' :: cs) := by
  cases found : (⟨character, .literal .character⟩ : LexemeRule).read? ('\'' :: cs) with
  | none =>
    simp only [firstMatch, all, List.cons_append, List.nil_append, List.findSome?_cons, found]
    rfl
  | some =>
    simp only [firstMatch, all, List.cons_append, List.nil_append, List.findSome?_cons, found]
    rfl

theorem firstMatch_string (cs : List Char) : firstMatch ('"' :: cs) =
    (⟨string, .literal .string⟩ : LexemeRule).read? ('"' :: cs) := by
  cases found : (⟨string, .literal .string⟩ : LexemeRule).read? ('"' :: cs) with
  | none =>
    simp only [firstMatch, all, List.cons_append, List.nil_append, List.findSome?_cons, found]
    rfl
  | some =>
    simp only [firstMatch, all, List.cons_append, List.nil_append, List.findSome?_cons, found]
    rfl

theorem firstMatch_blank {c : Char} (space : IsSpace c) (cs : List Char) :
    firstMatch (c :: cs) = some (.trivia, (cs.takeWhile isBlank).length + 1) := by
  simp only [IsSpace, List.mem_cons, List.not_mem_nil, or_false] at space
  rcases space with rfl | rfl | rfl | rfl | rfl | rfl <;> rfl

theorem firstMatch_lineComment (cs : List Char) : firstMatch ('/' :: '/' :: cs) =
    some (.trivia, 2 + (cs.takeWhile fun c => decide (c ≠ '\n')).length) := rfl

theorem firstMatch_blockComment (cs : List Char) : firstMatch ('/' :: '*' :: cs) =
    (throughCloser cs).map fun n => (.trivia, 2 + n) := by
  have block : blockComment ('/' :: '*' :: cs) = (throughCloser cs).map (2 + ·) := rfl
  cases found : throughCloser cs with
  | none =>
    rw [found] at block
    simp only [firstMatch, all, List.cons_append, List.nil_append, List.findSome?_cons, read?, block]
    rfl
  | some n =>
    rw [found] at block
    simp only [firstMatch, all, List.cons_append, List.nil_append, List.findSome?_cons, read?, block]
    rfl

/-- A slash that begins no comment. -/
theorem firstMatch_slash {after : List Char} (line : after.head? ≠ some '/')
    (block : after.head? ≠ some '*') :
    firstMatch ('/' :: after) = some (.operator .slash, 1) := by
  cases after with
  | nil => rfl
  | cons c after =>
    have notLine : c ≠ '/' := fun same => line (congrArg some same)
    have notBlock : c ≠ '*' := fun same => block (congrArg some same)
    have absent : exactly "/*" ('/' :: c :: after) = none := by
      refine Option.eq_none_iff_forall_ne_some.mpr fun n found => ?_
      obtain ⟨-, begins⟩ := exactly_eq_some_iff.mp found
      exact notBlock (List.cons_prefix_cons.mp (List.cons_prefix_cons.mp begins).2).1.symm
    have line : lineComment ('/' :: c :: after) = none := by simp [lineComment, notLine]
    have block : blockComment ('/' :: c :: after) = none := by
      rw [blockComment, andThen, absent]
    have isSlash : (ofOperator .slash).pattern ('/' :: c :: after) = some 1 := by
      simp [ofOperator, slash, notBlock]
    simp only [firstMatch, all, Operator.all, List.map_cons, List.cons_append, List.nil_append,
      List.findSome?_cons, read?, line, block, isSlash]
    rfl

/-- A slash begins a comment, or it is an operator. -/
theorem firstMatch_slash_cases {cs : List Char} {kind : Kind} {n : Nat}
    (h : firstMatch ('/' :: cs) = some (kind, n)) :
    kind = .trivia ∨ kind = .operator .slash ∧ n = 1 := by
  by_cases line : cs.head? = some '/'
  · obtain ⟨cs, rfl⟩ := List.head?_eq_some_iff.mp line
    obtain ⟨rfl, -⟩ := Prod.mk.inj (Option.some.inj h)
    exact .inl rfl
  · by_cases block : cs.head? = some '*'
    · obtain ⟨cs, rfl⟩ := List.head?_eq_some_iff.mp block
      rw [firstMatch_blockComment] at h
      obtain ⟨m, -, same⟩ := Option.map_eq_some_iff.mp h
      exact .inl (Prod.mk.inj same).1.symm
    · rw [firstMatch_slash line block] at h
      obtain ⟨rfl, rfl⟩ := Prod.mk.inj (Option.some.inj h)
      exact .inr ⟨rfl, rfl⟩

/-! ### Reading again -/

theorem read?_eq_some_iff {rule : LexemeRule} {cs : List Char} {kind : Kind} {n : Nat} :
    rule.read? cs = some (kind, n) ↔
      rule.pattern cs = some n ∧ rule.kind (String.ofList (cs.take n)) = kind := by
  unfold read?
  cases rule.pattern cs with
  | none => simp
  | some m =>
    simp only [Option.map_some, Option.some.injEq, Prod.mk.injEq]
    constructor
    · rintro ⟨same, rfl⟩
      exact ⟨rfl, same⟩
    · rintro ⟨rfl, same⟩
      exact ⟨same, rfl⟩

section

variable {text rest after : List Char} {kind : Kind}

/-- What a rule reads in front of something it reads in front of anything, if its pattern is fixed. -/
theorem read?_again {rule : LexemeRule} (fixed : rule.pattern.Fixed) (after : List Char)
    (h : rule.read? (text ++ rest) = some (kind, text.length)) :
    rule.read? (text ++ after) = some (kind, text.length) := by
  obtain ⟨found, same⟩ := read?_eq_some_iff.mp h
  rw [List.take_left] at same
  refine read?_eq_some_iff.mpr ⟨fixed _ _ _ found, ?_⟩
  rwa [List.take_left]

/-- A lexeme that begins with no special character is read again in front of a gap. -/
theorem firstMatch_again_regular {c : Char} (plain : c ∉ specialStarts) (gap : StartsGap after)
    (h : firstMatch (c :: text ++ rest) = some (kind, (c :: text).length)) :
    firstMatch (c :: text ++ after) = some (kind, (c :: text).length) := by
  obtain ⟨before, rule, behind, parts, read, refused⟩ := List.findSome?_eq_some_iff.mp h
  refine List.findSome?_eq_some_iff.mpr ⟨before, rule, behind, parts, ?_, fun other mem => ?_⟩
  · obtain ⟨found, same⟩ := read?_eq_some_iff.mp read
    rw [List.take_left] at same
    refine read?_eq_some_iff.mpr ⟨?_, by rwa [List.take_left]⟩
    rcases regular_or_special rule (by simp [parts]) with regular | special
    · exact regular.some_again gap found
    · cases (special c _ plain).symm.trans found
  · have none : other.pattern (c :: text ++ rest) = none := by
      simpa [read?] using refused other mem
    rw [read?, Option.map_eq_none_iff]
    rcases regular_or_special other (by simp [parts, mem]) with regular | special
    · exact regular.none_again gap none
    · exact special c _ plain

/-- A lexeme of a token is read again in front of a gap. Only behind a slash the gap must begin with
white space. -/
theorem firstMatch_again (h : firstMatch (text ++ rest) = some (kind, text.length))
    (token : kind.IsSpelled) (gap : StartsGap after)
    (space : kind = .operator .slash → ∀ c ∈ after.head?, IsSpace c) :
    firstMatch (text ++ after) = some (kind, text.length) := by
  have notTrivia : kind ≠ .trivia := by
    rintro rfl
    exact token
  have nonempty : text ≠ [] := by
    rintro rfl
    rcases firstMatch_spec h with ⟨-, some, -⟩ | ⟨trivia, -⟩
    · cases some
    · exact notTrivia trivia
  obtain ⟨c, text, rfl⟩ := List.exists_cons_of_ne_nil nonempty
  by_cases plain : c ∉ specialStarts
  · exact firstMatch_again_regular plain gap h
  · rw [not_not] at plain
    rcases List.mem_append.mp plain with mem | quote
    · rcases List.mem_cons.mp mem with rfl | blank
      · obtain ⟨rfl, length⟩ := (firstMatch_slash_cases h).resolve_left notTrivia
        obtain rfl : text = [] := List.length_eq_zero_iff.mp (Nat.succ.inj length)
        have behind := space rfl
        refine firstMatch_slash ?_ ?_
        · intro line
          exact absurd (behind '/' line) (by simp [IsSpace])
        · intro block
          exact absurd (behind '*' block) (by simp [IsSpace])
      · have trivia := firstMatch_blank blank (text ++ rest)
        obtain ⟨rfl, -⟩ := Prod.mk.inj (Option.some.inj (h.symm.trans trivia))
        exact absurd rfl notTrivia
    · simp only [List.mem_cons, List.not_mem_nil, or_false] at quote
      rcases quote with rfl | rfl
      · rw [List.cons_append, firstMatch_character, ← List.cons_append] at h ⊢
        exact read?_again fixed_character after h
      · rw [List.cons_append, firstMatch_string, ← List.cons_append] at h ⊢
        exact read?_again fixed_string after h

end

end LexemeRule

end PlainC
