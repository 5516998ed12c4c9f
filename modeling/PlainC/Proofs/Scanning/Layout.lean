import PlainC.Proofs.Scanning.Context
import PlainC.Proofs.Scanning.Source

set_option autoImplicit false

/-!
The layout of a source. Its lexemes can be laid out in any other way, with white space and comments
between them: the scan makes tokens of the same kinds, on the lines that the gaps make.
-/

namespace PlainC

/-- White space, comments with the line feed behind them and comments between their marks, in any
number and order. -/
inductive Filler : List Char → Prop
  | nil : Filler []
  | space {c cs} : IsSpace c → Filler cs → Filler (c :: cs)
  | lineComment {body cs} : '\n' ∉ body → Filler cs →
      Filler ('/' :: '/' :: (body ++ '\n' :: cs))
  | blockComment {body cs} : ¬['*', '/'] <:+: body ++ ['*'] → Filler cs →
      Filler ('/' :: '*' :: (body ++ '*' :: '/' :: cs))

/-- A white-space character and any filler behind it. -/
def Separator (gap : List Char) : Prop :=
  ∃ c rest, gap = c :: rest ∧ IsSpace c ∧ Filler rest

/-- Gaps for the places behind a lexeme of a kind: a separator in front of each further lexeme, and
at the end nothing, a separator, or any filler if this cannot make a slash the beginning of a
comment. -/
inductive LayoutBehind : Kind → List Kind → List (List Char) → Prop
  | finish {before gap} : gap = [] ∨ Separator gap ∨ Filler gap ∧ before ≠ .operator .slash →
      LayoutBehind before [.endOfInput] [gap]
  | lexeme {before kind kinds gap gaps} : Separator gap → LayoutBehind kind kinds gaps →
      LayoutBehind before (kind :: kinds) (gap :: gaps)

/-- Gaps for the places in front of each lexeme and of the end of input. There can be any filler in
front of the first lexeme. -/
inductive Layout : List Kind → List (List Char) → Prop
  | empty {gap} : Filler gap → Layout [.endOfInput] [gap]
  | lexemes {kind kinds gap gaps} : Filler gap → LayoutBehind kind kinds gaps →
      Layout (kind :: kinds) (gap :: gaps)

/-- Gaps and the lexemes of kinds by turns. -/
def laidOut (gaps : List (List Char)) (kinds : List Kind) : List Char :=
  (List.zipWith (fun gap kind => gap ++ kind.lexeme.toList) gaps kinds).flatten

theorem laidOut_cons (gap : List Char) (gaps : List (List Char)) (kind : Kind)
    (kinds : List Kind) : laidOut (gap :: gaps) (kind :: kinds) =
      gap ++ (kind.lexeme.toList ++ laidOut gaps kinds) := by
  simp [laidOut]

theorem laidOut_end (gap : List Char) : laidOut [gap] [.endOfInput] = gap := by
  simp [laidOut, show Kind.endOfInput.lexeme.toList = [] from rfl]

/-! ### Fillers -/

theorem filler_replicate {c : Char} (space : IsSpace c) (n : Nat) :
    Filler (List.replicate n c) := by
  induction n with
  | zero => exact .nil
  | succ n ih => exact .space space ih

theorem isBlank_of_isSpace {c : Char} (h : IsSpace c) : Pattern.isBlank c = true := by
  simp only [IsSpace, List.mem_cons, List.not_mem_nil, or_false] at h
  rcases h with rfl | rfl | rfl | rfl | rfl | rfl <;> decide

theorem Separator.filler {gap : List Char} (h : Separator gap) : Filler gap := by
  obtain ⟨c, rest, rfl, space, filler⟩ := h
  exact .space space filler

theorem Filler.startsGap {gap : List Char} (h : Filler gap) : StartsGap gap := by
  intro c first
  cases h with
  | nil => cases first
  | space space =>
    obtain rfl := Option.some.inj first
    exact List.mem_cons_of_mem _ space
  | lineComment | blockComment =>
    obtain rfl := Option.some.inj first
    exact List.mem_cons_self

theorem Filler.dropBlanks {gap : List Char} (h : Filler gap) :
    Filler (gap.dropWhile Pattern.isBlank) := by
  induction h with
  | nil => exact .nil
  | space space _ ih => rwa [List.dropWhile_cons_of_pos (isBlank_of_isSpace space)]
  | lineComment body filler =>
    rw [List.dropWhile_cons_of_neg (by decide)]
    exact .lineComment body filler
  | blockComment body filler =>
    rw [List.dropWhile_cons_of_neg (by decide)]
    exact .blockComment body filler

theorem throughCloser_of_first {body : List Char} (rest : List Char)
    (first : ¬['*', '/'] <:+: body ++ ['*']) :
    Pattern.throughCloser (body ++ '*' :: '/' :: rest) = some (body.length + 2) := by
  induction body with
  | nil => rfl
  | cons c body ih =>
    rw [List.cons_append, List.infix_cons_iff, not_or] at first
    have other : ∀ cs, ¬(c = '*' ∧ body ++ '*' :: '/' :: rest = '/' :: cs) := by
      rintro cs ⟨rfl, same⟩
      cases body with
      | nil => cases same
      | cons d body =>
        obtain ⟨rfl, -⟩ := List.cons.inj same
        exact first.1 (by simp)
    have step : Pattern.throughCloser (c :: (body ++ '*' :: '/' :: rest)) =
        (Pattern.throughCloser (body ++ '*' :: '/' :: rest)).map (· + 1) := by
      rw [Pattern.throughCloser]
      intro cs star slash
      exact other cs ⟨star, slash⟩
    rw [List.cons_append, step, ih first.2]
    simp only [Option.map_some, List.length_cons]

namespace LexemeRule

/-- A comment to the end of its line is matched, whatever is in it. -/
theorem firstMatch_of_oneLine {body after : List Char} (oneLine : '\n' ∉ body)
    (ends : ∀ c ∈ after.head?, c = '\n') :
    firstMatch ('/' :: '/' :: body ++ after) = some (.trivia, ('/' :: '/' :: body).length) := by
  have line : (body ++ after).takeWhile (fun c => decide (c ≠ '\n')) = body := by
    have stops : after.takeWhile (fun c => decide (c ≠ '\n')) = [] := by
      cases after with
      | nil => rfl
      | cons c after => exact List.takeWhile_cons_of_neg (by simp [ends c rfl])
    rw [List.takeWhile_append_of_pos, stops, List.append_nil]
    exact fun c among => decide_eq_true fun lineFeed => oneLine (lineFeed ▸ among)
  rw [List.cons_append, List.cons_append, firstMatch_lineComment, line, Nat.add_comm]
  rfl

/-- A comment is matched up to its first closing mark, whatever stands behind it. -/
theorem firstMatch_of_first {body : List Char} (after : List Char)
    (first : ¬['*', '/'] <:+: body ++ ['*']) :
    firstMatch ('/' :: '*' :: (body ++ '*' :: '/' :: after)) =
      some (.trivia, ('/' :: '*' :: (body ++ ['*', '/'])).length) := by
  rw [firstMatch_blockComment, throughCloser_of_first after first, Option.map_some]
  simp only [List.length_cons, List.length_append, List.length_nil]
  congr 2
  omega

end LexemeRule

open LexemeRule

/-- The first piece of a filler is read as trivia, and behind it there is a filler again. -/
theorem Filler.exists_piece {gap rest : List Char} (h : Filler gap) (nonempty : gap ≠ [])
    (other : ∀ c ∈ rest.head?, Pattern.isBlank c = false) :
    ∃ piece behind, gap = piece ++ behind ∧ piece ≠ [] ∧ Filler behind ∧
      firstMatch (gap ++ rest) = some (.trivia, piece.length) := by
  cases h with
  | nil => exact absurd rfl nonempty
  | @space c cs space filler =>
    have blank := isBlank_of_isSpace space
    refine ⟨c :: cs.takeWhile Pattern.isBlank, cs.dropWhile Pattern.isBlank, ?_,
      List.cons_ne_nil _ _, filler.dropBlanks, ?_⟩
    · rw [List.cons_append, List.takeWhile_append_dropWhile]
    · have none : rest.takeWhile Pattern.isBlank = [] := by
        cases rest with
        | nil => rfl
        | cons d rest => exact List.takeWhile_cons_of_neg (by simp [other d rfl])
      have same : (cs ++ rest).takeWhile Pattern.isBlank = cs.takeWhile Pattern.isBlank := by
        rcases Pattern.takeWhile_cases Pattern.isBlank cs rest with ⟨all, longer⟩ | same
        · rw [longer, none, List.append_nil, all]
        · exact same
      rw [List.cons_append, firstMatch_blank space, same, List.length_cons]
  | @lineComment body cs noLineFeed filler =>
    refine ⟨'/' :: '/' :: body, '\n' :: cs, rfl, List.cons_ne_nil _ _,
      .space (by simp [IsSpace]) filler, ?_⟩
    have matched := firstMatch_of_oneLine noLineFeed
      (show ∀ c ∈ ('\n' :: (cs ++ rest)).head?, c = '\n' by simp)
    simpa using matched
  | @blockComment body cs first filler =>
    refine ⟨'/' :: '*' :: (body ++ ['*', '/']), cs, by simp, List.cons_ne_nil _ _, filler, ?_⟩
    simp only [List.cons_append, List.append_assoc]
    exact firstMatch_of_first (cs ++ rest) first

namespace Scanner

/-- A filler is skipped to its end. -/
theorem skipTrivia_filler {gap rest : List Char} (filler : Filler gap)
    (other : ∀ n, firstMatch rest ≠ some (.trivia, n)) (s : Scanner) (here : s.rest = gap ++ rest)
    (fuel : Nat) (enough : gap.length ≤ fuel) : s.skipTrivia fuel =
      ⟨rest, s.offset + byteLength gap, s.line + gap.count '\n'⟩ := by
  have notBlank : ∀ c ∈ rest.head?, Pattern.isBlank c = false := by
    intro c first
    obtain ⟨cs, rfl⟩ := List.head?_eq_some_iff.mp first
    refine Bool.eq_false_iff.mpr fun blank => ?_
    exact other _ (firstMatch_blank (Pattern.isSpace_of_isBlank blank) cs)
  induction fuel generalizing gap s with
  | zero =>
    obtain rfl := List.length_eq_zero_iff.mp (Nat.le_zero.mp enough)
    obtain ⟨_, offset, line⟩ := s
    obtain rfl : _ = rest := here
    rfl
  | succ fuel ih =>
    by_cases nonempty : gap = []
    · subst nonempty
      obtain ⟨_, offset, line⟩ := s
      obtain rfl : _ = rest := here
      unfold skipTrivia
      split
      · rename_i n found
        exact absurd found (other n)
      · rfl
    · obtain ⟨piece, behind, rfl, some, filler, found⟩ := filler.exists_piece nonempty notBlank
      have shorter : behind.length ≤ fuel := by
        have positive := List.length_pos_iff.mpr some
        rw [List.length_append] at enough
        omega
      rw [List.append_assoc] at here
      have skipped : s.skip piece.length =
          ⟨behind ++ rest, s.offset + byteLength piece, s.line + piece.count '\n'⟩ := by
        simp [skip, drop, here]
      rw [skipTrivia, here, ← List.append_assoc, found]
      simp only
      rw [skipped, ih filler _ rfl shorter, byteLength_append, List.count_append]
      simp only [Nat.add_assoc]

end Scanner

/-! ### Lexemes -/

/-- The lexeme of the kind was read, in front of some text, as that of a token. -/
def Kind.IsScanned (kind : Kind) : Prop :=
  kind.IsSpelled ∧ ∃ rest, kind.numberProblem? rest = none ∧
    firstMatch (kind.lexeme.toList ++ rest) = some (kind, kind.lexeme.toList.length)

/-- The lexeme of the kind is read in front of this text, as that of a token. -/
def Kind.IsScannedBefore (kind : Kind) (rest : List Char) : Prop :=
  kind.IsSpelled ∧ kind.numberProblem? rest = none ∧
    firstMatch (kind.lexeme.toList ++ rest) = some (kind, kind.lexeme.toList.length)

theorem Kind.IsScannedBefore.isScanned {kind : Kind} {rest : List Char}
    (h : kind.IsScannedBefore rest) : kind.IsScanned :=
  ⟨h.1, rest, h.2⟩

/-- There is nothing wrong with a number in front of a gap, if there was nothing wrong with it in
front of something else. -/
theorem Kind.numberProblem?_again {kind : Kind} {rest after : List Char} (gap : StartsGap after)
    (h : kind.numberProblem? rest = none) : kind.numberProblem? after = none := by
  have noTail : after.takeWhile Pattern.isWordChar = [] := by
    cases after with
    | nil => rfl
    | cons c after =>
      have apart : ∀ c ∈ gapStarts, ¬Pattern.isWordChar c = true := by decide
      exact List.takeWhile_cons_of_neg (apart c (gap c rfl))
  cases kind with
  | literal form text =>
    cases form with
    | integer =>
      have noMore : rest.takeWhile Pattern.isWordChar = [] := by
        by_contra more
        rw [numberProblem?, if_pos more] at h
        cases h
      rw [numberProblem?, noMore] at h
      rwa [numberProblem?, noTail]
    | real => rw [numberProblem?, noTail]; rfl
    | _ => rfl
  | _ => rfl

theorem Kind.IsScanned.firstMatch_eq {kind : Kind} (h : kind.IsScanned) {after : List Char}
    (gap : StartsGap after) (space : kind = .operator .slash → ∀ c ∈ after.head?, IsSpace c) :
    firstMatch (kind.lexeme.toList ++ after) = some (kind, kind.lexeme.toList.length) := by
  obtain ⟨spelled, rest, -, found⟩ := h
  exact firstMatch_again found spelled gap space

theorem Kind.IsScanned.lexeme_ne_nil {kind : Kind} (h : kind.IsScanned) :
    kind.lexeme.toList ≠ [] := by
  obtain ⟨spelled, rest, -, found⟩ := h
  intro empty
  rcases firstMatch_spec found with ⟨-, some, -⟩ | ⟨rfl, -⟩
  · rw [empty] at some
    cases some
  · exact spelled

namespace Scanner

theorem isScannedBefore_of_next {s s' : Scanner} {token : Token} (h : s.next = (.ok token, s')) :
    token.kind = .endOfInput ∨ token.kind.IsScannedBefore s'.rest := by
  obtain ⟨-, -, -, -, -, other⟩ := s.skipTrivia_spec s.rest.length (Nat.le_refl _)
  unfold next lexeme at h
  split at h
  · obtain ⟨same, -⟩ := Prod.mk.inj h
    obtain rfl := Except.ok.inj same
    exact .inl rfl
  · split at h
    · rename_i kind n found
      split at h
      · rename_i noProblem
        obtain ⟨same, rfl⟩ := Prod.mk.inj h
        obtain rfl := Except.ok.inj same
        refine .inr ?_
        rcases firstMatch_spec found with ⟨spelled, -, inline, lexeme⟩ | ⟨rfl, -⟩
        · refine ⟨spelled, noProblem, ?_⟩
          rw [lexeme, drop, List.take_append_drop, List.length_take,
            Nat.min_eq_left inline.le_length]
          exact found
        · exact absurd found (other n)
      · cases h
    · cases h

theorem isScanned_of_tokens {fuel : Nat} {s : Scanner} {tokens : List Token}
    (h : s.tokens fuel = .ok tokens) :
    ∀ token ∈ tokens, token.kind = .endOfInput ∨ token.kind.IsScanned := by
  induction fuel generalizing s tokens with
  | zero =>
    obtain rfl := Except.ok.inj h
    nofun
  | succ fuel ih =>
    unfold Scanner.tokens at h
    split at h
    · cases h
    · rename_i token after read
      have first := (isScannedBefore_of_next read).imp_right Kind.IsScannedBefore.isScanned
      split at h
      · obtain rfl := Except.ok.inj h
        simpa using first
      · cases rest : after.tokens fuel with
        | error fault =>
          rw [rest] at h
          cases h
        | ok tokens =>
          rw [rest] at h
          obtain rfl := Except.ok.inj h
          exact List.forall_mem_cons.mpr ⟨first, ih rest⟩

end Scanner

/-! ### Calls -/

theorem LayoutBehind.startsGap {before : Kind} {kinds : List Kind} {gaps : List (List Char)}
    (h : LayoutBehind before kinds gaps) : StartsGap (laidOut gaps kinds) := by
  cases h with
  | @finish _ gap possible =>
    rw [laidOut_end]
    rcases possible with rfl | separator | ⟨filler, -⟩
    · nofun
    · exact separator.filler.startsGap
    · exact filler.startsGap
  | lexeme separator _ =>
    obtain ⟨c, rest, rfl, space, -⟩ := separator
    rw [laidOut_cons]
    intro d first
    obtain rfl := Option.some.inj first
    exact List.mem_cons_of_mem _ space

theorem LayoutBehind.space_of_slash {before : Kind} {kinds : List Kind} {gaps : List (List Char)}
    (h : LayoutBehind before kinds gaps) (slash : before = .operator .slash) :
    ∀ c ∈ (laidOut gaps kinds).head?, IsSpace c := by
  cases h with
  | @finish _ gap possible =>
    rw [laidOut_end]
    rcases possible with rfl | ⟨c, rest, rfl, space, -⟩ | ⟨-, other⟩
    · nofun
    · intro d first
      obtain rfl := Option.some.inj first
      exact space
    · exact absurd slash other
  | lexeme separator _ =>
    obtain ⟨c, rest, rfl, space, -⟩ := separator
    rw [laidOut_cons]
    intro d first
    obtain rfl := Option.some.inj first
    exact space

namespace Scanner

/-- The scan reads the kinds behind the gaps, each on the line that the gaps up to it make. -/
def Reads (s : Scanner) (gaps : List (List Char)) (kinds : List Kind) : Prop :=
  ∀ fuel, s.rest.length < fuel → ∃ tokens, s.tokens fuel = .ok tokens ∧
    tokens.map Token.kind = kinds ∧
    ∀ i token, tokens[i]? = some token →
      token.line = s.line + (gaps.take (i + 1)).flatten.count '\n'

variable {s : Scanner} {gap after : List Char} {kind : Kind}

/-- A call in front of a filler and a lexeme. -/
theorem next_filler (filler : Filler gap) (scanned : kind.IsScanned) (startsGap : StartsGap after)
    (space : kind = .operator .slash → ∀ c ∈ after.head?, IsSpace c)
    (here : s.rest = gap ++ (kind.lexeme.toList ++ after)) :
    ∃ token s', s.next = (.ok token, s') ∧ token.kind = kind ∧
      token.line = s.line + gap.count '\n' ∧ s'.rest = after ∧
      s'.line = s.line + gap.count '\n' := by
  have found := scanned.firstMatch_eq startsGap space
  have other : ∀ n, LexemeRule.firstMatch (kind.lexeme.toList ++ after) ≠ some (.trivia, n) := by
    intro n trivia
    obtain ⟨rfl, -⟩ := Prod.mk.inj (Option.some.inj (found.symm.trans trivia))
    exact scanned.1
  obtain ⟨-, rest, noProblem, -⟩ := id scanned
  have noProblem' := Kind.numberProblem?_again startsGap noProblem
  have skipped := skipTrivia_filler filler other s here s.rest.length (by
    rw [here, List.length_append]
    exact Nat.le_add_right ..)
  rw [next, skipped, lexeme_of_match found (by rwa [List.drop_left])]
  exact ⟨_, _, rfl, rfl, rfl, List.drop_left .., rfl⟩

/-- A call in front of a filler at the end of the text. -/
theorem next_filler_end (filler : Filler gap) (here : s.rest = gap) :
    ∃ token s', s.next = (.ok token, s') ∧ token.kind = .endOfInput ∧
      token.line = s.line + gap.count '\n' := by
  have other : ∀ n, LexemeRule.firstMatch [] ≠ some (.trivia, n) := by
    rw [LexemeRule.firstMatch_nil]
    nofun
  have skipped := skipTrivia_filler filler other s (by rw [here, List.append_nil]) s.rest.length
    (Nat.le_of_eq (congrArg _ here.symm))
  rw [next, skipped, lexeme]
  exact ⟨_, _, rfl, rfl, rfl⟩

theorem reads_end (filler : Filler gap) (here : s.rest = gap) : s.Reads [gap] [.endOfInput] := by
  intro fuel enough
  obtain ⟨token, s', answered, ended, line⟩ := next_filler_end filler here
  obtain ⟨fuel, rfl⟩ := Nat.exists_eq_add_one_of_ne_zero (Nat.ne_of_gt (Nat.zero_lt_of_lt enough))
  refine ⟨[token], ?_, by rw [List.map_singleton, ended], ?_⟩
  · rw [tokens, answered]
    exact if_pos ended
  · intro i token' found
    obtain ⟨rfl, rfl⟩ : i = 0 ∧ token = token' := by simpa [List.getElem?_singleton] using found
    simpa using line

theorem reads_lexeme {kinds : List Kind} {gaps : List (List Char)} (filler : Filler gap)
    (scanned : kind.IsScanned) (layout : LayoutBehind kind kinds gaps)
    (here : s.rest = laidOut (gap :: gaps) (kind :: kinds))
    (behind : ∀ s' : Scanner, s'.rest = laidOut gaps kinds → s'.Reads gaps kinds) :
    s.Reads (gap :: gaps) (kind :: kinds) := by
  intro fuel enough
  rw [laidOut_cons] at here
  obtain ⟨token, s', answered, rfl, line, rest, line'⟩ :=
    next_filler filler scanned layout.startsGap layout.space_of_slash here
  obtain ⟨fuel, rfl⟩ := Nat.exists_eq_add_one_of_ne_zero (Nat.ne_of_gt (Nat.zero_lt_of_lt enough))
  have shorter : s'.rest.length < fuel := by
    have positive := List.length_pos_iff.mpr scanned.lexeme_ne_nil
    rw [here, List.length_append, List.length_append] at enough
    rw [rest]
    omega
  obtain ⟨tokens, answers, kinds_eq, lines⟩ := behind s' rest fuel shorter
  have notEnd : token.kind ≠ .endOfInput := by
    intro ended
    rw [ended] at scanned
    exact scanned.1
  refine ⟨token :: tokens, ?_, by rw [List.map_cons, kinds_eq], ?_⟩
  · rw [Scanner.tokens, answered]
    simp only [if_neg notEnd, answers]
    rfl
  · rintro (_ | i) token' found
    · obtain rfl := Option.some.inj found
      simpa using line
    · rw [lines i token' found, line', List.take_succ_cons, List.flatten_cons, List.count_append,
        Nat.add_assoc]

theorem reads_layoutBehind {before : Kind} {kinds : List Kind} {gaps : List (List Char)}
    (layout : LayoutBehind before kinds gaps) (scanned : ∀ kind ∈ kinds.dropLast, kind.IsScanned)
    (s : Scanner) (here : s.rest = laidOut gaps kinds) : s.Reads gaps kinds := by
  induction layout generalizing s with
  | finish possible =>
    refine reads_end ?_ (by rwa [laidOut_end] at here)
    rcases possible with rfl | separator | ⟨filler, -⟩
    · exact .nil
    · exact separator.filler
    · exact filler
  | @lexeme before kind kinds gap gaps separator layout ih =>
    have some : kinds ≠ [] := by
      rintro rfl
      cases layout
    rw [List.dropLast_cons_of_ne_nil some, List.forall_mem_cons] at scanned
    exact reads_lexeme separator.filler scanned.1 layout here (ih scanned.2)

theorem reads_layout {kinds : List Kind} {gaps : List (List Char)}
    (layout : Layout kinds gaps) (scanned : ∀ kind ∈ kinds.dropLast, kind.IsScanned)
    (s : Scanner) (here : s.rest = laidOut gaps kinds) : s.Reads gaps kinds := by
  cases layout with
  | empty filler =>
    exact reads_end filler (by rwa [laidOut_end] at here)
  | @lexemes kind kinds gap gaps filler layout =>
    have some : kinds ≠ [] := by
      rintro rfl
      cases layout
    rw [List.dropLast_cons_of_ne_nil some, List.forall_mem_cons] at scanned
    exact reads_lexeme filler scanned.1 layout here fun s' here' =>
      reads_layoutBehind layout scanned.2 s' here'

end Scanner

/-! ### Sources -/

/-- A lexeme stands on one line. -/
theorem Kind.IsScanned.noLineFeed {kind : Kind} (h : kind.IsScanned) :
    '\n' ∉ kind.lexeme.toList := by
  obtain ⟨spelled, rest, -, found⟩ := h
  rcases firstMatch_spec found with ⟨-, -, inline, -⟩ | ⟨rfl, -⟩
  · have noLineFeed := inline.noLineFeed
    rwa [List.take_left] at noLineFeed
  · exact absurd spelled id

theorem LayoutBehind.count_laidOut {before : Kind} {kinds : List Kind} {gaps : List (List Char)}
    (layout : LayoutBehind before kinds gaps)
    (inline : ∀ kind ∈ kinds, '\n' ∉ kind.lexeme.toList) :
    (laidOut gaps kinds).count '\n' = gaps.flatten.count '\n' := by
  induction layout with
  | finish => rw [laidOut_end, List.flatten_singleton]
  | lexeme separator layout ih =>
    obtain ⟨first, others⟩ := List.forall_mem_cons.mp inline
    rw [laidOut_cons, List.count_append, List.count_append, List.count_eq_zero_of_not_mem first,
      ih others, List.flatten_cons, List.count_append, Nat.zero_add]

variable {source : String} {tokens : List Token}

/-- A source is its lexemes with trivia between them. -/
theorem exists_laidOut (scanned : tokenize source = .ok tokens) :
    ∃ own : List (List Char), own.length = tokens.length ∧ (∀ gap ∈ own, Trivia gap) ∧
      source.toList = laidOut own (tokens.map Token.kind) := by
  obtain ⟨tiles, last, tiling, -, tiled, -⟩ := Scanner.exists_tiling source
  obtain ⟨answers, parts, -⟩ := tiled tokens scanned
  refine ⟨(tiles ++ [last]).map Tile.gap, ?_, ?_, ?_⟩
  · simpa using (congrArg List.length answers).symm
  · intro gap mem
    obtain ⟨tile, inside, rfl⟩ := List.mem_map.mp mem
    exact tiling.gaps tile inside
  · rw [parts, laidOut, List.zipWith_map]

theorem isScanned_of_tokenize (scanned : tokenize source = .ok tokens) :
    ∀ kind ∈ (tokens.map Token.kind).dropLast, kind.IsScanned := by
  obtain ⟨tiles, last, -, -, tiled, -⟩ := Scanner.exists_tiling source
  obtain ⟨-, -, front, final, rfl, -, others⟩ := tiled tokens scanned
  rw [List.map_append, List.map_singleton, List.dropLast_concat]
  intro kind mem
  obtain ⟨token, inside, rfl⟩ := List.mem_map.mp mem
  exact (Scanner.isScanned_of_tokens scanned token (List.mem_append_left _ inside)).resolve_left
    (others token inside).1

namespace Layout

variable {gaps : List (List Char)} (layout : Layout (tokens.map Token.kind) gaps)
include layout

/-- The lines of a source are made by the gaps only. -/
theorem count_laidOut (scanned : tokenize source = .ok tokens) :
    (laidOut gaps (tokens.map Token.kind)).count '\n' = gaps.flatten.count '\n' := by
  have inline : ∀ kind ∈ tokens.map Token.kind, '\n' ∉ kind.lexeme.toList := by
    intro kind among
    obtain ⟨token, inside, rfl⟩ := List.mem_map.mp among
    rcases Scanner.isScanned_of_tokens scanned token inside with ended | isLexeme
    · rw [ended]
      exact List.not_mem_nil
    · exact isLexeme.noLineFeed
  generalize tokens.map Token.kind = kinds at layout inline ⊢
  cases layout with
  | empty => rw [laidOut_end, List.flatten_singleton]
  | lexemes filler layout =>
    obtain ⟨first, others⟩ := List.forall_mem_cons.mp inline
    rw [laidOut_cons, List.count_append, List.count_append, List.count_eq_zero_of_not_mem first,
      layout.count_laidOut others, List.flatten_cons, List.count_append, Nat.zero_add]

/-- Laid out in another way the lexemes of a source are tokens of the same kinds, on the lines that
the gaps make. -/
theorem tokenize_laidOut_eq (scanned : tokenize source = .ok tokens) :
    ∃ tokens', tokenize (String.ofList (laidOut gaps (tokens.map Token.kind))) = .ok tokens' ∧
      tokens'.map Token.kind = tokens.map Token.kind ∧
      ∀ i token, tokens'[i]? = some token →
        token.line = 1 + (gaps.take (i + 1)).flatten.count '\n' :=
  Scanner.reads_layout layout (isScanned_of_tokenize scanned)
    (Scanner.ofString (String.ofList (laidOut gaps _))) (String.toList_ofList ..) _
    (Nat.lt_succ_self _)

end Layout

end PlainC
