import PlainC.Diagnostic
import PlainC.Proofs.Guarded.Basic
import PlainC.Proofs.Literals.RoundTrip
import PlainC.Proofs.Scanning.Comments

set_option autoImplicit false

/-!
The scan with its guards. It counts the line feeds that it has gone over, and the line of a lexeme
is one more than they are; where the counter or the line does not fit into 32 bits stands a trap. In
a source whose lines can be counted the scan is the one without guards.
-/

namespace PlainC

namespace Guarded

/-- A number that is to be kept in a counter. -/
def counted (count : Nat) : Except Trap Nat :=
  if count < counterBound then .ok count else .error .wrapped

theorem counted_of_lt {count : Nat} (fits : count < counterBound) : counted count = .ok count :=
  if_pos fits

/-- What comes behind a step that may be trapped comes of its value. -/
theorem bind_eq_ok {α β : Type} {step : Except Trap α} {rest : α → Except Trap β} {b : β}
    (h : step >>= rest = .ok b) : ∃ a, step = .ok a ∧ rest a = .ok b := by
  cases step with
  | error trap => cases h
  | ok a => exact ⟨a, rfl, h⟩

/-- A scan in progress and the number of line feeds in the trivia that it has gone over. -/
structure Scan where
  rest : List Char
  offset : Nat
  newlines : Nat

namespace Scan

/-- The scan of a text from its beginning. -/
def ofString (source : String) : Scan := ⟨source.toList, 0, 0⟩

/-- The line of the scan is one more than the line feeds. -/
def line (s : Scan) : Except Trap Nat := counted (s.newlines + 1)

/-- The scanner in the same place, on a line. -/
def scanner (s : Scan) (line : Nat) : Scanner := ⟨s.rest, s.offset, line⟩

/-- The scan goes on where a scanner is, with as many line feeds behind it. -/
def moveTo (s : Scan) (scanner : Scanner) : Scan := ⟨scanner.rest, scanner.offset, s.newlines⟩

/-- The scan behind `n` characters of trivia. The number of their line feeds is cut to the width of
the counter and added to it. -/
def skip (s : Scan) (n : Nat) : Except Trap Scan := do
  let newlines ← counted (s.newlines + (s.rest.take n).count '\n' % counterBound)
  return ⟨s.rest.drop n, s.offset + byteLength (s.rest.take n), newlines⟩

/-- The scan behind the trivia in front of it; `fuel` bounds the number of pieces. -/
def skipTrivia : Nat → Scan → Except Trap Scan
  | 0, s => .ok s
  | fuel + 1, s =>
    match LexemeRule.firstMatch s.rest with
    | some (.trivia, n) => do skipTrivia fuel (← s.skip n)
    | _ => .ok s

/-- The token or fault directly in front of the scan, which is on the line of the scan, and the scan
behind it. -/
def lexeme (s : Scan) : Except Trap (Answer × Scan) := do
  let line ← s.line
  let (answer, behind) := (s.scanner line).lexeme
  return (answer, s.moveTo behind)

/-- The next token or fault behind the trivia, and the scan behind it. -/
def next (s : Scan) : Except Trap (Answer × Scan) := do
  (← skipTrivia s.rest.length s).lexeme

def tokens : Nat → Scan → Except Trap (Except ScanFault (List Token))
  | 0, _ => .ok (.ok [])
  | fuel + 1, s => do
    match ← s.next with
    | (.error fault, _) => return .error fault
    | (.ok token, behind) =>
      if token.kind = .endOfInput then return .ok [token]
      else return (← tokens fuel behind).map (token :: ·)

end Scan

/-- The tokens of a source, or its first fault. -/
def tokenize (source : String) : Except Trap (Except ScanFault (List Token)) :=
  let s := Scan.ofString source
  s.tokens (s.rest.length + 1)

namespace Scan

open LexemeRule

variable {s s' : Scan}

/-! ### One piece of trivia -/

theorem skip_of_append {piece after : List Char} (here : s.rest = piece ++ after) :
    s.skip piece.length = do
      let newlines ← counted (s.newlines + piece.count '\n' % counterBound)
      return ⟨after, s.offset + byteLength piece, newlines⟩ := by
  simp only [skip, here, List.take_left, List.drop_left]

theorem skip_spec {n : Nat} (skips : s.skip n = .ok s') :
    s'.rest = s.rest.drop n ∧ s'.offset = s.offset + byteLength (s.rest.take n) := by
  obtain ⟨newlines, -, same⟩ := bind_eq_ok skips
  obtain rfl := Except.ok.inj same
  exact ⟨rfl, rfl⟩

theorem length_of_skip {n : Nat} (found : firstMatch s.rest = some (.trivia, n))
    (skips : s.skip n = .ok s') : s'.rest.length < s.rest.length := by
  rcases firstMatch_spec found with ⟨spelled, -⟩ | ⟨-, le, piece⟩
  · cases spelled
  · have positive : n ≠ 0 := by
      rintro rfl
      exact piece.ne_nil rfl
    rw [(skip_spec skips).1, List.length_drop]
    omega

theorem skipTrivia_of_notTrivia (other : ∀ n, firstMatch s.rest ≠ some (.trivia, n)) (fuel : Nat) :
    s.skipTrivia fuel = .ok s := by
  cases fuel with
  | zero => rfl
  | succ fuel =>
    unfold skipTrivia
    split
    · exact absurd ‹_› (other _)
    · rfl

theorem skipTrivia_of_end (ended : s.rest.length ≤ 0) (fuel : Nat) : s.skipTrivia fuel = .ok s := by
  refine skipTrivia_of_notTrivia (fun n => ?_) fuel
  rw [List.length_eq_zero_iff.mp (Nat.le_zero.mp ended), firstMatch_nil]
  nofun

/-- It makes no difference how many more pieces of trivia could be skipped than there are. -/
theorem skipTrivia_congr {fuel fuel' : Nat} (enough : s.rest.length ≤ fuel)
    (enough' : s.rest.length ≤ fuel') : s.skipTrivia fuel = s.skipTrivia fuel' := by
  induction fuel generalizing s fuel' with
  | zero => rw [skipTrivia_of_end enough, skipTrivia_of_end enough]
  | succ fuel ih =>
    cases fuel' with
    | zero => rw [skipTrivia_of_end enough', skipTrivia_of_end enough']
    | succ fuel' =>
      unfold skipTrivia
      split
      · rename_i n found
        cases skips : s.skip n with
        | error trap => rfl
        | ok s' =>
          have shorter := length_of_skip found skips
          change s'.skipTrivia fuel = s'.skipTrivia fuel'
          exact ih (by omega) (by omega)
      · rfl

/-- A piece of trivia in front is skipped, and its line feeds are counted. -/
theorem next_of_trivia {piece after : List Char} (here : s.rest = piece ++ after)
    (found : firstMatch s.rest = some (.trivia, piece.length)) :
    s.next = (do
      let newlines ← counted (s.newlines + piece.count '\n' % counterBound)
      next ⟨after, s.offset + byteLength piece, newlines⟩) := by
  have positive : s.rest.length ≠ 0 := by
    intro none
    rw [List.length_eq_zero_iff.mp none, firstMatch_nil] at found
    cases found
  obtain ⟨fuel, length⟩ := Nat.exists_eq_add_one_of_ne_zero positive
  have skipped : s.skipTrivia s.rest.length = (do skipTrivia fuel (← s.skip piece.length)) := by
    rw [length, skipTrivia, found]
  have skips := skip_of_append here
  rw [next, skipped, skips]
  cases counts : counted (s.newlines + piece.count '\n' % counterBound) with
  | error trap => rfl
  | ok newlines =>
    rw [counts] at skips
    have shorter := length_of_skip found skips
    have enough : after.length ≤ fuel := by
      simp only [length] at shorter
      omega
    change (do (← skipTrivia fuel ⟨after, _, newlines⟩).lexeme) = next ⟨after, _, newlines⟩
    rw [next, skipTrivia_congr enough (Nat.le_refl _)]

/-- Where no trivia is in front, there is a lexeme. -/
theorem next_of_notTrivia (other : ∀ n, firstMatch s.rest ≠ some (.trivia, n)) :
    s.next = s.lexeme := by
  rw [next, skipTrivia_of_notTrivia other]
  rfl

/-- Behind a lexeme the scanner is on the same line. -/
theorem lexeme_snd (scanner : Scanner) : ∃ n, scanner.lexeme.2 = scanner.drop n := by
  unfold Scanner.lexeme
  split
  · exact ⟨0, by simp [Scanner.drop, byteLength]⟩
  · split
    · split
      · exact ⟨_, rfl⟩
      · exact ⟨_, rfl⟩
    · exact ⟨_, rfl⟩

/-- All line feeds, those that are left too, and one more are fewer than the bound. -/
def Fits (s : Scan) : Prop := s.newlines + s.rest.count '\n' + 1 < counterBound

instance (s : Scan) : Decidable s.Fits :=
  inferInstanceAs (Decidable (s.newlines + s.rest.count '\n' + 1 < counterBound))

/-- The lines can be counted, and the scan is where a scanner is, on the same line. -/
structure Mirrors (s : Scan) (scanner : Scanner) : Prop where
  fits : s.Fits
  same : s.scanner (s.newlines + 1) = scanner

theorem Fits.line_eq (fits : s.Fits) : s.line = .ok (s.newlines + 1) := by
  unfold Fits at fits
  exact counted_of_lt (by omega)

theorem Fits.mirrors (fits : s.Fits) : s.Mirrors (s.scanner (s.newlines + 1)) := ⟨fits, rfl⟩

theorem mirrors_skip (fits : s.Fits) (n : Nat) :
    ∃ s', s.skip n = .ok s' ∧ s'.Mirrors ((s.scanner (s.newlines + 1)).skip n) := by
  have parts : (s.rest.take n).count '\n' + (s.rest.drop n).count '\n' = s.rest.count '\n' := by
    rw [← List.count_append, List.take_append_drop]
  unfold Fits at fits
  have exactly : (s.rest.take n).count '\n' % counterBound = (s.rest.take n).count '\n' :=
    Nat.mod_eq_of_lt (by omega)
  refine ⟨⟨s.rest.drop n, s.offset + byteLength (s.rest.take n),
    s.newlines + (s.rest.take n).count '\n'⟩, ?_, ?_, ?_⟩
  · rw [skip, exactly, counted_of_lt (by omega)]
    rfl
  · change s.newlines + (s.rest.take n).count '\n' + (s.rest.drop n).count '\n' + 1 < counterBound
    omega
  · simp only [scanner, Scanner.skip, Scanner.drop, Scanner.mk.injEq, true_and]
    omega

theorem mirrors_skipTrivia (fuel : Nat) {scanner : Scanner} (mirrors : s.Mirrors scanner) :
    ∃ s', s.skipTrivia fuel = .ok s' ∧ s'.Mirrors (scanner.skipTrivia fuel) := by
  induction fuel generalizing s scanner with
  | zero => exact ⟨s, rfl, mirrors⟩
  | succ fuel ih =>
    obtain ⟨fits, rfl⟩ := mirrors
    unfold skipTrivia Scanner.skipTrivia
    change ∃ s' : Scan, _ ∧ s'.Mirrors (match firstMatch s.rest with
      | some (.trivia, n) => ((s.scanner (s.newlines + 1)).skip n).skipTrivia fuel
      | _ => s.scanner (s.newlines + 1))
    split
    · rename_i n found
      obtain ⟨s₁, skips, mirrors⟩ := mirrors_skip fits n
      rw [skips]
      exact ih mirrors
    · exact ⟨s, rfl, fits.mirrors⟩

theorem mirrors_next {scanner : Scanner} (mirrors : s.Mirrors scanner) :
    ∃ s', s.next = .ok (scanner.next.1, s') ∧ s'.Mirrors scanner.next.2 := by
  obtain ⟨here, skips, fits, same⟩ := mirrors_skipTrivia s.rest.length mirrors
  have result : scanner.next = (here.scanner (here.newlines + 1)).lexeme := by
    rw [same, ← mirrors.same]
    rfl
  obtain ⟨n, behind⟩ := lexeme_snd (here.scanner (here.newlines + 1))
  refine ⟨here.moveTo scanner.next.2, ?_, ?_, ?_⟩
  · rw [result, next, skips]
    change here.lexeme = _
    rw [lexeme, fits.line_eq]
    rfl
  · have fewer : (here.rest.drop n).count '\n' ≤ here.rest.count '\n' :=
      (List.drop_sublist n here.rest).count_le '\n'
    unfold Fits at fits
    rw [result, behind]
    change here.newlines + (here.rest.drop n).count '\n' + 1 < counterBound
    omega
  · rw [result, behind]
    rfl

theorem mirrors_tokens (fuel : Nat) {scanner : Scanner} (mirrors : s.Mirrors scanner) :
    s.tokens fuel = .ok (scanner.tokens fuel) := by
  induction fuel generalizing s scanner with
  | zero => rfl
  | succ fuel ih =>
    obtain ⟨s', answers, mirrors'⟩ := mirrors_next mirrors
    rcases found : scanner.next with ⟨fault | token, behind⟩
    all_goals
      rw [found] at answers mirrors'
      unfold tokens Scanner.tokens
      rw [answers, found]
    · rfl
    · change (if token.kind = .endOfInput then .ok (.ok [token]) else
        s'.tokens fuel >>= fun rest => .ok (rest.map (token :: ·))) =
        .ok (if token.kind = .endOfInput then .ok [token] else
          (Scanner.tokens fuel behind).map (token :: ·))
      rw [ih mirrors']
      split
      · rfl
      · rfl

end Scan

/-! ### Sources -/

/-- Where the lines of a source can be counted, its tokens are those of the scan without guards. -/
theorem tokenize_of_count {source : String} (fits : source.toList.count '\n' + 1 < counterBound) :
    tokenize source = .ok (PlainC.tokenize source) := by
  have all : (Scan.ofString source).Fits := by
    change 0 + source.toList.count '\n' + 1 < counterBound
    omega
  exact Scan.mirrors_tokens _ all.mirrors

/-- Only the source with nothing but line feeds, and as many as the counter can count, has as many
lines as bytes fit into it. -/
theorem count_add_one_lt {source : String} (short : source.utf8ByteSize < counterBound)
    (other : source.toList ≠ List.replicate (counterBound - 1) '\n') :
    source.toList.count '\n' + 1 < counterBound := by
  have feeds : source.toList.count '\n' ≤ source.toList.length := List.count_le_length
  have bytes := length_le_byteLength source.toList
  rw [byteLength_toList] at bytes
  by_contra many
  have length : source.toList.length = counterBound - 1 := by omega
  have all : source.toList.count '\n' = source.toList.length := by omega
  exact other (List.eq_replicate_iff.mpr
    ⟨length, fun c inside => (List.count_eq_length.mp all c inside).symm⟩)

/-- The line behind so many line feeds cannot be told. -/
theorem tokenize_lineFeeds {n : Nat} (bound : n + 1 = counterBound) :
    tokenize (String.ofList (List.replicate n '\n')) = .error .wrapped := by
  have lineFeed : IsSpace '\n' := by simp [IsSpace]
  have positive : n ≠ 0 := by
    rintro rfl
    cases bound
  obtain ⟨m, rfl⟩ := Nat.exists_eq_add_one_of_ne_zero positive
  have start : Scan.ofString (String.ofList (List.replicate (m + 1) '\n')) =
      ⟨List.replicate (m + 1) '\n', 0, 0⟩ := by
    rw [Scan.ofString, String.toList_ofList]
  have found : LexemeRule.firstMatch (List.replicate (m + 1) '\n') =
      some (.trivia, (List.replicate (m + 1) '\n').length) := by
    have all : (List.replicate m '\n').takeWhile Pattern.isBlank = List.replicate m '\n' := by
      rw [List.takeWhile_eq_self_iff]
      intro c among
      obtain rfl := List.eq_of_mem_replicate among
      exact isBlank_of_isSpace lineFeed
    rw [List.replicate_succ, LexemeRule.firstMatch_blank lineFeed, all, List.length_cons]
  -- the counter holds them, but not the number of the line behind them
  have counts : counted (0 + (List.replicate (m + 1) '\n').count '\n' % counterBound) =
      .ok (m + 1) := by
    rw [List.count_replicate_self, Nat.mod_eq_of_lt (by omega), Nat.zero_add,
      counted_of_lt (by omega)]
  have untold : counted (m + 1 + 1) = .error .wrapped := if_neg (by omega)
  have trapped : Scan.next ⟨List.replicate (m + 1) '\n', 0, 0⟩ = .error .wrapped := by
    have ended : ∀ n, LexemeRule.firstMatch [] ≠ some (.trivia, n) := by
      simp [LexemeRule.firstMatch_nil]
    rw [Scan.next_of_trivia (List.append_nil _).symm found, counts]
    change Scan.next ⟨[], _, m + 1⟩ = _
    rw [Scan.next_of_notTrivia ended, Scan.lexeme, Scan.line, untold]
    rfl
  rw [tokenize, start, Scan.tokens]
  simp only [trapped]
  rfl

/-! ### Comments -/

namespace Scan

open LexemeRule

variable {s : Scan} {line : Nat}

end Scan

/-! ### Layout -/

/-- The layout of a source that has tokens does not matter. The source is its lexemes with trivia
between them, and with any other gaps between them, among which are those of white space and then
comments, it has tokens of the same kinds again, as long as the lines can be counted. The line of
each token is one more than the number of line feeds in the gaps in front of it. -/
theorem tokenize_laidOut {source : String} {tokens : List Token}
    (scanned : PlainC.tokenize source = .ok tokens) :
    (∃ own : List (List Char), own.length = tokens.length ∧ (∀ gap ∈ own, Trivia gap) ∧
      source.toList = laidOut own (tokens.map Token.kind)) ∧
    ∀ gaps, Layout (tokens.map Token.kind) gaps → gaps.flatten.count '\n' + 1 < counterBound →
      ∃ tokens', tokenize (String.ofList (laidOut gaps (tokens.map Token.kind))) =
          .ok (.ok tokens') ∧
        tokens'.map Token.kind = tokens.map Token.kind ∧
        ∀ i token, tokens'[i]? = some token →
          token.line = 1 + (gaps.take (i + 1)).flatten.count '\n' := by
  refine ⟨exists_laidOut scanned, fun gaps layout fits => ?_⟩
  obtain ⟨tokens', scanned', kinds, lines⟩ := layout.tokenize_laidOut_eq scanned
  refine ⟨tokens', ?_, kinds, lines⟩
  rw [tokenize_of_count (by rwa [String.toList_ofList, layout.count_laidOut scanned]), scanned']

/-- A slash between words is no beginning of a comment, wherever the comments are. -/
theorem tokenize_laidOut_slash :
    PlainC.tokenize "a/b" = .ok [⟨.identifier "a", ⟨0, 1⟩, 1⟩, ⟨.operator .slash, ⟨1, 2⟩, 1⟩,
      ⟨.identifier "b", ⟨2, 3⟩, 1⟩, ⟨.endOfInput, ⟨3, 3⟩, 1⟩] ∧
    Layout [.identifier "a", .operator .slash, .identifier "b", .endOfInput]
      ["/**/".toList, "\n".toList, " //\n".toList, []] ∧
    ∃ tokens, tokenize "/**/a\n/ //\nb" = .ok (.ok tokens) ∧
      tokens.map Token.kind = [.identifier "a", .operator .slash, .identifier "b", .endOfInput] ∧
      ∀ i token, tokens[i]? = some token → token.line = 1 +
        (["/**/".toList, "\n".toList, " //\n".toList, []].take (i + 1)).flatten.count '\n' := by
  have scanned : PlainC.tokenize "a/b" = .ok [⟨.identifier "a", ⟨0, 1⟩, 1⟩,
      ⟨.operator .slash, ⟨1, 2⟩, 1⟩, ⟨.identifier "b", ⟨2, 3⟩, 1⟩, ⟨.endOfInput, ⟨3, 3⟩, 1⟩] := rfl
  have layout : Layout [.identifier "a", .operator .slash, .identifier "b", .endOfInput]
      ["/**/".toList, "\n".toList, " //\n".toList, []] := by
    have comment : Filler "/**/".toList := @Filler.blockComment [] [] (by decide) .nil
    have lineFeed : Separator "\n".toList := ⟨'\n', [], rfl, by simp [IsSpace], .nil⟩
    have lineComment : Separator " //\n".toList :=
      ⟨' ', _, rfl, by simp [IsSpace], @Filler.lineComment [] [] (by decide) .nil⟩
    exact .lexemes comment (.lexeme lineFeed (.lexeme lineComment (.finish (.inl rfl))))
  have text : String.ofList (laidOut ["/**/".toList, "\n".toList, " //\n".toList, []]
      [.identifier "a", .operator .slash, .identifier "b", .endOfInput]) = "/**/a\n/ //\nb" := by
    decide
  obtain ⟨tokens, again, kinds, lines⟩ := (tokenize_laidOut scanned).2 _ layout (by decide)
  rw [List.map_cons, List.map_cons, List.map_cons, List.map_singleton, text] at again
  exact ⟨scanned, layout, tokens, again, kinds, lines⟩

/-- Behind a slash at the end of a source a comment makes a comment of the slash, so that no token
of it is left. And behind as many line feeds as the counter can count the line of the end cannot be
told. -/
theorem tokenize_laidOut_trailing :
    PlainC.tokenize "/" =
      .ok [⟨.operator .slash, ⟨0, 1⟩, 1⟩, ⟨.endOfInput, ⟨1, 1⟩, 1⟩] ∧
    Filler "/**/".toList ∧
    String.ofList (laidOut [[], "/**/".toList] [.operator .slash, .endOfInput]) = "//**/" ∧
    tokenize "//**/" = .ok (.ok [⟨.endOfInput, ⟨5, 5⟩, 1⟩]) ∧
    PlainC.tokenize "" = .ok [⟨.endOfInput, ⟨0, 0⟩, 1⟩] ∧
    Filler (List.replicate (counterBound - 1) '\n') ∧
    tokenize (String.ofList (laidOut [List.replicate (counterBound - 1) '\n'] [.endOfInput])) =
      .error .wrapped := by
  refine ⟨rfl, @Filler.blockComment [] [] (by decide) .nil, by decide, rfl, rfl, ?_, ?_⟩
  · exact filler_replicate (by simp [IsSpace]) _
  · rw [laidOut_end]
    exact tokenize_lineFeeds rfl

end Guarded

end PlainC
