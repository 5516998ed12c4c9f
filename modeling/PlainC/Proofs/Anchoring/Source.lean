import PlainC.Proofs.Anchoring.Decl
import PlainC.Proofs.Program.Front
import PlainC.Proofs.Reading.Decl
import PlainC.Proofs.Scanning.Lines
import PlainC.Proofs.Scanning.Source

set_option autoImplicit false

/-!
Diagnostics and the source. What a diagnostic is about can be found in the source by its span: a
lexeme of the scan, on the line of the diagnostic.
-/

namespace PlainC

theorem Spans.mem_lexeme {last : Lexeme} {ps : Parts} {ts rest : List Lexeme}
    (h : Spans last ps ts rest) : ∀ part ∈ ps, part.lexeme ∈ ts ∨ part.lexeme = last := by
  induction ps generalizing ts with
  | nil => nofun
  | cons part ps ih =>
    rw [List.forall_mem_cons]
    cases part with
    | found lexeme =>
      obtain ⟨behind, rfl, h⟩ := h
      exact ⟨.inl List.mem_cons_self, fun part among =>
        (ih h part among).imp_left (List.mem_cons_of_mem lexeme)⟩
    | missing instead =>
      obtain ⟨rfl, h⟩ := h
      refine ⟨?_, ih h⟩
      cases ts with
      | nil => exact .inr rfl
      | cons t ts => exact .inl List.mem_cons_self

/-- A fault of declarations is about a lexeme that they were read from, or about the end. -/
theorem Decl.exists_lexeme_of_fault {last : Lexeme} {ts : List Lexeme} {declared : Declared}
    {fault : Fault}
    (failed : ((parseAll last ts).1.foldlM Decl.check declared).result = .error fault) :
    ∃ lexeme, (lexeme ∈ ts ∨ lexeme = last) ∧ fault.IsAbout lexeme := by
  obtain ⟨decls, rest, read, spans, -, -⟩ := parseAll_reads last ts
  rw [read] at failed
  obtain ⟨part, among, about⟩ := refuses_foldlM_check decls declared fault failed
  exact ⟨part.lexeme, spans.mem_lexeme part among, about⟩

theorem Lexeme.exists_token {index : Nat} {tokens : List Token} {lexeme : Lexeme}
    (mem : lexeme ∈ number index tokens) : ∃ token ∈ tokens, lexeme.value = token.kind ∧
      lexeme.place.span = token.span ∧ lexeme.place.line = token.line := by
  induction tokens generalizing index with
  | nil => cases mem
  | cons token tokens ih =>
    rcases List.mem_cons.mp mem with rfl | mem
    · exact ⟨token, List.mem_cons_self, rfl, rfl, rfl⟩
    · obtain ⟨token', among, same⟩ := ih mem
      exact ⟨token', List.mem_cons_of_mem token among, same⟩

/-- Where an answer of the scan of a source is found in the source, if no fault comes before. -/
structure Answer.Stands (source : String) (answer : Answer) (before behind : List Char) : Prop where
  source_eq : source.toList = before ++ answer.text ++ behind
  span : answer.span = ⟨byteLength before, byteLength (before ++ answer.text)⟩
  line : answer.line = 1 + before.count '\n'
  lineFeed : '\n' ∈ answer.text →
    (∃ fault, answer = .error fault) ∧ OpenComment answer.text ∧ behind = []

namespace Scanner.Tiled

variable {source : String} {tiles : List Tile} {last : Tile}

theorem stands (h : Tiled (ofString source) tiles last) {before behind : List Tile} {tile : Tile}
    (parts : tiles ++ [last] = before ++ tile :: behind)
    (tokens : ∀ other ∈ before, ∃ token, other.answer = .ok token) :
    tile.answer.Stands source (before.flatMap Tile.chars ++ tile.gap)
      (behind.flatMap Tile.chars) where
  source_eq := by
    have whole : source.toList = _ := h.rest_eq
    rw [whole, parts]
    simp [Tile.chars]
  span := by
    rw [h.span_eq parts]
    simp [ofString, Tile.chars]
  line := by
    -- a token has no line feed in it
    have inline : ∀ other ∈ before, other.answer.text.count '\n' = 0 := by
      intro other mem
      apply List.count_eq_zero.mpr
      intro lineFeed
      obtain ⟨first, second, rfl⟩ := List.append_of_mem mem
      have split : tiles ++ [last] = first ++ other :: (second ++ tile :: behind) := by
        simpa using parts
      obtain ⟨⟨fault, failed⟩, -⟩ := h.lineFeed split lineFeed
      obtain ⟨token, read⟩ := tokens other mem
      cases read.symm.trans failed
    have same : (before.flatMap Tile.chars).count '\n' = (before.flatMap Tile.gap).count '\n' := by
      clear parts tokens
      induction before with
      | nil => rfl
      | cons other before ih =>
        obtain ⟨first, others⟩ := List.forall_mem_cons.mp inline
        simp only [List.flatMap_cons, Tile.chars, List.count_append, first, Nat.add_zero]
        rw [← ih others]
    rw [h.line_eq parts, List.count_append, List.count_append, same]
    rfl
  lineFeed := h.lineFeed parts

theorem stands_of_fault (h : Tiled (ofString source) tiles last) {fault : ScanFault}
    (failed : tokenize source = .error fault) :
    ∃ before behind, Answer.Stands source (.error fault) before behind := by
  rw [h.tokenize_eq] at failed
  obtain ⟨before, tile, behind, parts, answered, tokens⟩ := mapM_eq_error failed
  have stands := h.stands parts tokens
  rw [answered] at stands
  exact ⟨_, _, stands⟩

theorem stands_of_token (h : Tiled (ofString source) tiles last) {tokens : List Token}
    (scanned : tokenize source = .ok tokens) {token : Token} (mem : token ∈ tokens) :
    ∃ before behind, Answer.Stands source (.ok token) before behind := by
  rw [h.tokenize_eq, mapM_eq_ok_iff] at scanned
  have all tile (among : tile ∈ tiles ++ [last]) : ∃ token, tile.answer = .ok token := by
    have answer := List.mem_map_of_mem (f := Tile.answer) among
    rw [scanned] at answer
    obtain ⟨token, -, same⟩ := List.mem_map.mp answer
    exact ⟨token, same.symm⟩
  have answer : Except.ok token ∈ (tiles ++ [last]).map Tile.answer := by
    rw [scanned]
    exact List.mem_map_of_mem mem
  obtain ⟨tile, among, answered⟩ := List.mem_map.mp answer
  obtain ⟨before, behind, parts⟩ := List.append_of_mem among
  have stands := h.stands parts fun other inside =>
    all other (parts ▸ List.mem_append_left _ inside)
  rw [answered] at stands
  exact ⟨_, _, stands⟩

end Scanner.Tiled

namespace Fault.IsAbout

variable {fault : Fault} {lexeme : Lexeme}

theorem lexeme_eq (about : fault.IsAbout lexeme) {message text : String}
    (lexical : fault.diagnostic.complaint = .lexical message text) :
    text = lexeme.value.lexeme := by
  obtain ⟨cause, place⟩ := fault
  obtain ⟨-, same⟩ := about
  cases cause with
  | literal error =>
    obtain ⟨-, rfl⟩ := Complaint.lexical.inj lexical
    exact same.text_eq
  | unexpected | noTokens | violation => cases lexical

theorem found_eq (about : fault.IsAbout lexeme) {expected found : String}
    (syntactic : fault.diagnostic.complaint = .syntactic expected found) :
    found = lexeme.value.shown := by
  obtain ⟨cause, place⟩ := fault
  obtain ⟨-, same⟩ := about
  cases cause with
  | unexpected wanted kind =>
    obtain ⟨-, rfl⟩ := Complaint.syntactic.inj syntactic
    exact congrArg Kind.shown same
  | noTokens => cases same
  | literal | violation => cases syntactic

end Fault.IsAbout

/-- A diagnostic is about a text in a source, of which it has the bytes and the line. -/
structure Diagnostic.Anchored (source : String) (diagnostic : Diagnostic)
    (before text behind : List Char) : Prop where
  source_eq : source.toList = before ++ text ++ behind
  span : diagnostic.span = ⟨byteLength before, byteLength (before ++ text)⟩
  ordered : diagnostic.span.start ≤ diagnostic.span.stop ∧
    diagnostic.span.stop ≤ source.utf8ByteSize
  boundaries : (String.Pos.Raw.mk diagnostic.span.start).IsValid source ∧
    (String.Pos.Raw.mk diagnostic.span.stop).IsValid source
  line : diagnostic.line = 1 + before.count '\n'
  /-- The line is the one that the diagnostic is shown with. -/
  shownLine : (SourceLine.at? (SourceLine.ofText source) diagnostic.span.start).map
    SourceLine.number = some diagnostic.line
  lexeme : ∀ message lexeme, diagnostic.complaint = .lexical message lexeme →
    lexeme.toList = text
  /-- What was found is the token at the span. -/
  found : ∀ expected found, diagnostic.complaint = .syntactic expected found →
    ∃ tokens, tokenize source = .ok tokens ∧ ∃ token ∈ tokens,
      token.span = diagnostic.span ∧ found = token.kind.shown
  lineFeed : '\n' ∈ text → (∃ message lexeme, diagnostic.complaint = .lexical message lexeme) ∧
    OpenComment text ∧ behind = []

namespace Answer.Stands

variable {source : String} {answer : Answer} {before behind : List Char}

/-- A diagnostic with the span and the line of an answer. -/
theorem anchored (h : answer.Stands source before behind) {diagnostic : Diagnostic}
    (span : diagnostic.span = answer.span) (line : diagnostic.line = answer.line)
    (lexeme : ∀ message lexeme, diagnostic.complaint = .lexical message lexeme →
      lexeme.toList = answer.text)
    (found : ∀ expected found, diagnostic.complaint = .syntactic expected found →
      ∃ tokens, tokenize source = .ok tokens ∧ ∃ token ∈ tokens,
        token.span = diagnostic.span ∧ found = token.kind.shown)
    (lexical : (∃ fault, answer = .error fault) →
      ∃ message lexeme, diagnostic.complaint = .lexical message lexeme) :
    diagnostic.Anchored source before answer.text behind := by
  have slice : diagnostic.span.IsSlice source answer.text :=
    ⟨before, behind, h.source_eq, span.trans h.span⟩
  refine ⟨h.source_eq, span.trans h.span, slice.le, slice.isValid, line.trans h.line, ?_, lexeme,
    found, fun lineFeed => ?_⟩
  · rw [span, h.span, line, h.line]
    exact SourceLine.number_at? (h.source_eq.trans (List.append_assoc ..))
  · obtain ⟨failed, opened, atEnd⟩ := h.lineFeed lineFeed
    exact ⟨lexical failed, opened, atEnd⟩

end Answer.Stands

namespace Program

/-- The tokens of a source end with the end of input. -/
theorem ends_of_tokenize {source : String} {tokens : List Token}
    (scanned : tokenize source = .ok tokens) : Ends tokens := by
  obtain ⟨tiles, last, tiled⟩ := Scanner.exists_tiled (Scanner.ofString source)
  have same := mapM_eq_ok_iff.mp (tiled.tokenize_eq.symm.trans scanned)
  obtain ⟨front, final, rfl, ended, -⟩ := tiled.tiling.tokens_spec same
  simp [Ends, ended]

/-- The fault of a program is about one of its tokens. -/
theorem exists_token_of_fault {tokens : List Token} {fault : Fault} (ends : Ends tokens)
    (refused : (ofTokens tokens).result = .error fault) :
    ∃ token ∈ tokens, fault.IsAbout ⟨token.kind, ⟨fault.place.index, token.span, token.line⟩⟩ := by
  obtain ⟨last, last_mem, -, h⟩ := ofTokens_result_mem ends
  rw [h, Checked.result_map_eq_error, tableOfDecls_result, Checked.result_map_eq_error] at refused
  obtain ⟨lexeme, read, place, cause⟩ := Decl.exists_lexeme_of_fault refused
  have mem : lexeme ∈ Lexeme.number 0 tokens := by
    rcases read with inFront | isLast
    · exact (List.takeWhile_sublist _).subset inFront
    · exact isLast ▸ last_mem
  obtain ⟨token, inside, kind, span, line⟩ := Lexeme.exists_token mem
  refine ⟨token, inside, ?_⟩
  rw [← kind, ← span, ← line, place]
  exact ⟨place, cause⟩

theorem anchored_of_token {source : String} {tokens : List Token} {fault : Fault}
    (scanned : tokenize source = .ok tokens) {token : Token} (mem : token ∈ tokens)
    (about : fault.IsAbout ⟨token.kind, ⟨fault.place.index, token.span, token.line⟩⟩) :
    ∃ before text behind, fault.diagnostic.Anchored source before text behind := by
  obtain ⟨tiles, last, tiled⟩ := Scanner.exists_tiled (Scanner.ofString source)
  obtain ⟨before, behind, stands⟩ := tiled.stands_of_token scanned mem
  have span : fault.diagnostic.span = token.span := congrArg Place.span about.1
  refine ⟨before, _, behind, stands.anchored span (congrArg Place.line about.1) ?_ ?_ nofun⟩
  · intro message lexeme complaint
    rw [about.lexeme_eq complaint]
    rfl
  · intro expected found complaint
    exact ⟨tokens, scanned, token, mem, span.symm, about.found_eq complaint⟩

theorem ofSource_result (source : String) : (ofSource source).result =
    match tokenize source with
    | .ok tokens => (ofTokens tokens).result.mapError Fault.diagnostic
    | .error fault => .error fault.diagnostic := by
  rw [ofSource, Logged.result_bind, scan]
  cases tokenize source with
  | ok tokens => rfl
  | error fault => rfl

/-- Every diagnostic is anchored in the source. -/
theorem ofSource_anchored (source : String) (diagnostic : Diagnostic)
    (refused : (ofSource source).result = .error diagnostic) :
    ∃ before text behind, diagnostic.Anchored source before text behind := by
  rw [ofSource_result] at refused
  obtain ⟨tiles, last, tiled⟩ := Scanner.exists_tiled (Scanner.ofString source)
  cases scanned : tokenize source with
  | error fault =>
    rw [scanned] at refused
    obtain rfl := Except.error.inj refused
    obtain ⟨before, behind, stands⟩ := tiled.stands_of_fault scanned
    refine ⟨before, _, behind, stands.anchored rfl rfl ?_ nofun fun _ => ⟨_, _, rfl⟩⟩
    rintro message lexeme ⟨⟩
    rfl
  | ok tokens =>
    have ends := ends_of_tokenize scanned
    cases analyzed : (ofTokens tokens).result with
    | ok program =>
      simp only [scanned, analyzed] at refused
      cases refused
    | error fault =>
      simp only [scanned, analyzed] at refused
      obtain rfl := Except.error.inj refused
      obtain ⟨token, mem, about⟩ := exists_token_of_fault ends analyzed
      exact anchored_of_token scanned mem about

/-- A parenthesis that is not closed is reported at what was met instead. -/
theorem ofSource_anchored_if : ∃ diagnostic before text behind,
    (ofSource "int x;\nvoid f() \x7b if (x; \x7d").result = .error diagnostic ∧
      diagnostic.Anchored "int x;\nvoid f() \x7b if (x; \x7d" before text behind := by
  have fails : (ofSource "int x;\nvoid f() \x7b if (x; \x7d").result.isOk = false := by
    decide +kernel
  cases refused : (ofSource "int x;\nvoid f() \x7b if (x; \x7d").result with
  | ok program =>
    rw [refused] at fails
    cases fails
  | error diagnostic =>
    obtain ⟨before, text, behind, anchored⟩ := ofSource_anchored _ diagnostic refused
    exact ⟨diagnostic, before, text, behind, rfl, anchored⟩

end Program

end PlainC
