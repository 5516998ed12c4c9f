import PlainC.Proofs.Scanning.Tiling

set_option autoImplicit false

/-!
The scan of a whole source: its lexemes and the trivia between them are the source, and its tokens
are the answers of the scan if none of these is a fault.
-/

namespace PlainC

section Results

variable {α β ε : Type} {f : α → Except ε β} {xs : List α}

theorem mapM_eq_ok_iff {ys : List β} : xs.mapM f = .ok ys ↔ xs.map f = ys.map Except.ok := by
  induction xs generalizing ys with
  | nil => cases ys <;> simp [pure, Except.pure]
  | cons x xs ih =>
    rw [List.mapM_cons]
    cases first : f x with
    | error fault => cases ys <;> simp [first, bind, Except.bind]
    | ok y =>
      cases rest : xs.mapM f with
      | error fault =>
        cases ys with
        | nil => simp [bind, Except.bind]
        | cons y' ys =>
          have other : xs.mapM f = .ok ys ↔ xs.map f = ys.map Except.ok := ih
          rw [rest] at other
          simpa [first, bind, Except.bind] using fun _ => mt other.mpr nofun
      | ok ys' =>
        have same := ih.mp rest
        cases ys with
        | nil => simp [bind, Except.bind, pure, Except.pure]
        | cons y' ys =>
          have other : xs.mapM f = .ok ys ↔ xs.map f = ys.map Except.ok := ih
          rw [rest] at other
          simpa [first, bind, Except.bind, pure, Except.pure] using fun _ => other

/-- A failure is that of the first element that fails. -/
theorem mapM_eq_error {fault : ε} (h : xs.mapM f = .error fault) :
    ∃ before x behind, xs = before ++ x :: behind ∧ f x = .error fault ∧
      ∀ y ∈ before, ∃ value, f y = .ok value := by
  induction xs with
  | nil => cases h
  | cons x xs ih =>
    rw [List.mapM_cons] at h
    cases first : f x with
    | error fault' =>
      rw [first] at h
      obtain rfl := Except.error.inj h
      exact ⟨[], x, xs, rfl, first, nofun⟩
    | ok y =>
      rw [first] at h
      cases rest : xs.mapM f with
      | error fault' =>
        rw [rest] at h
        obtain rfl := Except.error.inj h
        obtain ⟨before, x', behind, rfl, failed, others⟩ := ih rest
        exact ⟨x :: before, x', behind, rfl, failed, List.forall_mem_cons.mpr ⟨⟨y, first⟩, others⟩⟩
      | ok ys =>
        rw [rest] at h
        cases h

end Results

namespace Scanner

/-- The answers of the scan of a source. Those before the end of input are in `tiles`, each with
the trivia in front of it, and `last` has the trivia at the end of the source. -/
structure Tiling (source : String) (tiles : List Tile) (last : Tile) : Prop where
  /-- The calls answer with the lexemes in order, and then with the end of input forever. -/
  answers : ∀ n, (ofString source).answer n = (tiles[n]?.getD last).answer
  length_le : tiles.length ≤ source.utf8ByteSize
  source_eq : source.toList = (tiles ++ [last]).flatMap Tile.chars
  gaps : ∀ tile ∈ tiles ++ [last], Trivia tile.gap
  /-- A span has the bytes behind all that comes before it and behind the trivia. -/
  spans : ∀ before tile behind, tiles ++ [last] = before ++ tile :: behind →
    tile.answer.span = ⟨byteLength (before.flatMap Tile.chars ++ tile.gap),
      byteLength (before.flatMap Tile.chars ++ tile.chars)⟩
  slices : ∀ tile ∈ tiles ++ [last], tile.answer.span.IsSlice source tile.answer.text
  boundaries : ∀ tile ∈ tiles ++ [last],
    (String.Pos.Raw.mk tile.answer.span.start).IsValid source ∧
    (String.Pos.Raw.mk tile.answer.span.stop).IsValid source
  ordered : (tiles ++ [last]).Pairwise fun a b => a.answer.span.stop ≤ b.answer.span.start
  nonempty : ∀ tile ∈ tiles, tile.answer.span.start < tile.answer.span.stop
  notEnd : ∀ tile ∈ tiles, ¬tile.answer.IsEnd
  notTrivia : ∀ tile ∈ tiles, ∀ token, tile.answer = .ok token → token.kind ≠ .trivia
  isEnd : ∃ line, last.answer =
    .ok ⟨.endOfInput, ⟨source.utf8ByteSize, source.utf8ByteSize⟩, line⟩

variable {source : String} {tiles : List Tile} {last : Tile}

namespace Tiled

theorem slice (h : Tiled (ofString source) tiles last) {tile : Tile}
    (mem : tile ∈ tiles ++ [last]) : tile.answer.span.IsSlice source tile.answer.text := by
  obtain ⟨before, behind, parts⟩ := List.append_of_mem mem
  refine ⟨before.flatMap Tile.chars ++ tile.gap, behind.flatMap Tile.chars, ?_, ?_⟩
  · have whole : source.toList = _ := h.rest_eq
    rw [whole, parts]
    simp [Tile.chars]
  · rw [h.span_eq parts]
    simp [ofString, Tile.chars]

theorem notEnd (h : Tiled (ofString source) tiles last) : ∀ tile ∈ tiles, ¬tile.answer.IsEnd := by
  intro tile mem ended
  obtain ⟨-, spelled⟩ := h.isLexeme tile mem
  cases answered : tile.answer with
  | error fault =>
    rw [answered] at ended
    exact ended
  | ok token =>
    rw [answered] at ended
    have endOfInput : token.kind = .endOfInput := ended
    exact absurd (spelled token answered) (by rw [endOfInput]; exact id)

/-- The end of input covers no bytes, at the end of the source. -/
theorem last_eq (h : Tiled (ofString source) tiles last) : ∃ line, last.answer =
    .ok ⟨.endOfInput, ⟨source.utf8ByteSize, source.utf8ByteSize⟩, line⟩ := by
  obtain ⟨ended, noText⟩ := h.isEnd
  have whole : source.toList = _ := h.rest_eq
  have place := h.span_eq (rfl : tiles ++ [last] = tiles ++ last :: [])
  have stop : byteLength (tiles.flatMap Tile.chars ++ last.chars) = source.utf8ByteSize := by
    rw [← byteLength_toList, whole, List.flatMap_append]
    simp
  have start : tiles.flatMap Tile.chars ++ last.gap = tiles.flatMap Tile.chars ++ last.chars := by
    rw [Tile.chars, noText, List.append_nil]
  rw [start, stop] at place
  cases answered : last.answer with
  | error fault =>
    rw [answered] at ended
    cases ended
  | ok token =>
    rw [answered] at ended place
    obtain ⟨kind, span, line⟩ := token
    obtain rfl : kind = .endOfInput := ended
    refine ⟨line, ?_⟩
    rw [show span = _ from place]
    simp [ofString]

/-- The answers of a scan from the beginning are a tiling of the source. -/
theorem tiling (h : Tiled (ofString source) tiles last) : Tiling source tiles last where
  answers := h.answer_eq
  length_le := by
    rw [← byteLength_toList]
    exact Nat.le_trans h.length_le (length_le_byteLength _)
  source_eq := h.rest_eq
  gaps := h.trivia_gap
  spans before tile behind parts := by
    rw [h.span_eq parts]
    simp [ofString]
  slices _ := h.slice
  boundaries _ mem := (h.slice mem).isValid
  ordered := h.ordered
  nonempty tile mem := (h.slice (List.mem_append_left _ mem)).lt (h.isLexeme tile mem).1
  notEnd := h.notEnd
  notTrivia tile mem token answered := by
    intro trivia
    exact absurd ((h.isLexeme tile mem).2 token answered) (by rw [trivia]; exact id)
  isEnd := h.last_eq

/-- The tokens of a source are the answers of its scan, unless one of them is a fault. -/
theorem tokenize_eq (h : Tiled (ofString source) tiles last) :
    tokenize source = (tiles ++ [last]).mapM Tile.answer :=
  h.tokens_eq (Nat.lt_succ_of_le h.length_le)

end Tiled

namespace Tiling

/-- Gaps and tokens by turns are the source. -/
theorem source_eq_zipWith (h : Tiling source tiles last) {tokens : List Token}
    (same : (tiles ++ [last]).map Tile.answer = tokens.map Except.ok) : source.toList =
      (List.zipWith (fun tile token => tile.gap ++ token.kind.lexeme.toList)
        (tiles ++ [last]) tokens).flatten := by
  rw [h.source_eq]
  generalize tiles ++ [last] = tiles at same
  induction tiles generalizing tokens with
  | nil => rfl
  | cons tile tiles ih =>
    cases tokens with
    | nil => cases same
    | cons token tokens =>
      obtain ⟨answered, rest⟩ := List.cons.inj same
      rw [List.flatMap_cons, ih rest, Tile.chars, answered]
      rfl

/-- The tokens of a scan without faults end with their only end of input, and none is trivia. -/
theorem tokens_spec (h : Tiling source tiles last) {tokens : List Token}
    (same : (tiles ++ [last]).map Tile.answer = tokens.map Except.ok) :
    ∃ front final, tokens = front ++ [final] ∧ final.kind = .endOfInput ∧
      ∀ token ∈ front, token.kind ≠ .endOfInput ∧ token.kind ≠ .trivia := by
  rw [List.map_append] at same
  obtain ⟨front, behind, rfl, front_eq, behind_eq⟩ := List.map_eq_append_iff.mp same.symm
  obtain ⟨final, rfl, final_eq⟩ := List.map_eq_singleton_iff.mp behind_eq
  obtain ⟨line, ended⟩ := h.isEnd
  refine ⟨front, final, rfl, ?_, fun token mem => ?_⟩
  · obtain rfl := Except.ok.inj (final_eq.trans ended)
    rfl
  · have answer : .ok token ∈ tiles.map Tile.answer := by
      rw [← front_eq]
      exact List.mem_map_of_mem mem
    obtain ⟨tile, inside, answered⟩ := List.mem_map.mp answer
    refine ⟨fun ended => ?_, h.notTrivia tile inside token answered⟩
    apply h.notEnd tile inside
    rw [answered]
    exact ended

/-- The first fault among the tiles is the first fault of the calls. -/
theorem answers_of_append (h : Tiling source tiles last) {before behind : List Tile} {tile : Tile}
    (parts : tiles ++ [last] = before ++ tile :: behind) :
    (ofString source).answer before.length = tile.answer ∧
      ∀ n (lt : n < before.length), (ofString source).answer n = before[n].answer := by
  have at_tiles (n : Nat) (lt : n < (tiles ++ [last]).length) :
      (ofString source).answer n = (tiles ++ [last])[n].answer := by
    rw [h.answers]
    by_cases inside : n < tiles.length
    · rw [List.getElem?_eq_getElem inside, List.getElem_append_left inside]
      rfl
    · have same : n = tiles.length := by
        rw [List.length_append, List.length_singleton] at lt
        omega
      subst same
      simp
  constructor
  · rw [at_tiles _ (by simp [parts])]
    simp [parts]
  · intro n lt
    rw [at_tiles _ (by simp [parts]; omega)]
    simp [parts, List.getElem_append_left lt]

end Tiling

/-- The scan of a source tiles it, also behind faults. The tokens of the source are the answers of
this scan if there is no fault among them, and else there is the first fault. -/
theorem exists_tiling (source : String) : ∃ tiles last, Tiling source tiles last ∧
    ((∃ tokens, tokenize source = .ok tokens) ↔
      ∀ n, ∃ token, (ofString source).answer n = .ok token) ∧
    (∀ tokens, tokenize source = .ok tokens →
      tokens.map Except.ok = (tiles ++ [last]).map Tile.answer ∧
      source.toList = (List.zipWith (fun tile token => tile.gap ++ token.kind.lexeme.toList)
        (tiles ++ [last]) tokens).flatten ∧
      ∃ front final, tokens = front ++ [final] ∧ final.kind = .endOfInput ∧
        ∀ token ∈ front, token.kind ≠ .endOfInput ∧ token.kind ≠ .trivia) ∧
    ∀ fault, tokenize source = .error fault →
      ∃ n, (ofString source).answer n = .error fault ∧
        ∀ m < n, ∃ token, (ofString source).answer m = .ok token := by
  obtain ⟨tiles, last, tiled⟩ := exists_tiled (ofString source)
  have tiling := tiled.tiling
  have failed fault (h : tokenize source = .error fault) :
      ∃ n, (ofString source).answer n = .error fault ∧
        ∀ m < n, ∃ token, (ofString source).answer m = .ok token := by
    rw [tiled.tokenize_eq] at h
    obtain ⟨before, tile, behind, parts, fails, others⟩ := mapM_eq_error h
    obtain ⟨atTile, earlier⟩ := tiling.answers_of_append parts
    refine ⟨before.length, atTile.trans fails, fun m lt => ?_⟩
    rw [earlier m lt]
    exact others _ (List.getElem_mem lt)
  refine ⟨tiles, last, tiling, ⟨?_, fun answered => ?_⟩, fun tokens h => ?_, failed⟩
  · rintro ⟨tokens, h⟩ n
    rw [tiled.tokenize_eq, mapM_eq_ok_iff] at h
    have mem : (tiles[n]?.getD last).answer ∈ (tiles ++ [last]).map Tile.answer := by
      apply List.mem_map_of_mem
      cases inside : tiles[n]? with
      | none => exact List.mem_append_right _ (List.mem_singleton_self last)
      | some tile => exact List.mem_append_left _ (List.mem_of_getElem? inside)
    rw [h, ← tiling.answers] at mem
    obtain ⟨token, -, same⟩ := List.mem_map.mp mem
    exact ⟨token, same.symm⟩
  · cases h : tokenize source with
    | ok tokens => exact ⟨tokens, rfl⟩
    | error fault =>
      obtain ⟨n, fails, -⟩ := failed fault h
      obtain ⟨token, succeeds⟩ := answered n
      cases fails.symm.trans succeeds
  · rw [tiled.tokenize_eq, mapM_eq_ok_iff] at h
    exact ⟨h.symm, tiling.source_eq_zipWith h, tiling.tokens_spec h⟩

end Scanner

end PlainC
