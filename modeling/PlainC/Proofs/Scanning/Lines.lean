import PlainC.Text.Lines
import PlainC.Token

set_option autoImplicit false

/-!
Slices: the bytes of a span that are those of a text in the source. The line of a byte is found by
its bytes among the lines of a text, and its number is that of the line feeds in front.
-/

namespace PlainC

/-! ### Slices -/

theorem utf8ByteSize_ofList (cs : List Char) :
    (String.ofList cs).utf8ByteSize = byteLength cs := by
  induction cs with
  | nil => simp [byteLength]
  | cons c cs ih => simp [String.ofList_cons, byteLength, ih]

/-- A string takes as many bytes as its characters do. -/
theorem byteLength_toList (source : String) :
    byteLength source.toList = source.utf8ByteSize := by
  rw [← utf8ByteSize_ofList, String.ofList_toList]

theorem byteLength_pos {cs : List Char} (h : cs ≠ []) : 0 < byteLength cs := by
  cases cs with
  | nil => exact absurd rfl h
  | cons c cs => exact Nat.add_pos_left c.utf8Size_pos _

/-- A character takes a byte at least. -/
theorem byteLength_replicate (n : Nat) (c : Char) :
    byteLength (List.replicate n c) = n * c.utf8Size := by
  induction n with
  | zero => simp [byteLength]
  | succ n ih => rw [List.replicate_succ, byteLength, ih, Nat.succ_mul, Nat.add_comm]

theorem length_le_byteLength (cs : List Char) : cs.length ≤ byteLength cs := by
  induction cs with
  | nil => exact Nat.le_refl 0
  | cons c cs ih =>
    rw [byteLength, List.length_cons, Nat.add_comm]
    exact Nat.add_le_add c.utf8Size_pos ih

/-- The span is that of a text in the source, behind some characters and in front of others. -/
def Span.IsSlice (source : String) (span : Span) (text : List Char) : Prop :=
  ∃ before behind, source.toList = before ++ text ++ behind ∧
    span = ⟨byteLength before, byteLength (before ++ text)⟩

namespace Span.IsSlice

variable {source : String} {span : Span} {text : List Char}

theorem le (h : span.IsSlice source text) :
    span.start ≤ span.stop ∧ span.stop ≤ source.utf8ByteSize := by
  obtain ⟨before, behind, same, rfl⟩ := h
  rw [← byteLength_toList, same, byteLength_append (before ++ text) behind]
  refine ⟨?_, Nat.le_add_right _ _⟩
  rw [byteLength_append]
  exact Nat.le_add_right _ _

theorem lt (h : span.IsSlice source text) (some : text ≠ []) : span.start < span.stop := by
  obtain ⟨before, behind, -, rfl⟩ := h
  rw [byteLength_append]
  exact Nat.lt_add_of_pos_right (byteLength_pos some)

/-- The bytes behind some characters begin between two characters. -/
theorem isValid_byteLength {before behind : List Char}
    (same : source.toList = before ++ behind) :
    (String.Pos.Raw.mk (byteLength before)).IsValid source := by
  refine String.Pos.Raw.isValid_iff_exists_append.mpr
    ⟨String.ofList before, String.ofList behind, ?_, ?_⟩
  · rw [← String.ofList_append, ← same, String.ofList_toList]
  · rw [← utf8ByteSize_ofList]
    rfl

/-- A slice begins and ends between characters. -/
theorem isValid (h : span.IsSlice source text) :
    (String.Pos.Raw.mk span.start).IsValid source ∧
      (String.Pos.Raw.mk span.stop).IsValid source := by
  obtain ⟨before, behind, same, rfl⟩ := h
  refine ⟨isValid_byteLength (same.trans (List.append_assoc ..)), isValid_byteLength same⟩

end Span.IsSlice

/-! ### Lines -/

theorem splitLines_ne_nil (cs : List Char) : splitLines cs ≠ [] := by
  cases cs with
  | nil => simp [splitLines]
  | cons c cs =>
    unfold splitLines
    split
    · simp
    · split <;> simp

/-- Each line but the last has a line feed. -/
theorem ne_nil_of_splitLines {cs line next : List Char} {rest : List (List Char)}
    (h : splitLines cs = line :: next :: rest) : line ≠ [] := by
  cases cs with
  | nil => cases h
  | cons c cs =>
    unfold splitLines at h
    split at h
    · obtain ⟨rfl, -⟩ := List.cons.inj h
      exact List.cons_ne_nil _ _
    · split at h
      · cases h
      · obtain ⟨rfl, -⟩ := List.cons.inj h
        exact List.cons_ne_nil _ _

theorem splitLines_cons_of_ne {c : Char} {cs line : List Char} {rest : List (List Char)}
    (other : c ≠ '\n') (h : splitLines cs = line :: rest) :
    splitLines (c :: cs) = (c :: line) :: rest := by
  rw [splitLines, if_neg other, h]

namespace SourceLine

theorem at?_cons {line : SourceLine} {lines : List SourceLine} {byte : Nat}
    (le : line.start ≤ byte) : at? (line :: lines) byte = some ((at? lines byte).getD line) := by
  simp only [at?, List.takeWhile_cons, le, decide_true, if_true]
  exact List.getLast?_cons

/-- Among the lines of a text, which begin at a byte, the line of a byte is numbered by the line
feeds in front of it. -/
theorem number_at?_enumerate (before rest : List Char) (number start : Nat) :
    (at? (enumerate number start (splitLines (before ++ rest))) (start + byteLength before)).map
      SourceLine.number = some (number + before.count '\n') := by
  induction before generalizing number start with
  | nil =>
    obtain ⟨line, more, split⟩ := List.exists_cons_of_ne_nil (splitLines_ne_nil rest)
    rw [List.nil_append, split, enumerate, at?_cons (Nat.le_add_right _ _)]
    have none : at? (enumerate (number + 1) (start + byteLength line) more)
        (start + byteLength []) = none := by
      cases more with
      | nil => rfl
      | cons next more =>
        have positive := byteLength_pos (ne_nil_of_splitLines split)
        have later : ¬start + byteLength line ≤ start + byteLength [] :=
          Nat.not_le.mpr (Nat.add_lt_add_left positive start)
        simp [at?, enumerate, later]
    rw [none]
    rfl
  | cons c before ih =>
    have bytes : start + byteLength (c :: before) = start + c.utf8Size + byteLength before := by
      rw [byteLength, Nat.add_assoc]
    rw [List.cons_append, bytes]
    by_cases lineFeed : c = '\n'
    · subst lineFeed
      have behind := ih (number + 1) (start + '\n'.utf8Size)
      obtain ⟨line, found, same⟩ := Option.map_eq_some_iff.mp behind
      -- a line feed is a line that ends here, so the others are counted from the next number on
      have head : splitLines ('\n' :: (before ++ rest)) = ['\n'] :: splitLines (before ++ rest) :=
        if_pos rfl
      rw [head, enumerate, at?_cons (Nat.le_trans (Nat.le_add_right _ _) (Nat.le_add_right _ _))]
      simp only [byteLength, Nat.add_zero]
      rw [found, Option.getD_some, Option.map_some, same, List.count_cons_self]
      congr 1
      omega
    · obtain ⟨line, more, split⟩ :=
        List.exists_cons_of_ne_nil (splitLines_ne_nil (before ++ rest))
      have behind := ih number (start + c.utf8Size)
      rw [split, enumerate, at?_cons (Nat.le_add_right _ _)] at behind
      rw [splitLines_cons_of_ne lineFeed split, enumerate,
        at?_cons (Nat.le_trans (Nat.le_add_right _ _) (Nat.le_add_right _ _)), byteLength,
        ← Nat.add_assoc, List.count_cons_of_ne lineFeed, ← behind]
      cases at? (enumerate (number + 1) _ more) _ <;> rfl

/-- The line of the byte behind some characters of a source. -/
theorem number_at? {source : String} {before rest : List Char}
    (same : source.toList = before ++ rest) :
    (at? (ofText source) (byteLength before)).map SourceLine.number =
      some (1 + before.count '\n') := by
  have h := number_at?_enumerate before rest 1 0
  rwa [Nat.zero_add, ← same] at h

end SourceLine

end PlainC
