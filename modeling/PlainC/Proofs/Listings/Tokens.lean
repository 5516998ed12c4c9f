import PlainC.Proofs.Scanning.Layout
import PlainC.Proofs.Scanning.Lines

set_option autoImplicit false

/-!
The listing of tokens can be read back. Each token has a line of its own, because no lexeme goes over
the end of a line, and the first two blanks in it part the number, the class and the lexeme, whatever
a literal holds. The class and the lexeme tell the kind.
-/

namespace PlainC

/-! ### Fields and lines -/

section

variable {α : Type} {mark : α} {front front' behind behind' : List α}

/-- The first mark parts what stands in front of it from what follows. -/
theorem append_cons_inj (free : mark ∉ front) (free' : mark ∉ front')
    (same : front ++ mark :: behind = front' ++ mark :: behind') :
    front = front' ∧ behind = behind' := by
  induction front generalizing front' with
  | nil =>
    cases front' with
    | nil => exact ⟨rfl, (List.cons.inj same).2⟩
    | cons a front' =>
      obtain ⟨rfl, -⟩ := List.cons.inj same
      exact absurd List.mem_cons_self free'
  | cons a front ih =>
    cases front' with
    | nil =>
      obtain ⟨rfl, -⟩ := List.cons.inj same
      exact absurd List.mem_cons_self free
    | cons b front' =>
      obtain ⟨rfl, rest⟩ := List.cons.inj same
      rw [List.mem_cons, not_or] at free free'
      obtain ⟨rfl, rfl⟩ := ih free.2 free'.2 rest
      exact ⟨rfl, rfl⟩

end

theorem splitLines_append_lineFeed {line : List Char} (noLineFeed : '\n' ∉ line)
    (rest : List Char) :
    splitLines (line ++ '\n' :: rest) = (line ++ ['\n']) :: splitLines rest := by
  induction line with
  | nil => exact if_pos rfl
  | cons c line ih =>
    rw [List.mem_cons, not_or] at noLineFeed
    exact splitLines_cons_of_ne (Ne.symm noLineFeed.1) (ih noLineFeed.2)

section

variable {lines lines' : List (List Char)}

/-- Lines one behind the other are the lines of the whole, behind which nothing is left. -/
theorem splitLines_flatMap (noLineFeed : ∀ line ∈ lines, '\n' ∉ line) :
    splitLines (lines.flatMap (· ++ ['\n'])) = lines.map (· ++ ['\n']) ++ [[]] := by
  induction lines with
  | nil => rfl
  | cons line lines ih =>
    obtain ⟨first, others⟩ := List.forall_mem_cons.mp noLineFeed
    rw [List.flatMap_cons, List.append_assoc, List.singleton_append,
      splitLines_append_lineFeed first, ih others, List.map_cons, List.cons_append]

/-- A text of lines has no other lines. -/
theorem eq_of_flatMap_lines (noLineFeed : ∀ line ∈ lines, '\n' ∉ line)
    (noLineFeed' : ∀ line ∈ lines', '\n' ∉ line)
    (same : lines.flatMap (· ++ ['\n']) = lines'.flatMap (· ++ ['\n'])) : lines = lines' := by
  have split := splitLines_flatMap noLineFeed
  rw [same, splitLines_flatMap noLineFeed', List.append_cancel_right_eq] at split
  simpa [Function.comp_def] using congrArg (List.map List.dropLast) split.symm

end

/-! ### Numbers, classes and kinds -/

theorem isDigit_of_mem_toString {n : Nat} {c : Char} (mem : c ∈ (toString n).toList) :
    c.isDigit = true := by
  rw [Nat.toString_eq_repr, Nat.toList_repr] at mem
  exact Nat.isDigit_of_mem_toDigits (by decide) (by decide) mem

theorem toString_nat_inj {m n : Nat} (same : (toString m).toList = (toString n).toList) : m = n := by
  rw [Nat.toString_eq_repr, Nat.toString_eq_repr, Nat.toList_repr, Nat.toList_repr] at same
  rw [← Nat.ofDigitChars_ten_toDigits (n := m), same, Nat.ofDigitChars_ten_toDigits]

theorem TokenClass.blank_notMem_label (cls : TokenClass) : ' ' ∉ cls.label.toList := by
  cases cls <;> decide

theorem TokenClass.label_inj {cls cls' : TokenClass} (same : cls.label = cls'.label) :
    cls = cls' := by
  cases cls <;> cases cls' <;> first | rfl | exact absurd same (by decide)

theorem Keyword.ofText?_text (word : Keyword) : ofText? word.text = some word := by
  cases word <;> rfl

theorem Operator.find?_text (op : Operator) :
    all.find? (fun other => other.text = op.text) = some op := by
  cases op <;> rfl

theorem Delimiter.find?_text (mark : Delimiter) :
    all.find? (fun other => other.text = mark.text) = some mark := by
  cases mark <;> rfl

namespace Kind

/-- Of one class there is one kind with a lexeme. -/
theorem eq_of_lexeme {kind kind' : Kind} (notTrivia : kind ≠ .trivia) (notTrivia' : kind' ≠ .trivia)
    (cls : kind.tokenClass = kind'.tokenClass) (lexeme : kind.lexeme = kind'.lexeme) :
    kind = kind' := by
  cases kind with
  | keyword word =>
    cases kind' with
    | keyword word' =>
      have found := word.ofText?_text
      rw [show word.text = word'.text from lexeme, word'.ofText?_text] at found
      rw [Option.some.inj found]
    | literal form => cases form <;> cases cls
    | _ => cases cls
  | identifier name =>
    cases kind' with
    | identifier name' => exact congrArg identifier lexeme
    | literal form => cases form <;> cases cls
    | _ => cases cls
  | literal form text =>
    cases kind' with
    | literal form' text' =>
      obtain rfl : text = text' := lexeme
      cases form <;> cases form' <;> first | rfl | cases cls
    | _ => cases form <;> cases cls
  | operator op =>
    cases kind' with
    | operator op' =>
      have found := op.find?_text
      rw [show op.text = op'.text from lexeme, op'.find?_text] at found
      rw [Option.some.inj found]
    | literal form => cases form <;> cases cls
    | _ => cases cls
  | delimiter mark =>
    cases kind' with
    | delimiter mark' =>
      have found := mark.find?_text
      rw [show mark.text = mark'.text from lexeme, mark'.find?_text] at found
      rw [Option.some.inj found]
    | literal form => cases form <;> cases cls
    | _ => cases cls
  | trivia => exact absurd rfl notTrivia
  | endOfInput =>
    cases kind' with
    | endOfInput => rfl
    | trivia => exact absurd rfl notTrivia'
    | literal form => cases form <;> cases cls
    | _ => cases cls

end Kind

/-! ### Tokens -/

namespace Token

variable {token token' : Token} {tokens tokens' : List Token}

/-- The number, the class and the lexeme of a token, with blanks between them. -/
def fields (token : Token) : List Char :=
  (toString token.line).toList ++
    ' ' :: (token.kind.tokenClass.label.toList ++ ' ' :: token.kind.lexeme.toList)

theorem toList_listed (token : Token) : token.listed.toList = token.fields ++ ['\n'] := by
  simp [listed, fields]

/-- The token is no trivia, and its lexeme stands on one line. -/
def IsListed (token : Token) : Prop :=
  token.kind ≠ .trivia ∧ '\n' ∉ token.kind.lexeme.toList

theorem isListed_of_tokenize {source : String} (scanned : tokenize source = .ok tokens) :
    ∀ token ∈ tokens, token.IsListed := by
  intro token mem
  rcases Scanner.isScanned_of_tokens scanned token mem with isEnd | isScanned
  · rw [IsListed, isEnd]
    exact ⟨nofun, List.not_mem_nil⟩
  · refine ⟨fun trivia => ?_, isScanned.noLineFeed⟩
    rw [trivia] at isScanned
    exact isScanned.1

theorem IsListed.noLineFeed (listed : token.IsListed) : '\n' ∉ token.fields := by
  have label : '\n' ∉ token.kind.tokenClass.label.toList := by
    cases token.kind.tokenClass <;> decide
  have number : '\n' ∉ (toString token.line).toList := fun mem =>
    absurd (isDigit_of_mem_toString mem) (by decide)
  simp only [fields, List.mem_append, List.mem_cons, not_or]
  exact ⟨number, by decide, label, by decide, listed.2⟩

theorem IsListed.eq_of_fields (listed : token.IsListed) (listed' : token'.IsListed)
    (same : token.fields = token'.fields) :
    token.kind = token'.kind ∧ token.line = token'.line := by
  have number (n : Nat) : ' ' ∉ (toString n).toList := fun mem =>
    absurd (isDigit_of_mem_toString mem) (by decide)
  obtain ⟨line, rest⟩ := append_cons_inj (number _) (number _) same
  obtain ⟨label, lexeme⟩ := append_cons_inj (TokenClass.blank_notMem_label _)
    (TokenClass.blank_notMem_label _) rest
  have cls := TokenClass.label_inj (String.toList_inj.mp label)
  exact ⟨Kind.eq_of_lexeme listed.1 listed'.1 cls (String.toList_inj.mp lexeme),
    toString_nat_inj line⟩

/-- The lines of a listing are those of the tokens. -/
theorem toList_listing (tokens : List Token) :
    (listing tokens).toList = (tokens.map fields).flatMap (· ++ ['\n']) := by
  rw [listing, String.toList_join, List.flatMap_map, List.flatMap_map]
  simp only [toList_listed]

theorem noLineFeed_fields (listed : ∀ token ∈ tokens, token.IsListed) :
    ∀ line ∈ tokens.map fields, '\n' ∉ line :=
  List.forall_mem_map.mpr fun token mem => (listed token mem).noLineFeed

theorem eq_of_map_fields (listed : ∀ token ∈ tokens, token.IsListed)
    (listed' : ∀ token ∈ tokens', token.IsListed)
    (same : tokens.map fields = tokens'.map fields) :
    tokens.map (fun token => (token.kind, token.line)) =
      tokens'.map fun token => (token.kind, token.line) := by
  induction tokens generalizing tokens' with
  | nil => rw [List.map_eq_nil_iff.mp same.symm]
  | cons token tokens ih =>
    cases tokens' with
    | nil => cases same
    | cons token' tokens' =>
      obtain ⟨first, rest⟩ := List.cons.inj same
      obtain ⟨here, others⟩ := List.forall_mem_cons.mp listed
      obtain ⟨here', others'⟩ := List.forall_mem_cons.mp listed'
      obtain ⟨kind, line⟩ := here.eq_of_fields here' first
      rw [List.map_cons, List.map_cons, kind, line, ih others others' rest]

/-- The listing of the tokens of a source has a line for each of them, also for the end of input, which
ends with the only line feed in it. Where two sources have the same listing, they have the same kinds
of tokens on the same lines. -/
theorem listing_of_tokenize (source source' : String) (tokens tokens' : List Token)
    (scanned : tokenize source = .ok tokens) (scanned' : tokenize source' = .ok tokens') :
    (∃ lines, splitLines (listing tokens).toList = lines ++ [[]] ∧ lines.length = tokens.length ∧
      ∀ line ∈ lines, ∃ text, '\n' ∉ text ∧ line = text ++ ['\n']) ∧
    (listing tokens = listing tokens' →
      tokens.map (fun token => (token.kind, token.line)) =
        tokens'.map fun token => (token.kind, token.line)) := by
  have listed := isListed_of_tokenize scanned
  have listed' := isListed_of_tokenize scanned'
  have free := noLineFeed_fields listed
  have free' := noLineFeed_fields listed'
  rw [← String.toList_inj, toList_listing, toList_listing]
  constructor
  · refine ⟨_, splitLines_flatMap free, by simp, ?_⟩
    intro line mem
    obtain ⟨text, among, rfl⟩ := List.mem_map.mp mem
    exact ⟨text, free text among, rfl⟩
  · intro same
    exact eq_of_map_fields listed listed' (eq_of_flatMap_lines free free' same)

/-- A blank, a carriage return and letters in marks, with and without a blank behind them: the
listings are the same. -/
theorem listing_of_tokenize_blank : ∃ tokens tokens',
    tokenize "' '\"\r é\"" = .ok tokens ∧ tokenize "' ' \"\r é\"" = .ok tokens' ∧
      listing tokens = listing tokens' ∧
      tokens.map (fun token => (token.kind, token.line)) =
        tokens'.map fun token => (token.kind, token.line) := by
  have scanned : tokenize "' '\"\r é\"" = .ok [⟨.literal .character "' '", ⟨0, 3⟩, 1⟩,
      ⟨.literal .string "\"\r é\"", ⟨3, 9⟩, 1⟩, ⟨.endOfInput, ⟨9, 9⟩, 1⟩] := rfl
  have scanned' : tokenize "' ' \"\r é\"" = .ok [⟨.literal .character "' '", ⟨0, 3⟩, 1⟩,
      ⟨.literal .string "\"\r é\"", ⟨4, 10⟩, 1⟩, ⟨.endOfInput, ⟨10, 10⟩, 1⟩] := rfl
  exact ⟨_, _, scanned, scanned', rfl, (listing_of_tokenize _ _ _ _ scanned scanned').2 rfl⟩

end Token

end PlainC
