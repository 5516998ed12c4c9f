import PlainC.Proofs.Anchoring.Source
import PlainC.Proofs.Literals.Decoding
import PlainC.Proofs.Literals.Integers

set_option autoImplicit false

/-!
Scanning and decoding agree: every literal of a scanned source is spelled as its decoding asks for,
so what cannot be decoded is an integer that is out of range or a character that is not one of
ASCII.
-/

namespace PlainC

/-- How a literal of a form is spelled and what its decoding gives. -/
def LiteralForm.Decodes (text : String) : LiteralForm → Prop
  | integer => ∃ base number, Integer.Spelling text.toList base number ∧
    Integer.decode text =
      if Integer.positional base number ≤ 2 ^ 63 - 1 then .ok (Integer.positional base number)
      else .error (.outOfRange text)
  | real => ∃ value, Real.decode text = .ok value
  | character => ∃ content, text.toList = '\'' :: (content ++ ['\'']) ∧
    ((∃ letter code, content = ['\\', letter] ∧ (letter, code) ∈ escapeCodes ∧
      Quoted.decodeChar text = .ok (Char.ofNat code)) ∨
    ∃ c, content = [c] ∧
      Quoted.decodeChar text = if c.toNat < 128 then .ok c else .error (.malformed text))
  | string => ∃ value content, text.toList = '"' :: (content ++ ['"']) ∧
    Quoted.Writes '"' value content ∧ Quoted.decodeString text = .ok (String.ofList value)

/-- Literals that are spelled well and yet have no value, each with the error of that. -/
inductive Kind.LacksValue : Kind → LiteralError → Prop
  | outOfRange {text base number} : Integer.Spelling text.toList base number →
      2 ^ 63 - 1 < Integer.positional base number →
      LacksValue (.literal .integer text) (.outOfRange text)
  | notAscii {text c} : text.toList = ['\'', c, '\''] → 128 ≤ c.toNat →
      LacksValue (.literal .character text) (.malformed text)

theorem Kind.IsScanned.decodes {form : LiteralForm} {text : String}
    (scanned : (Kind.literal form text).IsScanned) : form.Decodes text := by
  cases form with
  | integer =>
    obtain ⟨base, number, spelled⟩ := Integer.exists_spelling scanned
    exact ⟨base, number, spelled, Integer.decode_eq spelled⟩
  | real => exact Real.exists_decode scanned
  | character => exact Quoted.decodeChar_cases scanned
  | string => exact Quoted.exists_decodeString scanned

/-- A literal of a source that cannot be decoded is out of range or not one of ASCII. -/
theorem Kind.IsBadLiteral.lacksValue {kind : Kind} {error : LiteralError}
    (bad : kind.IsBadLiteral error) (scanned : kind.IsScanned) : kind.LacksValue error := by
  cases bad with
  | integer failed =>
    obtain ⟨base, number, spelled, value⟩ := scanned.decodes
    rw [value] at failed
    split at failed
    · cases failed
    · rename_i above
      obtain rfl := Except.error.inj failed
      exact .outOfRange spelled (Nat.lt_of_not_le above)
  | real failed =>
    obtain ⟨value, decoded⟩ := scanned.decodes
    cases decoded.symm.trans failed
  | character failed =>
    obtain ⟨content, same, ⟨letter, code, -, -, decoded⟩ | ⟨c, rfl, decoded⟩⟩ := scanned.decodes
    · cases decoded.symm.trans failed
    · rw [decoded] at failed
      split at failed
      · cases failed
      · rename_i above
        obtain rfl := Except.error.inj failed
        exact .notAscii same (Nat.le_of_not_lt above)
  | string failed =>
    obtain ⟨value, content, -, -, decoded⟩ := scanned.decodes
    cases decoded.symm.trans failed

namespace Program

/-- Every literal of a source is spelled as its decoding asks for, and a program is refused for a
literal only if this is an integer out of range or a character that is not one of ASCII. -/
theorem ofTokens_literals {source : String} {tokens : List Token}
    (scanned : tokenize source = .ok tokens) :
    (∀ token ∈ tokens, ∀ form text, token.kind = .literal form text → form.Decodes text) ∧
    ∀ fault error, (ofTokens tokens).result = .error fault → fault.cause = .literal error →
      ∃ token ∈ tokens, token.span = fault.place.span ∧ token.line = fault.place.line ∧
        token.kind.LacksValue error := by
  have lexemes := Scanner.isScanned_of_tokens scanned
  have ends := ends_of_tokenize scanned
  refine ⟨?_, ?_⟩
  · intro token mem form text literal
    have isScanned := lexemes token mem
    rw [literal] at isScanned
    rcases isScanned with ended | isScanned
    · cases ended
    · exact isScanned.decodes
  · intro fault error refused cause
    obtain ⟨token, mem, place, about⟩ := exists_token_of_fault ends refused
    rw [cause] at about
    have bad : token.kind.IsBadLiteral error := about
    refine ⟨token, mem, (congrArg Place.span place).symm, (congrArg Place.line place).symm, ?_⟩
    rcases lexemes token mem with ended | isScanned
    · rw [ended] at bad
      cases bad
    · exact bad.lacksValue isScanned

/-- A letter with an accent is scanned as a character and has no code. -/
theorem ofTokens_literals_accent : ∃ tokens fault,
    tokenize "char c = '\u00e9';" = .ok tokens ∧ (ofTokens tokens).result = .error fault ∧
    fault.cause = .literal (.malformed "'\u00e9'") ∧
    ∃ token ∈ tokens, token.span = fault.place.span ∧ token.line = fault.place.line ∧
      token.kind.LacksValue (.malformed "'\u00e9'") := by
  have scanned : tokenize "char c = '\u00e9';" = .ok
      [⟨.keyword .charKw, ⟨0, 4⟩, 1⟩, ⟨.identifier "c", ⟨5, 6⟩, 1⟩, ⟨.operator .assign, ⟨7, 8⟩, 1⟩,
        ⟨.literal .character "'\u00e9'", ⟨9, 13⟩, 1⟩, ⟨.delimiter .semicolon, ⟨13, 14⟩, 1⟩,
        ⟨.endOfInput, ⟨14, 14⟩, 1⟩] := rfl
  have refused : (ofTokens
      [⟨.keyword .charKw, ⟨0, 4⟩, 1⟩, ⟨.identifier "c", ⟨5, 6⟩, 1⟩, ⟨.operator .assign, ⟨7, 8⟩, 1⟩,
        ⟨.literal .character "'\u00e9'", ⟨9, 13⟩, 1⟩, ⟨.delimiter .semicolon, ⟨13, 14⟩, 1⟩,
        ⟨.endOfInput, ⟨14, 14⟩, 1⟩]).result =
      .error ⟨.literal (.malformed "'\u00e9'"), ⟨3, ⟨9, 13⟩, 1⟩⟩ := rfl
  exact ⟨_, _, scanned, refused, rfl, (ofTokens_literals scanned).2 _ _ refused rfl⟩

end Program

end PlainC
