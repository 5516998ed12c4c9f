import PlainC.Literal.Quoted
import PlainC.Literal.Real
import PlainC.Proofs.Literals.Spellings

set_option autoImplicit false

/-!
The values of real numbers, characters and strings. Whatever is spelled as a real number or as a
string can be decoded, and so can a character, unless it is not one of ASCII.
-/

namespace PlainC

/-! ### Real numbers -/

namespace Real

theorem isDigit_eq (c : Char) : isDigit c = Pattern.isDigit c := by
  have nine (low : '0' ≤ c ∧ c ≤ '9') : c.toNat - '0'.toNat < 10 := by
    have high : c.toNat ≤ 57 := low.2
    have zero : '0'.toNat = 48 := rfl
    omega
  unfold isDigit Pattern.isDigit digitValue?
  by_cases digit : '0' ≤ c ∧ c ≤ '9'
  · have below := nine digit
    simpa [digit] using below
  · have other : (decide ('0' ≤ c) && decide (c ≤ '9')) = false := by simpa using digit
    rw [other]
    simp only [digit, if_false]
    split
    · simp
    · split
      · simp
      · simp

section

variable {whole fraction power rest : List Char}

theorem all_isDigit (covers : Pattern.digits.Covers whole) : ∀ c ∈ whole, isDigit c = true :=
  fun c mem => (isDigit_eq c).trans ((Pattern.covers_digits_iff.mp covers).2 c mem)

/-- A number that begins with a digit has no sign. -/
theorem ne_sign_of_isDigit {c : Char} (digit : isDigit c = true) : c ≠ '-' ∧ c ≠ '+' := by
  constructor
  · intro same
    rw [same] at digit
    cases digit
  · intro same
    rw [same] at digit
    cases digit

theorem ne_nil_of_digits (covers : Pattern.digits.Covers whole) : whole ≠ [] :=
  (Pattern.covers_digits_iff.mp covers).1

/-- The digits in front of another character are all taken. -/
theorem takeWhile_digits (covers : Pattern.digits.Covers whole)
    (stops : ∀ c ∈ rest.head?, isDigit c = false) :
    (whole ++ rest).takeWhile isDigit = whole ∧ (whole ++ rest).dropWhile isDigit = rest := by
  have all := all_isDigit covers
  rw [List.takeWhile_append_of_pos all, List.dropWhile_append_of_pos all]
  cases rest with
  | nil => simp
  | cons c rest =>
    have other := stops c rfl
    simp [other]

theorem exists_exponent (covers : Pattern.exponent.Covers power) :
    ∃ e more n, power = e :: more ∧ (e = 'e' ∨ e = 'E') ∧ exponent? more = some n := by
  obtain ⟨e, sign, number, rfl, letter, signed, isNumber⟩ := covers.exponent
  have some := ne_nil_of_digits isNumber
  have all : number.all isDigit = true := List.all_eq_true.mpr (all_isDigit isNumber)
  refine ⟨e, sign ++ number, ?_⟩
  rcases signed with rfl | rfl | rfl
  · cases number with
    | nil => exact absurd rfl some
    | cons c number =>
      have unsigned := ne_sign_of_isDigit (all_isDigit isNumber c List.mem_cons_self)
      exact ⟨natOfDigits (c :: number), rfl, letter, by simp [exponent?, unsigned, all]⟩
  · exact ⟨natOfDigits number, rfl, letter, by simp [exponent?, some, all]⟩
  · exact ⟨-natOfDigits number, rfl, letter, by simp [exponent?, some, all]⟩

theorem stops_exponent (covers : Pattern.exponent.Covers power) :
    ∀ c ∈ power.head?, isDigit c = false := by
  obtain ⟨e, more, n, rfl, letter, -⟩ := exists_exponent covers
  intro c head
  obtain rfl := Option.some.inj head
  rcases letter with rfl | rfl
  · rfl
  · rfl

theorem exists_decimal_fraction (isWhole : Pattern.digits.Covers whole)
    (isFraction : Pattern.digits.Covers fraction)
    (behind : power = [] ∨ Pattern.exponent.Covers power) :
    ∃ decimal, decimal? (whole ++ '.' :: (fraction ++ power)) = some decimal := by
  have stops : ∀ c ∈ power.head?, isDigit c = false := by
    rcases behind with rfl | covers
    · nofun
    · exact stops_exponent covers
  have point : ∀ c ∈ ('.' :: (fraction ++ power)).head?, isDigit c = false := by
    intro c head
    obtain rfl := Option.some.inj head
    rfl
  obtain ⟨taken, dropped⟩ := takeWhile_digits isWhole point
  obtain ⟨taken', dropped'⟩ := takeWhile_digits isFraction stops
  have some : whole ++ fraction ≠ [] := by simp [ne_nil_of_digits isWhole]
  unfold decimal?
  simp only [taken, dropped, taken', dropped', some, if_false]
  rcases behind with rfl | covers
  · exact ⟨_, rfl⟩
  · obtain ⟨e, more, n, rfl, letter, read⟩ := exists_exponent covers
    exact ⟨_, by simp only [letter, if_true, read, Option.map_some]; rfl⟩

theorem exists_decimal_exponent (isWhole : Pattern.digits.Covers whole)
    (isPower : Pattern.exponent.Covers power) :
    ∃ decimal, decimal? (whole ++ power) = some decimal := by
  obtain ⟨taken, dropped⟩ := takeWhile_digits isWhole (stops_exponent isPower)
  obtain ⟨e, more, n, rfl, letter, read⟩ := exists_exponent isPower
  have noPoint : e ≠ '.' := by
    rcases letter with rfl | rfl
    · decide
    · decide
  unfold decimal?
  simp [taken, dropped, noPoint, ne_nil_of_digits isWhole, letter, read]

end

/-- Whatever is spelled as a real number can be decoded. -/
theorem exists_decode {text : String} (scanned : (Kind.literal .real text).IsScanned) :
    ∃ value, decode text = .ok value := by
  obtain ⟨pattern, mem, covers⟩ := scanned.covers
  have number : ∃ whole rest, text.toList = whole ++ rest ∧ Pattern.digits.Covers whole ∧
      ∃ decimal, decimal? text.toList = some decimal := by
    simp only [LiteralForm.patterns, List.mem_cons, List.not_mem_nil, or_false] at mem
    rcases mem with rfl | rfl
    · obtain ⟨whole, fraction, power, same, isWhole, isFraction, behind⟩ := covers.fractionReal
      refine ⟨whole, _, same, isWhole, ?_⟩
      rw [same]
      exact exists_decimal_fraction isWhole isFraction behind
    · obtain ⟨whole, power, same, isWhole, isPower⟩ := covers.exponentReal
      refine ⟨whole, _, same, isWhole, ?_⟩
      rw [same]
      exact exists_decimal_exponent isWhole isPower
  obtain ⟨whole, rest, same, isWhole, decimal, found⟩ := number
  cases whole with
  | nil => exact absurd rfl (ne_nil_of_digits isWhole)
  | cons c whole =>
    have unsigned := ne_sign_of_isDigit (all_isDigit isWhole c List.mem_cons_self)
    rw [same, List.cons_append] at found
    unfold decode
    rw [same]
    simp [unsigned, magnitude?, found]

end Real

/-! ### Characters and strings -/

/-- The letters that may follow a backslash, each with the code of the character that they stand
for. -/
def escapeCodes : List (Char × Nat) :=
  [('a', 7), ('b', 8), ('t', 9), ('n', 10), ('v', 11), ('f', 12), ('r', 13), ('"', 34), ('\'', 39),
    ('0', 0), ('\\', 92)]

theorem Escape.decode?_of_mem {letter : Char} {code : Nat} (mem : (letter, code) ∈ escapeCodes) :
    decode? letter = some (Char.ofNat code) := by
  have all : ∀ entry ∈ escapeCodes, decode? entry.1 = some (Char.ofNat entry.2) := by decide
  exact all _ mem

theorem Escape.exists_mem {letter : Char} (escape : Pattern.isEscape letter = true) :
    ∃ code, (letter, code) ∈ escapeCodes := by
  obtain ⟨c, found⟩ := Option.isSome_iff_exists.mp escape
  have entries : ∀ entry ∈ table, (entry.1, entry.2.toNat) ∈ escapeCodes := by decide
  obtain ⟨before, after, parts, -⟩ := List.lookup_eq_some_iff.mp found
  have mem : (letter, c) ∈ table := by simp [parts]
  exact ⟨c.toNat, entries _ mem⟩

namespace Quoted

/-- The texts that stand for a value between two marks: each character is raw, if it can be, or is
given by an escape, if there is one. -/
inductive Writes (mark : Char) : List Char → List Char → Prop
  | nil : Writes mark [] []
  | raw {c value text} : c ≠ mark → c ≠ '\\' → c ≠ '\n' → Writes mark value text →
      Writes mark (c :: value) (c :: text)
  | escape {letter code value text} : (letter, code) ∈ escapeCodes → Writes mark value text →
      Writes mark (Char.ofNat code :: value) ('\\' :: letter :: text)

theorem unescape?_of_ne {c : Char} (cs : List Char) (other : c ≠ '\\') :
    unescape? (c :: cs) = (unescape? cs).map (c :: ·) := by
  cases cs <;> simp [unescape?, other]

theorem Writes.unescape?_eq {mark : Char} {value text : List Char}
    (writes : Writes mark value text) : unescape? text = some value := by
  induction writes with
  | nil => rfl
  | raw noMark noEscape noLineFeed writes ih => rw [unescape?_of_ne _ noEscape, ih, Option.map_some]
  | escape mem writes ih => simp only [unescape?, Escape.decode?_of_mem mem, ih, Option.map_some]

/-- The items in front of a quotation mark write a value. -/
theorem exists_writes {rest : List Char} : ∀ {text : List Char},
    Pattern.items '"' (text ++ '"' :: rest) = text.length → ∃ value, Writes '"' value text
  | [], _ => ⟨[], .nil⟩
  | c :: text, h => by
    by_cases escape : c = '\\'
    · subst escape
      cases text with
      | nil =>
        have quote : Pattern.isEscape '"' = true := by decide
        simp only [List.singleton_append, Pattern.items, quote, if_true,
          List.length_singleton] at h
        omega
      | cons letter text =>
        by_cases escaped : Pattern.isEscape letter = true
        · have inner : Pattern.items '"' (text ++ '"' :: rest) = text.length := by
            simp only [List.cons_append, Pattern.items, escaped, if_true, List.length_cons] at h
            omega
          obtain ⟨value, writes⟩ := exists_writes inner
          obtain ⟨code, mem⟩ := Escape.exists_mem escaped
          exact ⟨_, .escape mem writes⟩
        · simp [Pattern.items, escaped] at h
    · by_cases plain : Pattern.isPlain '"' c = true
      · have inner : Pattern.items '"' (text ++ '"' :: rest) = text.length := by
          simp only [List.cons_append, Pattern.items_of_ne _ escape, plain, if_true,
            List.length_cons] at h
          omega
        obtain ⟨value, writes⟩ := exists_writes inner
        simp only [Pattern.isPlain, Bool.and_eq_true, decide_eq_true_eq] at plain
        exact ⟨_, .raw plain.1.1 escape plain.2 writes⟩
      · simp [Pattern.items_of_ne _ escape, plain] at h

/-- The contents of a literal are what is written between its marks. -/
theorem contents?_eq {mark : Char} {text : String} {inner : List Char}
    (same : text.toList = mark :: (inner ++ [mark])) : contents? mark text = unescape? inner := by
  simp [contents?, same, between?]

/-- The decoding of a character gives that of its escape or the character itself, unless it is not
one of ASCII. -/
theorem decodeChar_cases {text : String} (scanned : (Kind.literal .character text).IsScanned) :
    ∃ content, text.toList = '\'' :: (content ++ ['\'']) ∧
      ((∃ letter code, content = ['\\', letter] ∧ (letter, code) ∈ escapeCodes ∧
        decodeChar text = .ok (Char.ofNat code)) ∨
      ∃ c, content = [c] ∧
        decodeChar text = if c.toNat < 128 then .ok c else .error (.malformed text)) := by
  obtain ⟨pattern, mem, covers⟩ := scanned.covers
  obtain rfl := List.mem_singleton.mp mem
  obtain ⟨inner, same, isItem⟩ := covers.character
  have contents := contents?_eq same
  refine ⟨inner, same, ?_⟩
  rcases isItem.item with ⟨letter, rfl, escape⟩ | ⟨c, rfl, plain⟩
  · obtain ⟨code, mem⟩ := Escape.exists_mem escape
    have ascii : ∀ entry ∈ escapeCodes, (Char.ofNat entry.2).toNat < 128 := by decide
    have small : (Char.ofNat code).toNat < 128 := ascii _ mem
    simp only [unescape?, Escape.decode?_of_mem mem, Option.map_some] at contents
    exact .inl ⟨letter, code, rfl, mem, by simp [decodeChar, contents, small]⟩
  · simp only [Pattern.isPlain, Bool.and_eq_true, decide_eq_true_eq] at plain
    rw [unescape?_of_ne _ plain.1.2, unescape?, Option.map_some] at contents
    exact .inr ⟨c, rfl, by simp only [decodeChar, contents]⟩

/-- The decoding of a string gives the value that is written in it. -/
theorem exists_decodeString {text : String} (scanned : (Kind.literal .string text).IsScanned) :
    ∃ value content, text.toList = '"' :: (content ++ ['"']) ∧ Writes '"' value content ∧
      decodeString text = .ok (String.ofList value) := by
  obtain ⟨pattern, mem, covers⟩ := scanned.covers
  obtain rfl := List.mem_singleton.mp mem
  obtain ⟨inner, same, isItems⟩ := covers.string
  obtain ⟨value, writes⟩ := exists_writes isItems
  have contents := contents?_eq same
  rw [writes.unescape?_eq] at contents
  exact ⟨value, inner, same, writes, by simp only [decodeString, contents]⟩

end Quoted

end PlainC
