import PlainC.Proofs.Literals.Decoding

set_option autoImplicit false

/-!
Strings byte by byte. A literal can also be decoded as bytes, without a look at the characters that
they make up: the bytes of the marks and of the backslash are no part of any other character. So the
bytes that are left are those of the value.
-/

namespace PlainC

namespace Quoted

/-- The bytes of a text. -/
def utf8 (cs : List Char) : List UInt8 := cs.flatMap String.utf8EncodeChar

/-- The byte that a byte behind a backslash stands for. -/
def escapeByte? (letter : UInt8) : Option UInt8 :=
  (escapeCodes.find? fun entry => entry.1.toNat = letter.toNat).map fun entry => .ofNat entry.2

/-- The bytes that escaped bytes stand for. -/
def unescapeBytes? : List UInt8 → Option (List UInt8)
  | [] => some []
  | [byte] => if byte = 92 then none else some [byte]
  | byte :: next :: bytes =>
    if byte = 92 then
      match escapeByte? next with
      | some escaped => (unescapeBytes? bytes).map (escaped :: ·)
      | none => none
    else (unescapeBytes? (next :: bytes)).map (byte :: ·)

/-- The bytes between quotation marks. -/
def betweenBytes? : List UInt8 → Option (List UInt8)
  | [] => none
  | byte :: bytes => if byte = 34 ∧ bytes.getLast? = some 34 then some bytes.dropLast else none

/-- The value of a string literal, both as bytes. -/
def decodeBytes? (bytes : List UInt8) : Option (List UInt8) :=
  (betweenBytes? bytes).bind unescapeBytes?

/-! ### The bytes of a character -/

@[simp]
theorem utf8_nil : utf8 [] = [] := rfl

@[simp]
theorem utf8_cons (c : Char) (cs : List Char) :
    utf8 (c :: cs) = String.utf8EncodeChar c ++ utf8 cs :=
  List.flatMap_cons

@[simp]
theorem utf8_append (cs ds : List Char) : utf8 (cs ++ ds) = utf8 cs ++ utf8 ds :=
  List.flatMap_append

theorem toUTF8_ofList (cs : List Char) : (String.ofList cs).toUTF8.data.toList = utf8 cs := by
  simp [utf8, String.toUTF8_eq_toByteArray, List.utf8Encode]

theorem toUTF8_toList (text : String) : text.toUTF8.data.toList = utf8 text.toList := by
  rw [← toUTF8_ofList, String.ofList_toList]

/-- A character of ASCII is one byte. -/
theorem utf8EncodeChar_ascii {c : Char} (small : c.toNat < 128) :
    String.utf8EncodeChar c = [.ofNat c.toNat] :=
  if_pos (Nat.le_of_lt_succ small)

theorem le_ofNat {n : Nat} (low : 128 ≤ n) (high : n < 256) : 128 ≤ UInt8.ofNat n := by
  rw [UInt8.le_iff_toNat_le, UInt8.toNat_ofNat', Nat.mod_eq_of_lt high]
  exact low

/-- The bytes of another character are none of ASCII. -/
theorem le_of_mem_utf8EncodeChar {c : Char} (large : 128 ≤ c.toNat) :
    ∀ byte ∈ String.utf8EncodeChar c, 128 ≤ byte := by
  have bound : ∀ n, n % 64 + 128 < 256 := by
    intro n
    omega
  have notOne : ¬c.val.toNat ≤ 127 := Nat.not_le_of_lt large
  have continuing (n : Nat) : 128 ≤ UInt8.ofNat (n % 64 + 128) :=
    le_ofNat (Nat.le_add_left 128 _) (bound n)
  unfold String.utf8EncodeChar
  simp only [notOne, if_false]
  split
  · simp only [List.forall_mem_cons]
    exact ⟨le_ofNat (by omega) (by omega), continuing _, nofun⟩
  · split
    · simp only [List.forall_mem_cons]
      exact ⟨le_ofNat (by omega) (by omega), continuing _, continuing _, nofun⟩
    · simp only [List.forall_mem_cons]
      exact ⟨le_ofNat (by omega) (by omega), continuing _, continuing _, continuing _, nofun⟩

theorem ascii_or_large (c : Char) :
    (c.toNat < 128 ∧ String.utf8EncodeChar c = [.ofNat c.toNat]) ∨
      128 ≤ c.toNat ∧ ∃ byte bytes, String.utf8EncodeChar c = byte :: bytes ∧
        ∀ b ∈ byte :: bytes, 128 ≤ b := by
  rcases Nat.lt_or_ge c.toNat 128 with small | large
  · exact .inl ⟨small, utf8EncodeChar_ascii small⟩
  · obtain ⟨byte, bytes, same⟩ := List.exists_cons_of_ne_nil (String.utf8EncodeChar_ne_nil (c := c))
    refine .inr ⟨large, byte, bytes, same, ?_⟩
    rw [← same]
    exact le_of_mem_utf8EncodeChar large

theorem ofNat_eq_iff {c : Char} (mark : Char) (small : c.toNat < 128) (smallMark : mark.toNat < 128) :
    UInt8.ofNat c.toNat = UInt8.ofNat mark.toNat ↔ c = mark := by
  constructor
  · intro same
    have codes := congrArg UInt8.toNat same
    rw [UInt8.toNat_ofNat', UInt8.toNat_ofNat', Nat.mod_eq_of_lt (by omega),
      Nat.mod_eq_of_lt (by omega)] at codes
    exact Char.toNat_inj.mp codes
  · intro same
    rw [same]

theorem ne_of_large {byte : UInt8} (large : 128 ≤ byte) {n : Nat} (small : n < 128) :
    byte ≠ .ofNat n := by
  intro same
  rw [same, UInt8.le_iff_toNat_le, UInt8.toNat_ofNat', Nat.mod_eq_of_lt (by omega)] at large
  exact absurd large (Nat.not_le_of_lt small)

/-! ### Escapes -/

theorem escapeByte?_ascii {letter : Char} (small : letter.toNat < 128) :
    escapeByte? (.ofNat letter.toNat) =
      (Escape.decode? letter).map fun c => .ofNat c.toNat := by
  have codes : ∀ code < 128, escapeByte? (.ofNat (Char.ofNat code).toNat) =
      (Escape.decode? (Char.ofNat code)).map fun c => .ofNat c.toNat := by
    decide +kernel
  rw [← Char.ofNat_toNat letter]
  exact codes letter.toNat small

theorem escapeByte?_large {byte : UInt8} (large : 128 ≤ byte) : escapeByte? byte = none := by
  have letters : ∀ entry ∈ escapeCodes, entry.1.toNat < 128 := by decide
  have none : escapeCodes.find? (fun entry => entry.1.toNat = byte.toNat) = none := by
    rw [List.find?_eq_none]
    intro entry mem same
    have small := letters entry mem
    rw [of_decide_eq_true same] at small
    exact absurd (UInt8.le_iff_toNat_le.mp large) (Nat.not_le_of_lt small)
  rw [escapeByte?, none, Option.map_none]

theorem decode?_large {letter : Char} (large : 128 ≤ letter.toNat) :
    Escape.decode? letter = none := by
  cases found : Escape.decode? letter with
  | none => rfl
  | some c =>
    have isEscape : Pattern.isEscape letter = true := by simp [Pattern.isEscape, found]
    obtain ⟨code, mem⟩ := Escape.exists_mem isEscape
    have letters : ∀ entry ∈ escapeCodes, entry.1.toNat < 128 := by decide
    exact absurd (letters _ mem) (Nat.not_lt_of_le large)

theorem ascii_of_decode? {letter c : Char} (found : Escape.decode? letter = some c) :
    c.toNat < 128 := by
  have isEscape : Pattern.isEscape letter = true := by simp [Pattern.isEscape, found]
  obtain ⟨code, mem⟩ := Escape.exists_mem isEscape
  rw [Escape.decode?_of_mem mem] at found
  have values : ∀ entry ∈ escapeCodes, (Char.ofNat entry.2).toNat < 128 := by decide
  rw [← Option.some.inj found]
  exact values _ mem

/-! ### Escaped bytes -/

theorem unescapeBytes?_of_ne {byte : UInt8} (bytes : List UInt8) (other : byte ≠ 92) :
    unescapeBytes? (byte :: bytes) = (unescapeBytes? bytes).map (byte :: ·) := by
  cases bytes with
  | nil => simp [unescapeBytes?, other]
  | cons next bytes => simp [unescapeBytes?, other]

theorem unescapeBytes?_append {front : List UInt8} (other : ∀ byte ∈ front, byte ≠ 92)
    (bytes : List UInt8) :
    unescapeBytes? (front ++ bytes) = (unescapeBytes? bytes).map (front ++ ·) := by
  induction front with
  | nil => simp
  | cons byte front ih =>
    rw [List.forall_mem_cons] at other
    rw [List.cons_append, unescapeBytes?_of_ne _ other.1, ih other.2, Option.map_map]
    rfl

/-- A backslash with what follows it is never in the midst of a character. -/
theorem unescapeBytes?_utf8 (cs : List Char) :
    unescapeBytes? (utf8 cs) = (unescape? cs).map utf8 := by
  have backslash : String.utf8EncodeChar '\\' = [92] := rfl
  fun_induction unescape? cs with
  | case1 => rfl
  | case2 letter cs c found ih =>
    have small : letter.toNat < 128 := by
      by_contra large
      cases found.symm.trans (decode?_large (Nat.le_of_not_lt large))
    have escaped := escapeByte?_ascii small
    rw [found, Option.map_some] at escaped
    have bytes := utf8EncodeChar_ascii (ascii_of_decode? found)
    simp only [utf8_cons, backslash, utf8EncodeChar_ascii small, List.singleton_append,
      unescapeBytes?, if_true, escaped, ih, Option.map_map]
    congr 1
    funext value
    simp [bytes]
  | case3 letter cs none =>
    rcases ascii_or_large letter with ⟨small, bytes⟩ | ⟨-, byte, bytes, same, large⟩
    · have escaped := escapeByte?_ascii small
      rw [none, Option.map_none] at escaped
      simp [backslash, bytes, unescapeBytes?, escaped]
    · have escaped := escapeByte?_large (large byte List.mem_cons_self)
      simp [backslash, same, unescapeBytes?, escaped]
  | case4 cs last =>
    cases cs with
    | nil => simp [backslash, unescapeBytes?]
    | cons letter cs => exact absurd rfl (last letter cs rfl)
  | case5 c cs _ other ih =>
    -- the bytes of a character outside of ASCII are all above the backslash
    have plain : ∀ byte ∈ String.utf8EncodeChar c, byte ≠ 92 := by
      rcases ascii_or_large c with ⟨small, bytes⟩ | ⟨-, byte, bytes, same, large⟩
      · rw [bytes, List.forall_mem_singleton]
        exact fun same => other ((ofNat_eq_iff '\\' small (by decide)).mp same)
      · rw [same]
        exact fun b mem => ne_of_large (n := 92) (large b mem) (by decide)
    rw [utf8_cons, unescapeBytes?_append plain, ih, Option.map_map, Option.map_map]
    rfl

/-- The marks of a text are those of its bytes. -/
theorem betweenBytes?_utf8 (cs : List Char) :
    betweenBytes? (utf8 cs) = (between? '"' cs).map utf8 := by
  have quote : String.utf8EncodeChar '"' = [34] := rfl
  cases cs with
  | nil => rfl
  | cons c cs =>
    by_cases opens : c = '"'
    · subst opens
      rcases List.eq_nil_or_concat cs with rfl | ⟨front, d, rfl⟩
      · rfl
      · by_cases closes : d = '"'
        · subst closes
          simp [quote, betweenBytes?, between?]
        · have other : (String.utf8EncodeChar d).getLast? ≠ some 34 := by
            rcases ascii_or_large d with ⟨small, bytes⟩ | ⟨-, byte, bytes, same, large⟩
            · simp only [bytes, List.getLast?_singleton, ne_eq, Option.some.injEq]
              exact fun same => closes ((ofNat_eq_iff '"' small (by decide)).mp same)
            · intro last
              rw [same] at last
              have among := large 34 (List.mem_of_getLast? last)
              exact ne_of_large (n := 34) among (by decide) rfl
          simp [quote, betweenBytes?, between?, other, closes]
    · have other : ∀ bytes, betweenBytes? (String.utf8EncodeChar c ++ bytes) = none := by
        intro bytes
        rcases ascii_or_large c with ⟨small, same⟩ | ⟨-, byte, more, same, large⟩
        · have notQuote : UInt8.ofNat c.toNat ≠ 34 := fun same =>
            opens ((ofNat_eq_iff '"' small (by decide)).mp same)
          simp [same, betweenBytes?, notQuote]
        · have notQuote : byte ≠ 34 :=
            ne_of_large (n := 34) (large byte List.mem_cons_self) (by decide)
          simp [same, betweenBytes?, notQuote]
      simp [other, between?, opens]

/-- The bytes of the value of a string are those that its own bytes stand for. -/
theorem decodeBytes?_eq (text : String) : decodeBytes? text.toUTF8.data.toList =
    (decodeString text).toOption.map fun value => value.toUTF8.data.toList := by
  have contents : decodeBytes? text.toUTF8.data.toList = (contents? '"' text).map utf8 := by
    rw [toUTF8_toList, decodeBytes?, betweenBytes?_utf8, contents?]
    cases between? '"' text.toList with
    | none => rfl
    | some inner => exact unescapeBytes?_utf8 inner
  rw [contents, decodeString]
  cases contents? '"' text with
  | none => rfl
  | some cs => exact congrArg some (toUTF8_ofList cs).symm

end Quoted

end PlainC
