set_option autoImplicit false

/-!
The lines of a text, with the bytes they take.
-/

namespace PlainC

/-- The bytes that characters take in UTF-8. -/
def byteLength : List Char → Nat
  | [] => 0
  | c :: cs => c.utf8Size + byteLength cs

theorem byteLength_append (cs ds : List Char) :
    byteLength (cs ++ ds) = byteLength cs + byteLength ds := by
  induction cs with
  | nil => simp [byteLength]
  | cons c cs ih => simp [byteLength, ih, Nat.add_assoc]

/-- The lines of a text. Each but the last ends with its line feed; behind a line feed at the end
there is one more line, which is empty. -/
def splitLines : List Char → List (List Char)
  | [] => [[]]
  | c :: cs =>
    if c = '\n' then ['\n'] :: splitLines cs
    else match splitLines cs with
      | [] => [[c]]
      | line :: rest => (c :: line) :: rest

/-- A line of a text: its number, the number of bytes before it, and its characters. -/
structure SourceLine where
  number : Nat
  start : Nat
  text : List Char
  deriving Repr

namespace SourceLine

/-- Lines in order, given the number of the first and the bytes before it. -/
def enumerate (number start : Nat) : List (List Char) → List SourceLine
  | [] => []
  | text :: rest =>
    ⟨number, start, text⟩ :: enumerate (number + 1) (start + byteLength text) rest

def ofText (source : String) : List SourceLine :=
  enumerate 1 0 (splitLines source.toList)

/-- The line with a byte in it. A byte behind the end belongs to the last line. -/
def at? (lines : List SourceLine) (byte : Nat) : Option SourceLine :=
  (lines.takeWhile (·.start ≤ byte)).getLast?

/-- The number of characters of a line that end within a number of bytes. -/
def charsWithin (text : List Char) (bytes : Nat) : Nat :=
  match text with
  | [] => 0
  | c :: cs => if c.utf8Size ≤ bytes then 1 + charsWithin cs (bytes - c.utf8Size) else 0

/-- The column of a byte, counted in characters from one. -/
def column (line : SourceLine) (byte : Nat) : Nat :=
  1 + charsWithin line.text (byte - line.start)

/-- The characters of a line without the line feeds, carriage returns and null characters at its
end. -/
def shown (line : SourceLine) : List Char :=
  (line.text.reverse.dropWhile fun c => c = '\n' || c = '\r' || c = '\x00').reverse

end SourceLine

end PlainC
