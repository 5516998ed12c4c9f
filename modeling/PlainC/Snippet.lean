import PlainC.Diagnostic
import PlainC.Text.CharRange
import PlainC.Text.Lines
import PlainC.Text.Width

set_option autoImplicit false

/-!
Diagnostics shown with the lines of source they are about. A diagnostic about one line has carets
under that line; one about several has a bar in front of them, which begins and ends at its bytes.
-/

namespace PlainC

/-- A character as it is laid out in a line: the bytes before it and the cells it takes. -/
structure Cell where
  char : Char
  offset : Nat
  width : Nat
  deriving Repr

namespace Cell

/-- The distance of tab stops. -/
def tabWidth : Nat := 4

/-- Characters laid out from an offset and a column on. A tab reaches to the next tab stop. -/
def layOut (offset column : Nat) : List Char → List Cell
  | [] => []
  | c :: cs =>
    let width := if c = '\t' then tabWidth - column % tabWidth else cellWidth c
    ⟨c, offset, width⟩ :: layOut (offset + c.utf8Size) (column + width) cs

def ofText (text : List Char) : List Cell := layOut 0 0 text

/-- A character as it is printed: a tab is blanks. -/
def text (cell : Cell) : String :=
  if cell.char = '\t' then String.ofList (List.replicate cell.width ' ') else cell.char.toString

/-- A mark for each cell of a character. -/
def marks (cell : Cell) (mark : Char) : String :=
  String.ofList (List.replicate cell.width mark)

end Cell

/-- The text of a line with its tabs as blanks. -/
def expandTabs (text : List Char) : String :=
  String.join ((Cell.ofText text).map Cell.text)

/-- The carets under the bytes from `start` up to `stop` of a line, and blanks in front of them. One
more cell stands behind the line for bytes at its end. -/
def carets (text : List Char) (start stop : Nat) : String :=
  let behind : Cell := ⟨'\x00', byteLength text, 1⟩
  String.join <| (Cell.ofText text ++ [behind]).map fun cell =>
    if max start cell.offset < min stop (cell.offset + cell.char.utf8Size) then cell.marks '^'
    else if cell.offset < stop then cell.marks ' '
    else ""

/-- A rule over all characters of a line that begin before a byte, with a caret at its end. -/
def ruleBefore (text : List Char) (stop : Nat) : String :=
  let cells := (Cell.ofText text).filter (·.offset < stop)
  String.join (cells.map fun cell => cell.marks '─') ++ "^"

namespace Snippet

/-- The label of a diagnostic, which stands beside its carets. -/
def labelOf (complaint : Complaint) : String :=
  match complaint with
  | .lexical message _ | .semantic message => message
  | .syntactic expected _ => "expected " ++ expected

/-- The note of a diagnostic, which stands below the source. -/
def note? (complaint : Complaint) : Option String :=
  match complaint with
  | .syntactic _ found => some ("found " ++ found)
  | _ => none

/-- A label behind its carets. -/
def behind (label : String) : String :=
  if label.isEmpty then "" else " " ++ label

/-- The left margin: line numbers take so many columns in it. -/
def blankMargin (columns : Nat) : String :=
  String.ofList (List.replicate columns ' ')

def numberedMargin (columns number : Nat) : String :=
  let digits := toString number
  blankMargin (columns - digits.length) ++ digits

/-- How the bar of a label over several lines passes a line: it begins in front of its text, it
begins below the text, it passes in front of it, or it is not there. -/
inductive Bar where
  | begins | beginsBelow | passes | absent
  deriving DecidableEq, Repr

def Bar.beside : Bar → String
  | begins => " ╭"
  | passes => " │"
  | beginsBelow | absent => "  "

/-- What follows the source of a line. -/
inductive Below where
  | top (rule : String)
  | bottom (rule : String)
  | nothing

/-- A shown line of several. -/
structure Row where
  line : SourceLine
  bar : Bar
  below : Below

section

variable (columns : Nat)

/-- The line of a row, and below it the beginning or end of the bar. -/
def Row.lines (row : Row) : List String :=
  let source :=
    numberedMargin columns row.line.number ++ " │" ++ row.bar.beside ++ " " ++
      expandTabs row.line.shown
  match row.below with
  | .top rule => [source, blankMargin columns ++ " │ ╭" ++ rule]
  | .bottom rule => [source, blankMargin columns ++ " │ ╰" ++ rule]
  | .nothing => [source]

/-- What stands between two rows: nothing, the one line between them, or a break. -/
def between (all : List SourceLine) (bar : Bar) (upper lower : Row) : List String :=
  if lower.line.number ≤ upper.line.number + 1 then []
  else if lower.line.number = upper.line.number + 2 then
    match all[upper.line.number]? with
    | some line => Row.lines columns ⟨line, bar, .nothing⟩
    | none => []
  else
    let beside := if upper.bar = .passes then upper.bar.beside else "  "
    [blankMargin columns ++ " ·" ++ beside]

/-- Rows from top to bottom. -/
def rowLines (all : List SourceLine) (bar : Bar) : List Row → List String
  | [] => []
  | [row] => row.lines columns
  | upper :: lower :: rest =>
    upper.lines columns ++ between columns all bar upper lower ++
      rowLines all bar (lower :: rest)

/-- The number of the byte behind another. Bytes are numbered by 64-bit words, so behind the last of
these comes zero. -/
def followingByte (byte : Nat) : Nat := (byte + 1) % 0x10000000000000000

/-- The source of a diagnostic about one line, with carets. -/
def oneLine (line : SourceLine) (span : Span) (label : String) : List String :=
  let start := span.start - line.start
  let stop := max (span.stop - line.start) (followingByte start)
  [numberedMargin columns line.number ++ " │ " ++ expandTabs line.shown,
   blankMargin columns ++ " │ " ++ carets line.shown start stop ++ behind label]

/-- The number of lines shown behind the first and in front of the last of several. -/
def linesBehindFirst : Nat := 3

def linesBeforeLast : Nat := 1

/-- The source of a diagnostic about several lines, with a bar from the first to the last. -/
def severalLines (all : List SourceLine) (first last : SourceLine) (span : Span)
    (label : String) : List String :=
  let start := span.start - first.start
  let lead := byteLength (first.shown.takeWhile isBlankChar)
  let top : Row :=
    if start ≤ lead then ⟨first, .begins, .nothing⟩
    else ⟨first, .beginsBelow, .top (ruleBefore first.shown (start + 1))⟩
  let bottom : Row :=
    ⟨last, .passes, .bottom (ruleBefore last.shown (span.stop - last.start) ++ behind label)⟩
  if first.number < last.number then
    let inner := all.filter fun line =>
      first.number < line.number && line.number < last.number &&
        (line.number - first.number ≤ linesBehindFirst ||
          last.number - line.number ≤ linesBeforeLast)
    rowLines columns all .passes
      (top :: inner.map (fun line => ⟨line, .passes, .nothing⟩) ++ [bottom])
  else rowLines columns all .absent [bottom, top]

end

/-- The lines of a note, which can end in a carriage return and a line feed. -/
def noteLines (note : String) : List String :=
  let lines := (splitLines note.toList).filter (· ≠ [])
  let strip (line : List Char) : List Char :=
    match line.reverse with
    | '\n' :: '\r' :: rest | '\n' :: rest => rest.reverse
    | _ => line
  lines.map fun line => String.ofList (strip line)

/-- A note below the source. -/
def noteRows (columns : Nat) (note : String) : List String :=
  match noteLines note with
  | [] => []
  | first :: rest =>
    (blankMargin columns ++ " = " ++ first) ::
      rest.map fun line => blankMargin columns ++ "   " ++ line

/-- The lines of a diagnostic about a part of a source of a name. -/
def rows (name source : String) (diagnostic : Diagnostic) : List String :=
  let all := SourceLine.ofText source
  let span := diagnostic.span
  match SourceLine.at? all span.start, SourceLine.at? all span.stop with
  | some first, some last =>
    let columns := (toString (max first.number last.number)).length
    let margin := blankMargin columns
    let label := labelOf diagnostic.complaint
    let single := first.number == last.number
    let border := margin ++ " │" ++ if single then "" else "  "
    let place :=
      name ++ ":" ++ toString first.number ++ ":" ++ toString (first.column span.start)
    let code :=
      if single then oneLine columns first span label
      else severalLines columns all first last span label
    let notes := match note? diagnostic.complaint with
      | none => []
      | some note => border :: noteRows columns note
    ["error: " ++ diagnostic.complaint.title, margin ++ " ┌─ " ++ place, border] ++ code ++ notes ++
      [""]
  | _, _ => []

end Snippet

/-- A diagnostic with the lines of source it is about. -/
def Diagnostic.render (name source : String) (diagnostic : Diagnostic) : String :=
  String.join ((Snippet.rows name source diagnostic).map (· ++ "\n"))

end PlainC
