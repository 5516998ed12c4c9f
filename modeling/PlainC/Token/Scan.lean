import PlainC.Text.Lines
import PlainC.Token
import PlainC.Token.Pattern

set_option autoImplicit false

/-!
Scanning: the text is cut into lexemes by the rules for them, white space and comments are skipped,
and the lines are counted in them. A scan goes on behind a fault.
-/

namespace PlainC

/-- A pattern and the kind of the lexemes that it matches. -/
structure LexemeRule where
  pattern : Pattern
  kind : String → Kind

namespace LexemeRule

def ofOperator (op : Operator) : LexemeRule :=
  ⟨if op = .slash then Pattern.slash else Pattern.exactly op.text, fun _ => .operator op⟩

def ofDelimiter (mark : Delimiter) : LexemeRule :=
  ⟨Pattern.exactly mark.text, fun _ => .delimiter mark⟩

/-- The lexemes. Their order is such that the first rule that matches has the longest match. -/
def all : List LexemeRule :=
  [⟨Pattern.blanks, fun _ => .trivia⟩,
   ⟨Pattern.word, Kind.ofWord⟩,
   ⟨Pattern.hexInteger, .literal .integer⟩,
   ⟨Pattern.fractionReal, .literal .real⟩,
   ⟨Pattern.exponentReal, .literal .real⟩,
   ⟨Pattern.digits, .literal .integer⟩,
   ⟨Pattern.character, .literal .character⟩,
   ⟨Pattern.string, .literal .string⟩,
   ⟨Pattern.lineComment, fun _ => .trivia⟩,
   ⟨Pattern.blockComment, fun _ => .trivia⟩] ++
  Operator.all.map ofOperator ++ Delimiter.all.map ofDelimiter

/-- The kind and the length of the lexeme at the front of a text, by one rule. -/
def read? (rule : LexemeRule) (cs : List Char) : Option (Kind × Nat) :=
  (rule.pattern cs).map fun n => (rule.kind (String.ofList (cs.take n)), n)

/-- The kind and the length of the lexeme at the front of a text. -/
def firstMatch (cs : List Char) : Option (Kind × Nat) :=
  all.findSome? fun rule => rule.read? cs

end LexemeRule

/-- What can be wrong with a lexeme. -/
inductive LexemeProblem where
  | unrecognized (first : Char)
  | octalDigit
  /-- The number runs into these letters, digits or underscores. -/
  | malformedNumber (tail : String)
  deriving DecidableEq, Repr

/-- A lexeme that is no token, with its place. -/
structure ScanFault where
  problem : LexemeProblem
  lexeme : String
  span : Span
  line : Nat
  deriving DecidableEq, Repr

/-- Whether digits are written with a leading zero and have one above seven among them. -/
def hasBadOctalDigit (cs : List Char) : Bool :=
  cs.head? = some '0' && cs.all Pattern.isDigit && cs.any (· > '7')

/-- What is wrong with a number in front of a text: it runs into a word, or it is written with a
leading zero and has a digit above seven. -/
def Kind.numberProblem? (kind : Kind) (after : List Char) : Option LexemeProblem :=
  let tail := after.takeWhile Pattern.isWordChar
  match kind with
  | .literal .integer text =>
    if tail ≠ [] then some (.malformedNumber (String.ofList tail))
    else if hasBadOctalDigit text.toList then some .octalDigit
    else none
  | .literal .real _ =>
    if tail ≠ [] then some (.malformedNumber (String.ofList tail)) else none
  | _ => none

/-- The length of the lexeme reported where no rule matches: all that is left for a comment without
end, the mark and the complete items behind it for a string without end, and else one character. -/
def unrecognizedLength (cs : List Char) : Nat :=
  match cs with
  | '/' :: '*' :: _ => cs.length
  | '"' :: rest => 1 + Pattern.items '"' rest
  | _ => 1

/-- A scan in progress: the text that is left, the bytes before it and the line it starts on. The
line has no bound here. `Guarded.Scan` counts the line feeds in 32 bits, and makes the same tokens
of every source whose lines can be counted so. -/
structure Scanner where
  rest : List Char
  offset : Nat
  line : Nat
  deriving DecidableEq, Repr

namespace Scanner

/-- The scan of a text from its beginning. -/
def ofString (source : String) : Scanner := ⟨source.toList, 0, 1⟩

/-- The scan behind the next `n` characters, on the same line. -/
def drop (scanner : Scanner) (n : Nat) : Scanner :=
  { scanner with
    rest := scanner.rest.drop n
    offset := scanner.offset + byteLength (scanner.rest.take n) }

/-- The scan behind `n` characters of trivia, whose line feeds count. -/
def skip (scanner : Scanner) (n : Nat) : Scanner :=
  { scanner.drop n with line := scanner.line + (scanner.rest.take n).count '\n' }

/-- The bytes of the next `n` characters. -/
def span (scanner : Scanner) (n : Nat) : Span :=
  ⟨scanner.offset, (scanner.drop n).offset⟩

/-- The scan behind the trivia in front of it; `fuel` bounds the number of pieces. -/
def skipTrivia : Nat → Scanner → Scanner
  | 0, scanner => scanner
  | fuel + 1, scanner =>
    match LexemeRule.firstMatch scanner.rest with
    | some (.trivia, n) => skipTrivia fuel (scanner.skip n)
    | _ => scanner

/-- The token or fault directly in front of the scan, and the scan behind it. At the end of the
text it is the end of input, again and again. -/
def lexeme (scanner : Scanner) : Except ScanFault Token × Scanner :=
  match scanner.rest with
  | [] => (.ok ⟨.endOfInput, ⟨scanner.offset, scanner.offset⟩, scanner.line⟩, scanner)
  | c :: _ =>
    match LexemeRule.firstMatch scanner.rest with
    | some (kind, n) =>
      match kind.numberProblem? (scanner.rest.drop n) with
      | none => (.ok ⟨kind, scanner.span n, scanner.line⟩, scanner.drop n)
      | some problem =>
        (.error ⟨problem, kind.lexeme, scanner.span n, scanner.line⟩, scanner.drop n)
    | none =>
      let n := unrecognizedLength scanner.rest
      (.error ⟨.unrecognized c, String.ofList (scanner.rest.take n), scanner.span n, scanner.line⟩,
        scanner.drop n)

/-- The next token or fault behind the trivia, and the scan behind it. -/
def next (scanner : Scanner) : Except ScanFault Token × Scanner :=
  (scanner.skipTrivia scanner.rest.length).lexeme

/-- The tokens up to and with the end of input, unless a fault comes first; `fuel` bounds their
number. -/
def tokens : Nat → Scanner → Except ScanFault (List Token)
  | 0, _ => .ok []
  | fuel + 1, scanner =>
    match scanner.next with
    | (.error fault, _) => .error fault
    | (.ok token, after) =>
      if token.kind = .endOfInput then .ok [token]
      else (tokens fuel after).map (token :: ·)

end Scanner

/-- The tokens of a text, of which the last is the end of input, or its first fault. -/
def tokenize (source : String) : Except ScanFault (List Token) :=
  let scanner := Scanner.ofString source
  scanner.tokens (scanner.rest.length + 1)

end PlainC
