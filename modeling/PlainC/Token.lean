set_option autoImplicit false

/-!
The tokens of PlainC: their kinds, the class and the spelling of each kind, and the way a kind is
shown in a message. A token is a kind with the bytes it covers and the line it starts on.
-/

namespace PlainC

/-- The reserved words. -/
inductive Keyword where
  | breakKw | charKw | doubleKw | elseKw | forKw | ifKw | intKw | returnKw | structKw | voidKw
  | whileKw
  deriving DecidableEq, Repr

/-- The operators. -/
inductive Operator where
  | plus | minus | star | slash | percent
  | equal | unequal | less | lessEqual | greater | greaterEqual
  | assign | conj | disj | bang | dot
  deriving DecidableEq, Repr

/-- The punctuation marks. -/
inductive Delimiter where
  | semicolon | comma | leftParen | rightParen | leftBracket | rightBracket | leftBrace | rightBrace
  deriving DecidableEq, Repr

/-- The forms a literal can have. -/
inductive LiteralForm where
  | integer | real | character | string
  deriving DecidableEq, Repr

/-- What a token is. `trivia` stands for white space and comments, which a scan leaves out. -/
inductive Kind where
  | keyword (word : Keyword)
  | identifier (name : String)
  | literal (form : LiteralForm) (text : String)
  | operator (op : Operator)
  | delimiter (mark : Delimiter)
  | trivia
  | endOfInput
  deriving DecidableEq, Repr

namespace Keyword

def text : Keyword → String
  | breakKw => "break"
  | charKw => "char"
  | doubleKw => "double"
  | elseKw => "else"
  | forKw => "for"
  | ifKw => "if"
  | intKw => "int"
  | returnKw => "return"
  | structKw => "struct"
  | voidKw => "void"
  | whileKw => "while"

def all : List Keyword :=
  [breakKw, charKw, doubleKw, elseKw, forKw, ifKw, intKw, returnKw, structKw, voidKw, whileKw]

/-- The keyword with this spelling. -/
def ofText? (word : String) : Option Keyword :=
  all.find? fun keyword => keyword.text == word

end Keyword

namespace Operator

def text : Operator → String
  | plus => "+"
  | minus => "-"
  | star => "*"
  | slash => "/"
  | percent => "%"
  | equal => "=="
  | unequal => "!="
  | less => "<"
  | lessEqual => "<="
  | greater => ">"
  | greaterEqual => ">="
  | assign => "="
  | conj => "&&"
  | disj => "||"
  | bang => "!"
  | dot => "."

/-- All operators, those of two characters first. -/
def all : List Operator :=
  [equal, unequal, lessEqual, greaterEqual, conj, disj,
    plus, minus, star, slash, percent, less, greater, assign, bang, dot]

end Operator

namespace Delimiter

def text : Delimiter → String
  | semicolon => ";"
  | comma => ","
  | leftParen => "("
  | rightParen => ")"
  | leftBracket => "["
  | rightBracket => "]"
  | leftBrace => "\x7b"
  | rightBrace => "\x7d"

def all : List Delimiter :=
  [semicolon, comma, leftParen, rightParen, leftBracket, rightBracket, leftBrace, rightBrace]

end Delimiter

/-- The classes into which the kinds fall. -/
inductive TokenClass where
  | keyword | identifier | integer | real | character | string | operator | delimiter | endOfInput
  deriving DecidableEq, Repr

/-- The name of a class in a listing of tokens. -/
def TokenClass.label : TokenClass → String
  | keyword => "KEYWORD"
  | identifier => "IDENTIFIER"
  | integer => "INT_LITERAL"
  | real => "REAL_LITERAL"
  | character => "CHAR_LITERAL"
  | string => "STRING_LITERAL"
  | operator => "OPERATOR"
  | delimiter => "DELIMITER"
  | endOfInput => "END_OF_INPUT"

namespace Kind

/-- The kind of a word: a keyword if it is one, and an identifier otherwise. -/
def ofWord (word : String) : Kind :=
  match Keyword.ofText? word with
  | some reserved => .keyword reserved
  | none => .identifier word

def tokenClass : Kind → TokenClass
  | .keyword _ => .keyword
  | .identifier _ => .identifier
  | .literal .integer _ => .integer
  | .literal .real _ => .real
  | .literal .character _ => .character
  | .literal .string _ => .string
  | .operator _ => .operator
  | .delimiter _ => .delimiter
  | .trivia | .endOfInput => .endOfInput

/-- The spelling of a kind. Trivia and the end of input have none. -/
def lexeme : Kind → String
  | .keyword word => word.text
  | .identifier name => name
  | .literal _ text => text
  | .operator op => op.text
  | .delimiter mark => mark.text
  | .trivia | .endOfInput => ""

/-- The text between single quotes. -/
def quoted (text : String) : String :=
  "'" ++ text ++ "'"

/-- How a kind is named in a message. -/
def shown : Kind → String
  | .identifier name => "identifier " ++ quoted name
  | .literal .integer text => "integer " ++ quoted text
  | .literal .real text => "real " ++ quoted text
  | .literal .character text => "char " ++ text
  | .literal .string text => "string " ++ text
  | .trivia | .endOfInput => "end of input"
  | .keyword word => quoted word.text
  | .operator op => quoted op.text
  | .delimiter mark => quoted mark.text

/-- Whether a kind can begin a base type. -/
def beginsType : Kind → Bool
  | .keyword .intKw | .keyword .doubleKw | .keyword .charKw | .keyword .structKw => true
  | _ => false

end Kind

/-- A range of bytes of the source, from `start` up to and without `stop`. -/
structure Span where
  start : Nat
  stop : Nat
  deriving DecidableEq, Repr

/-- A token with its place in the source: the bytes of its lexeme and the line of the first one. -/
structure Token where
  kind : Kind
  span : Span
  line : Nat
  deriving DecidableEq, Repr

/-! ### Listing -/

namespace Token

/-- A line for a token: its line in the source, its class and its lexeme. -/
def listed (token : Token) : String :=
  toString token.line ++ " " ++ token.kind.tokenClass.label ++ " " ++ token.kind.lexeme ++ "\n"

def listing (tokens : List Token) : String :=
  String.join (tokens.map listed)

end Token

end PlainC
