import PlainC.Decl
import PlainC.Stmt.Parse

set_option autoImplicit false

/-!
Reading top-level declarations. A struct is declared where a brace follows its name, and a function
where a parenthesis follows a name; everything else that begins with a base type declares variables.
-/

namespace PlainC

def Param.parse : Parse (Slot Param) := do
  match ← BaseName.parse? with
  | none => Parse.missing
  | some base =>
    let name ← Parse.name
    return .found ⟨base, name, ← ArrayPart.parse⟩

def ResultType.parse? : Parse (Option ResultType) := do
  match ← Parse.keyword? .voidKw with
  | some word => return some (.void word)
  | none =>
    match ← BaseName.parse? with
    | none => return none
    | some base =>
      match ← Parse.token? (.operator .star) with
      | none => return some (.value base)
      | some star => return some (.array base star)

namespace Decl

/-- Takes the beginning of a struct: the word, a name and a brace. -/
def structHead? : Parse (Option (Place × Name × Place)) := fun _ ts =>
  match ts with
  | ⟨.keyword .structKw, word⟩ :: ⟨.identifier name, place⟩ :: ⟨.delimiter .leftBrace, opening⟩ ::
      rest => (some (word, ⟨name, place⟩, opening), rest)
  | _ => (none, ts)

def parseStruct (word : Place) (name : Name) (opening : Place) : Parse Decl := do
  let members ← VarDecl.parseAll
  let closing ← Parse.mark .rightBrace
  return .struct word name opening members closing (← Parse.mark .semicolon)

/-- Takes the beginning of a function: its result, a name and a parenthesis. If one of them is not
there, nothing is taken, and the answer is the number of lexemes that were. -/
def functionHead : Parse (Except Nat (ResultType × Name × Place)) := fun last ts =>
  let attempt : Parse (Option (ResultType × Name × Place)) := do
    match ← ResultType.parse? with
    | none => return none
    | some result =>
      match ← Parse.name? with
      | none => return none
      | some name =>
        match ← Parse.mark? .leftParen with
        | none => return none
        | some opening => return some (result, name, opening)
  match attempt last ts with
  | (some head, rest) => (.ok head, rest)
  | (none, rest) => (.error (ts.length - rest.length), ts)

def parseFunction (result : ResultType) (name : Name) (opening : Place) : Parse Decl := do
  let params ←
    if ← Parse.sees (.delimiter .rightParen) then pure none
    else some <$> Separated.parse Param.parse
  let closing ← Parse.mark .rightParen
  match ← Block.parse with
  | some block => return .function result name opening params closing (.found block)
  | none => return .function result name opening params closing (← Parse.missing)

def parse : Parse Decl := do
  match ← structHead? with
  | some (word, name, opening) => parseStruct word name opening
  | none =>
    match ← functionHead with
    | .ok (result, name, opening) => parseFunction result name opening
    | .error tried =>
      match ← VarDecl.parse? with
      | some decl => return .vars tried decl
      | none => return .missing tried (← Parse.peek)

/-- The declarations up to the end of input, or to where one is missing; `fuel` bounds their
number. -/
def parseAllWithin : Nat → Parse (List Decl)
  | 0 => pure []
  | fuel + 1 => do
    if ← Parse.atEnd then return []
    match ← parse with
    | .missing tried instead => return [.missing tried instead]
    | decl => return decl :: (← parseAllWithin fuel)

def parseAll : Parse (List Decl) := Parse.bounded parseAllWithin

end Decl

end PlainC
