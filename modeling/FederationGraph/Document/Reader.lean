import FederationGraph.Decimal.Binary64
import FederationGraph.Document.Token
import FederationGraph.Document.Tree

/-!
# Reading documents

A reader consumes tokens from the front of a scan. The token in front is always
known to be one; moving past it brings the next token to the front, or the
lexical fault that stands there. So a lexical fault behind a token is reported
as soon as that token has been taken, ahead of any fault of the grammar.

Lists, objects, list types and selection sets may be nested 200 deep. A list or
object is counted at its opening mark, a list type behind it, and a selection
set where its opening mark is expected. The depth still allowed is what the
nested readers recurse on.
-/
namespace FederationGraph.Document

/-- The tokens ahead: the one in front, those behind it and the fault after the last. -/
structure Input where
  front : Token
  behind : List Token
  fault? : Option Fault
  deriving Repr, Inhabited

/-- A step that consumes tokens. -/
abbrev Reader := StateT Input (Except Fault)

namespace Reader

/-- The token in front. -/
def front : Reader Token := return (← get).front

/-- A fault at a token. -/
def failAt {α : Type} (token : Token) (cause : Cause) : Reader α := throw ⟨cause, token.position⟩

/-- The input behind the token in front. At the end of the text it stays the same. -/
def Input.next (input : Input) : Except Fault Input :=
  match input.behind, input.fault? with
  | token :: behind, _ => .ok { input with front := token, behind }
  | [], some fault => .error fault
  | [], none => .ok input

/-- Moves past the token in front. -/
def advance : Reader Unit := do
  let input ← get
  set (← Input.next input)

/-- The token behind the one in front. -/
def lookahead : Reader Token := do
  let input ← get
  return (← Input.next input).front

/-- Whether the token in front is a given mark. -/
def sees (mark : Mark) : Reader Bool := return (← front).lexeme == .mark mark

/-- Whether the token in front is a name. -/
def seesName : Reader Bool := do
  match (← front).lexeme with
  | .name _ => return true
  | _ => return false

/-- Moves past a mark if it is in front, and says whether it was. -/
def accept (mark : Mark) : Reader Bool := do
  if ← sees mark then
    advance
    return true
  return false

/-- Moves past a word if it is in front, and says whether it was. -/
def acceptWord (word : String) : Reader Bool := do
  if (← front).lexeme == .name word then
    advance
    return true
  return false

/-- Moves past a mark that has to be in front. -/
def expect (mark : Mark) : Reader Unit := do
  let token ← front
  if token.lexeme == .mark mark then advance
  else failAt token (.expected (between mark.text) token.lexeme)

/-- Moves past a word that has to be in front. -/
def expectWord (word : String) : Reader Unit := do
  let token ← front
  if token.lexeme == .name word then advance
  else failAt token (.expected (between word) token.lexeme)

/-- Reports the token in front as unexpected. -/
def unexpected {α : Type} : Reader α := do
  let token ← front
  failAt token (.unexpected token.lexeme)

/-- A name. -/
def name : Reader String := do
  let token ← front
  match token.lexeme with
  | .name text =>
    advance
    return text
  | other => failAt token (.expected "Name" other)

/-- Items up to a closing mark, at most as many as the fuel says. -/
def untilMark {α : Type} (close : Mark) (item : Reader α) : Nat → Reader (List α)
  | 0 => unexpected
  | fuel + 1 => do
    if ← accept close then return []
    let first ← item
    return first :: (← untilMark close item fuel)

/-- Items up to a closing mark. Each takes a token at least, so the tokens ahead bound them. -/
def items {α : Type} (close : Mark) (item : Reader α) : Reader (List α) := do
  untilMark close item ((← get).behind.length + 2)

/-- Items between two marks. -/
def bracketed {α : Type} (openMark closeMark : Mark) (item : Reader α) : Reader (List α) := do
  expect openMark
  items closeMark item

/-- One item or more between two marks. -/
def bracketedSome {α : Type} (openMark closeMark : Mark) (item : Reader α) : Reader (List α) := do
  expect openMark
  let first ← item
  return first :: (← items closeMark item)

/-- One item or more between two marks, or nothing at all. -/
def optional {α : Type} (openMark closeMark : Mark) (item : Reader α) : Reader (List α) := do
  if ← sees openMark then bracketedSome openMark closeMark item else return []

/-- Further items behind a separating mark, at most as many as the fuel says. -/
def moreSeparated {α : Type} (separator : Mark) (item : Reader α) : Nat → Reader (List α)
  | 0 => unexpected
  | fuel + 1 => do
    if ← accept separator then
      let first ← item
      return first :: (← moreSeparated separator item fuel)
    return []

/-- One item or more set apart by a mark, which may also stand in front of the first. -/
def separated {α : Type} (separator : Mark) (item : Reader α) : Reader (List α) := do
  let _ ← accept separator
  let first ← item
  return first :: (← moreSeparated separator item ((← get).behind.length + 2))

/-! ## Values and types -/

/-- How deep lists, objects, list types and selection sets may be nested. -/
def depthLimit : Nat := 200

/-- A variable. -/
def variableName : Reader String := do
  expect .dollar
  name

/-- Reports a variable in a place where only constants may stand. -/
def variableInConstant : Reader Value := do
  let dollar ← front
  advance
  match (← front).lexeme with
  | .name text => failAt dollar (.variableInConstant text)
  | _ => failAt dollar (.unexpected dollar.lexeme)

/-- The value a name stands for. -/
def namedValue (text : String) : Value :=
  if text = "true" then .boolean true
  else if text = "false" then .boolean false
  else if text = "null" then .null
  else .text text

/-- The integer that a text with or without a minus sign writes; one with too many digits is no
number. -/
def integerValue (text : String) : Value :=
  let digits := text.toList.filter Decimal.isDigit
  if Decimal.mostDigits < digits.length then .float .nan
  else
    let n : Int := Decimal.ofDigits digits
    .integer (if text.toList.head? = some '-' then -n else n)

/-- A value that is neither list nor object. A variable that is allowed has no value of its own. -/
def simpleValue (constant : Bool) : Reader Value := do
  match (← front).lexeme with
  | .int text =>
    advance
    return integerValue text
  | .float text =>
    advance
    return .float (Binary64.ofText text.toList)
  | .quoted text =>
    advance
    return .text text
  | .block text =>
    advance
    return .text text
  | .name text =>
    advance
    return namedValue text
  | .mark .dollar =>
    if constant then variableInConstant
    else
      let _ ← variableName
      return .null
  | _ => unexpected

/-- An entry of an object: its name and its value. -/
def entry (value : Reader Value) : Reader (String × Value) := do
  let key ← name
  expect .colon
  return (key, ← value)

/-- A value; `depth` is how deep it may still be nested. -/
def value (constant : Bool) (depth : Nat) : Reader Value := do
  let token ← front
  match token.lexeme, depth with
  | .mark .bracketLeft, 0 => failAt token .tooDeep
  | .mark .braceLeft, 0 => failAt token .tooDeep
  | .mark .bracketLeft, depth + 1 =>
    return .list (← bracketed .bracketLeft .bracketRight (value constant depth))
  | .mark .braceLeft, depth + 1 =>
    return .ofEntries (← bracketed .braceLeft .braceRight (entry (value constant depth)))
  | _, _ => simpleValue constant
termination_by structural depth

/-- A type with the non-null mark behind it, if there is one. -/
def marked (type : TypeReference) : Reader TypeReference := do
  if ← accept .bang then return .nonNull type
  return type

/-- A type; `depth` is how deep it may still be nested. -/
def type (depth : Nat) : Reader TypeReference := do
  let token ← front
  if token.lexeme = .mark .bracketLeft then
    advance
    match depth with
    | 0 => failAt (← front) .tooDeep
    | depth + 1 =>
      let item ← type depth
      expect .bracketRight
      marked (.list item)
  else marked (.named (← name))
termination_by structural depth

/-- Arguments between parentheses, if there are any. -/
def arguments (constant : Bool) (depth : Nat) : Reader (List (String × Value)) :=
  optional .parenLeft .parenRight (entry (value constant depth))

/-- A directive. -/
def directive (constant : Bool) (depth : Nat) : Reader Directive := do
  expect .at
  let name ← name
  return ⟨name, .ofList (← arguments constant depth)⟩

/-- Directives as long as they come, at most as many as the fuel says. -/
def someDirectives (constant : Bool) (depth : Nat) : Nat → Reader (List Directive)
  | 0 => unexpected
  | fuel + 1 => do
    if ← sees .at then
      let first ← directive constant depth
      return first :: (← someDirectives constant depth fuel)
    return []

/-- Directives as long as they come. -/
def directivesAt (constant : Bool) (depth : Nat) : Reader (List Directive) := do
  someDirectives constant depth ((← get).behind.length + 2)

/-- The directives of a definition, whose arguments are constants. -/
def directives : Reader (List Directive) := directivesAt true depthLimit

/-- A description, if there is one. -/
def description : Reader Unit := do
  match (← front).lexeme with
  | .quoted _ => advance
  | .block _ => advance
  | _ => return

/-! ## Operations and fragments -/

/-- A field of a selection set; `nested` reads its own selection set. -/
def field (nested : Reader Unit) (depth : Nat) : Reader Unit := do
  let _ ← name
  if ← accept .colon then
    let _ ← name
  let _ ← arguments false depth
  let _ ← directivesAt false depth
  if ← sees .braceLeft then nested

/-- A spread or an inline fragment; `nested` reads its selection set. -/
def spread (nested : Reader Unit) (depth : Nat) : Reader Unit := do
  expect .spread
  let conditioned ← acceptWord "on"
  if !conditioned && (← seesName) then
    let _ ← name
    let _ ← directivesAt false depth
  else
    if conditioned then
      let _ ← name
    let _ ← directivesAt false depth
    nested

/-- A selection set; `depth` is how deep it may still be nested. -/
def selectionSet (depth : Nat) : Reader Unit := do
  match depth with
  | 0 => failAt (← front) .tooDeep
  | depth + 1 =>
    let _ ← bracketed .braceLeft .braceRight do
      if ← sees .spread then spread (selectionSet depth) depth
      else field (selectionSet depth) depth
termination_by structural depth

/-- The definition of a variable. -/
def variableDefinition : Reader Unit := do
  description
  let _ ← variableName
  expect .colon
  let _ ← type depthLimit
  if ← accept .equals then
    let _ ← value true depthLimit
  let _ ← directives

/-- Whether a word names an operation. -/
def isOperation (word : String) : Bool :=
  word == "query" || word == "mutation" || word == "subscription"

/-- The word for an operation. -/
def operationWord : Reader Unit := do
  let token ← front
  let word ← name
  if !isOperation word then failAt token (.unexpected token.lexeme)

/-- An operation that starts with its word. -/
def operation : Reader Unit := do
  description
  operationWord
  if ← seesName then
    let _ ← name
  let _ ← optional .parenLeft .parenRight variableDefinition
  let _ ← directivesAt false depthLimit
  selectionSet depthLimit

/-- The name of a fragment, which must not be the condition word. -/
def fragmentName : Reader Unit := do
  if (← front).lexeme.carried? = some "on" then unexpected
  let _ ← name

/-- The definition of a fragment. -/
def fragmentDefinition : Reader Unit := do
  description
  expectWord "fragment"
  fragmentName
  expectWord "on"
  let _ ← name
  let _ ← directivesAt false depthLimit
  selectionSet depthLimit

/-! ## Definitions of the type system -/

/-- The definition of an argument or an input field. -/
def inputValue : Reader Unit := do
  description
  let _ ← name
  expect .colon
  let _ ← type depthLimit
  if ← accept .equals then
    let _ ← value true depthLimit
  let _ ← directives

/-- The definitions of arguments, if there are any. -/
def argumentDefinitions : Reader Unit := do
  let _ ← optional .parenLeft .parenRight inputValue

/-- The definition of a field. -/
def fieldDefinition : Reader FieldDefinition := do
  description
  let name ← name
  argumentDefinitions
  expect .colon
  let type ← type depthLimit
  return ⟨name, type, ← directives⟩

/-- The interfaces a type implements, if it names any. -/
def interfaces : Reader (List String) := do
  if ← acceptWord "implements" then separated .ampersand name else return []

/-- The part of an object or interface type behind its keyword. -/
def typeFragment (isInterface isExtension : Bool) : Reader TypeFragment := do
  let name ← name
  let interfaces ← interfaces
  let directives ← directives
  let fields ← optional .braceLeft .braceRight fieldDefinition
  return { name, isInterface, isExtension, interfaces, directives, fields }

/-- The type of an operation in a schema definition. -/
def operationType : Reader Unit := do
  operationWord
  expect .colon
  let _ ← name

/-- The members of a union, if it names any. -/
def unionMembers : Reader (List String) := do
  if ← accept .equals then separated .pipe name else return []

/-- A value of an enumeration. -/
def enumValue : Reader Unit := do
  description
  let token ← front
  if ["true", "false", "null"].any fun word => token.lexeme.carried? == some word then
    failAt token (.reservedName token.lexeme)
  let _ ← name
  let _ ← directives

/-- The places a directive can be declared for. -/
def directiveLocations : List String :=
  ["QUERY", "MUTATION", "SUBSCRIPTION", "FIELD", "FRAGMENT_DEFINITION", "FRAGMENT_SPREAD",
    "INLINE_FRAGMENT", "VARIABLE_DEFINITION", "FRAGMENT_VARIABLE_DEFINITION", "SCHEMA", "SCALAR", "OBJECT", "FIELD_DEFINITION",
    "ARGUMENT_DEFINITION", "INTERFACE", "UNION", "ENUM", "ENUM_VALUE", "INPUT_OBJECT",
    "INPUT_FIELD_DEFINITION", "DIRECTIVE_DEFINITION"]

/-- One place a directive is declared for. -/
def directiveLocation : Reader Unit := do
  let token ← front
  let word ← name
  if !directiveLocations.contains word then failAt token (.unexpected token.lexeme)

/-- The part of a directive's definition behind its keyword. -/
def directiveDefinition : Reader Unit := do
  expect .at
  let _ ← name
  argumentDefinitions
  let _ ← directives
  let _ ← acceptWord "repeatable"
  expectWord "on"
  let _ ← separated .pipe directiveLocation

/-- The definition behind a keyword, if the word is one of the type system's. -/
def typeSystemDefinition? (word : String) : Option (Reader Definition) :=
  if word = "schema" then
    some do
      let _ ← directives
      let _ ← bracketedSome .braceLeft .braceRight operationType
      return .other
  else if word = "scalar" then
    some do
      let _ ← name
      let _ ← directives
      return .other
  else if word = "type" then some (return .fragment (← typeFragment false false))
  else if word = "interface" then some (return .fragment (← typeFragment true false))
  else if word = "union" then
    some do
      let _ ← name
      let _ ← directives
      let _ ← unionMembers
      return .other
  else if word = "enum" then
    some do
      let _ ← name
      let _ ← directives
      let _ ← optional .braceLeft .braceRight enumValue
      return .other
  else if word = "input" then
    some do
      let _ ← name
      let _ ← directives
      let _ ← optional .braceLeft .braceRight inputValue
      return .other
  else if word = "directive" then
    some do
      directiveDefinition
      return .other
  else none

/-- Reports the token in front unless an extension has a part. -/
def needsPart (hasPart : Bool) : Reader Unit := if hasPart then return else unexpected

/-- The extension of an object or interface type behind its keyword. -/
def typeExtension (isInterface : Bool) : Reader Definition := do
  let f ← typeFragment isInterface true
  needsPart (!(f.interfaces.isEmpty && f.directives.isEmpty && f.fields.isEmpty))
  return .fragment f

/-- The directives of an extension and the parts that `parts` reads behind them. -/
def otherExtension {α : Type} (parts : Reader (List α)) : Reader Definition := do
  let directives ← directives
  let parts ← parts
  needsPart (!(directives.isEmpty && parts.isEmpty))
  return .other

/-- The extension behind a keyword, if the word is one that can be extended. -/
def extension? (word : String) : Option (Reader Definition) :=
  if word = "schema" then
    some (otherExtension (optional .braceLeft .braceRight operationType))
  else if word = "scalar" then
    some do
      let _ ← name
      otherExtension (return ([] : List Unit))
  else if word = "type" then some (typeExtension false)
  else if word = "interface" then some (typeExtension true)
  else if word = "union" then
    some do
      let _ ← name
      otherExtension unionMembers
  else if word = "enum" then
    some do
      let _ ← name
      otherExtension (optional .braceLeft .braceRight enumValue)
  else if word = "input" then
    some do
      let _ ← name
      otherExtension (optional .braceLeft .braceRight inputValue)
  else if word = "directive" then
    some do
      expect .at
      let _ ← name
      otherExtension (return ([] : List Unit))
  else none

/-- An extension. -/
def extension : Reader Definition := do
  let keyword ← lookahead
  match keyword.lexeme with
  | .name word =>
    match extension? word with
    | some reader =>
      advance
      advance
      reader
    | none => failAt keyword (.unexpected keyword.lexeme)
  | other => failAt keyword (.unexpected other)

/-- Whether a token is a text, which in front of a definition describes it. -/
def isText : Lexeme → Bool
  | .quoted _ => true
  | .block _ => true
  | _ => false

/-- The definition that a keyword starts; a description may stand in front of it. -/
def keywordDefinition (keyword : Token) (described : Bool) (word : String) :
    Reader Definition := do
  match typeSystemDefinition? word with
  | some reader =>
    description
    advance
    reader
  | none =>
    if isOperation word then
      operation
      return .other
    else if word = "fragment" then
      fragmentDefinition
      return .other
    else if described then failAt (← front) .uselessDescription
    else if word = "extend" then extension
    else failAt keyword (.unexpected keyword.lexeme)

/-- A definition. -/
def definition : Reader Definition := do
  let token ← front
  if token.lexeme = .mark .braceLeft then
    selectionSet depthLimit
    return .other
  let described := isText token.lexeme
  let keyword ← if described then lookahead else pure token
  match keyword.lexeme with
  | .name word => keywordDefinition keyword described word
  | other =>
    if described && other = .mark .braceLeft then failAt token .describedShorthand
    else failAt keyword (.unexpected other)

/-- Definitions up to the end of the text, at most as many as the fuel says. -/
def definitions : Nat → Reader (List Definition)
  | 0 => unexpected
  | fuel + 1 => do
    let first ← definition
    if (← front).lexeme = .finish then return [first]
    return first :: (← definitions fuel)

end Reader

/-- Reads a text as a document. -/
def read (text : String) : Except Fault Document :=
  match scan text with
  | ⟨front :: behind, fault?⟩ =>
    ((Reader.definitions (behind.length + 1)).run ⟨front, behind, fault?⟩).map Prod.fst
  | ⟨[], some fault⟩ => .error fault
  | ⟨[], none⟩ => .ok []

end FederationGraph.Document
