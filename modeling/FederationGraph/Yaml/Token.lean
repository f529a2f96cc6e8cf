import FederationGraph.Yaml.Scalar

/-!
# Tokens of a YAML document

Indentation shows as tokens that open and close blocks. A key need not be marked:
what turns out to be one when a colon follows on the same line gets its token
afterwards. The scan therefore keeps, for each level of brackets, the place at
which a key may have begun, and the tokens from the first of these places on
wait. Where a text cannot be read any further its tokens end with one that says
why; the tokens that wait there are given up.
-/
namespace FederationGraph.Yaml

/-- A line about the document in front of it. -/
inductive Directive where
  | version (major : Nat)
  | tag (handle tagStart : String)
  | other
  deriving DecidableEq, Repr

/-- A tag as it is written: a handle that stands for the start of a name, if any, and the rest. -/
structure Tag where
  handle : Option String
  suffix : String
  deriving DecidableEq, Repr

/-- A token. -/
inductive Token where
  | directive (directive : Directive)
  | documentStart
  | documentEnd
  | blockSequence
  | blockMapping
  | blockEnd
  | sequenceOpen
  | sequenceClose
  | mappingOpen
  | mappingClose
  | item
  | separator
  | key
  | value
  | alias (name : String)
  | anchor (name : String)
  | tag (tag : Tag)
  | scalar (text : List Char) (plain : Bool)
  | unreadable (fault : Fault)
  deriving DecidableEq, Repr

/-- A place at which a key may have begun. -/
structure KeyPlace where
  /-- The number of waiting tokens in front of it. -/
  position : Nat
  /-- Whether nothing but a key can stand there. -/
  needed : Bool
  cursor : Cursor
  deriving Repr

/-- The state of a scan. -/
structure Scanner where
  cursor : Cursor
  /-- The tokens that wait. -/
  tokens : List Token
  /-- The column of the innermost block, and those of the blocks around it. -/
  indent : Int
  outer : List Int
  /-- The number of open brackets. -/
  depth : Nat
  /-- Whether a key may begin here. -/
  keyAllowed : Bool
  /-- The places at which keys may have begun, by depth. -/
  places : List (Nat × KeyPlace)

namespace Scanner

/-- The state in front of a document. -/
def start (text : List Char) : Scanner := ⟨.start text, [], -1, [], 0, true, []⟩

/-- The state with a further token. -/
def push (s : Scanner) (token : Token) : Scanner := { s with tokens := s.tokens ++ [token] }

/-- The state at another place. -/
def moveTo (s : Scanner) (cursor : Cursor) : Scanner := { s with cursor }

/-- The state with a key allowed or not. -/
def allowKey (s : Scanner) (keyAllowed : Bool) : Scanner := { s with keyAllowed }

/-- Closes the blocks that are indented further than a column. -/
def unwindTo (column : Int) : List Int → Scanner → Scanner
  | [], s => s
  | parent :: outer, s =>
    if s.depth = 0 && column < s.indent then
      unwindTo column outer { s.push .blockEnd with indent := parent, outer }
    else s

/-- Closes the blocks that a column is outside of. -/
def unwind (s : Scanner) (column : Int) : Scanner := unwindTo column s.outer s

/-- Opens a block at a column unless one is open there; `position` is where its token goes. -/
def openBlock (s : Scanner) (column : Int) (token : Token) (position : Nat) : Scanner :=
  if s.indent < column then
    { s with indent := column, outer := s.indent :: s.outer,
             tokens := s.tokens.insertIdx position token }
  else s

/-- The longest distance between the start of an unmarked key and its colon. -/
def longestKey : Nat := 1024

/-- Whether a key that begins at a place can no longer be followed by a colon. -/
def isStale (s : Scanner) (place : KeyPlace) : Bool :=
  place.cursor.line != s.cursor.line || longestKey < s.cursor.index - place.cursor.index

/-- Gives up the places that are stale. -/
def dropStale (s : Scanner) : Except Fault Scanner :=
  if s.places.any fun entry => entry.2.needed && s.isStale entry.2 then .error .malformed
  else .ok { s with places := s.places.filter fun entry => !s.isStale entry.2 }

/-- Gives up the place at this depth. -/
def dropPlace (s : Scanner) : Except Fault Scanner :=
  if s.places.any fun entry => entry.1 == s.depth && entry.2.needed then .error .malformed
  else .ok { s with places := s.places.filter fun entry => entry.1 != s.depth }

/-- Remembers that a key may begin here. -/
def notePlace (s : Scanner) : Except Fault Scanner :=
  if s.keyAllowed then
    s.dropPlace.map fun s =>
      let needed := s.depth = 0 && s.indent == s.cursor.column
      { s with places := (s.depth, ⟨s.tokens.length, needed, s.cursor⟩) :: s.places }
  else .ok s

/-- The cursor behind spaces, comments and line ends, and whether it passed a line end. -/
def skipToToken : Nat → Bool → Cursor → Bool × Cursor
  | 0, passed, c => (passed, c)
  | fuel + 1, passed, c =>
    let c := c.skipSpaces
    let c := if c.peek 0 == some '#' then (c.run fun ch => !isBreak ch).2 else c
    match c.lineEnd? with
    | some (_, behind) => skipToToken fuel true behind
    | none => (passed, c)

/-! ## Directives, anchors and tags -/

/-- A word and the cursor behind it; a word has at least one character. -/
def scanWord (c : Cursor) : Except Fault (String × Cursor) :=
  let (word, behind) := c.run isWordPart
  if word.isEmpty then .error .malformed else .ok (String.ofList word, behind)

/-- Digits and the cursor behind them. -/
def scanDigits (c : Cursor) : Except Fault (Nat × Cursor) :=
  let (digits, behind) := c.run Decimal.isDigit
  if digits.isEmpty then .error .malformed
  else if Decimal.mostDigits < digits.length then .error .impossible
  else .ok (Decimal.ofDigits digits, behind)

/-- Whether a space or the end of a line stands here. -/
def endsWord (c : Cursor) : Bool := (c.peek 0).all fun ch => ch == ' ' || isBreak ch

/-- The characters of a tag that stand for themselves. -/
def isTagChar (ch : Char) : Bool :=
  isWordPart ch || [';', '/', '?', ':', '@', '&', '=', '+', '$', ',', '_', '.', '!', '~', '*',
    '\x27', '(', ')', '[', ']'].contains ch

/-- The bytes at the front of a text that are written as percent signs with two digits. -/
def percentBytes : List Char → Option (List UInt8)
  | '%' :: a :: b :: rest =>
    (Text.hexPrefix? 2 [a, b]).bind fun n => (percentBytes rest).map (n.toUInt8 :: ·)
  | '%' :: _ => none
  | _ => some []

/-- The name part of a tag. -/
def scanTagName : Nat → Cursor → Except Fault (List Char × Cursor)
  | 0, _ => .error .malformed
  | fuel + 1, c => do
    match c.peek 0 with
    | none => return ([], c)
    | some ch =>
      if isTagChar ch then
        let (more, last) ← scanTagName fuel c.next
        return (ch :: more, last)
      else if ch == '%' then
        match percentBytes c.rest with
        | none => throw .malformed
        | some bytes =>
          match String.fromUTF8? ⟨bytes.toArray⟩ with
          | none => throw .malformed
          | some text =>
            let (more, last) ← scanTagName fuel (c.skip (3 * bytes.length))
            return (text.toList ++ more, last)
      else return ([], c)

/-- The name part of a tag, with at least one character. -/
def scanTagText (c : Cursor) : Except Fault (String × Cursor) := do
  let (name, behind) ← scanTagName (c.rest.length + 1) c
  if name.isEmpty then throw .malformed
  return (String.ofList name, behind)

/-- The handle of a tag: a sign, or a word between two signs. -/
def scanHandle (c : Cursor) : Except Fault (String × Cursor) := do
  unless c.peek 0 == some '!' do throw .malformed
  if c.peek 1 == some ' ' then return ("!", c.next)
  let (word, behind) := c.next.run isWordPart
  unless behind.peek 0 == some '!' do throw .malformed
  return ("!" ++ String.ofList word ++ "!", behind.next)

/-- Whether a further sign stands among the characters of a tag behind its first one. -/
def hasHandle (c : Cursor) : Bool :=
  (c.next.rest.takeWhile fun ch => !(ch == ' ' || isBreak ch)).contains '!'

/-- The tag at a cursor. -/
def scanTag (c : Cursor) : Except Fault (Tag × Cursor) := do
  let (tag, behind) ← (
    if c.peek 1 == some '<' then do
      let (name, behind) ← scanTagText (c.skip 2)
      unless behind.peek 0 == some '>' do throw .malformed
      return (⟨none, name⟩, behind.next)
    else if c.gapAt 1 then return (⟨none, "!"⟩, c.next)
    else if hasHandle c then do
      let (handle, behind) ← scanHandle c
      let (name, behind) ← scanTagText behind
      return (⟨some handle, name⟩, behind)
    else do
      let (name, behind) ← scanTagText c.next
      return (⟨some "!", name⟩, behind) : Except Fault (Tag × Cursor))
  unless endsWord behind do throw .malformed
  return (tag, behind)

/-- The name behind the sign of an anchor or an alias. -/
def scanName (c : Cursor) : Except Fault (String × Cursor) := do
  let (name, behind) ← scanWord c.next
  unless (behind.peek 0).all fun ch =>
      isGap ch || ['?', ':', ',', ']', '}', '%', '@', '\x60'].contains ch do
    throw .malformed
  return (name, behind)

/-- The directive at a cursor. -/
def scanDirective (c : Cursor) : Except Fault (Directive × Cursor) := do
  let (name, behind) ← scanWord c.next
  unless endsWord behind do throw .malformed
  if name == "YAML" then
    let (major, point) ← scanDigits behind.skipSpaces
    unless point.peek 0 == some '.' do throw .malformed
    let (_, last) ← scanDigits point.next
    unless endsWord last do throw .malformed
    return (.version major, ← last.finishLine)
  else if name == "TAG" then
    let (handle, last) ← scanHandle behind.skipSpaces
    unless last.peek 0 == some ' ' do throw .malformed
    let (tagStart, last) ← scanTagText last.skipSpaces
    unless endsWord last do throw .malformed
    return (.tag handle tagStart, ← last.finishLine)
  else
    return (.other, ← (behind.run fun ch => !isBreak ch).2.finishLine)

/-! ## Tokens -/

/-- Ends all blocks for a token that belongs to no document. -/
def leaveDocument (s : Scanner) : Except Fault Scanner :=
  (s.unwind (-1)).dropPlace.map fun s => s.allowKey false

/-- A bracket that opens. -/
def openBracket (s : Scanner) (token : Token) : Except Fault Scanner :=
  s.notePlace.map fun s =>
    (({ s with depth := s.depth + 1 }.allowKey true).push token).moveTo s.cursor.next

/-- A bracket that closes; one has to be open. -/
def closeBracket (s : Scanner) (token : Token) : Except Fault Scanner :=
  if s.depth = 0 then .error .malformed
  else
    s.dropPlace.map fun s =>
      (({ s with depth := s.depth - 1 }.allowKey false).push token).moveTo s.cursor.next

/-- A mark behind which a key may begin: it opens a block of the given kind if it stands outside
of brackets. -/
def blockMark (s : Scanner) (block mark : Token) (keyBehind : Bool) : Except Fault Scanner := do
  if s.depth = 0 && !s.keyAllowed then throw .malformed
  let s := if s.depth = 0 then s.openBlock s.cursor.column block s.tokens.length else s
  let s ← s.dropPlace
  return ((s.allowKey keyBehind).push mark).moveTo s.cursor.next

/-- The colon of a value. It makes a key of what began at the noted place. -/
def valueMark (s : Scanner) : Except Fault Scanner :=
  match s.places.lookup s.depth with
  | some place =>
    let s := { s with places := s.places.filter fun entry => entry.1 != s.depth,
                      tokens := s.tokens.insertIdx place.position .key }
    let s := if s.depth = 0 then
        s.openBlock place.cursor.column .blockMapping place.position else s
    .ok (((s.allowKey false).push .value).moveTo s.cursor.next)
  | none => s.blockMark .blockMapping .value (s.depth = 0)

/-- A token in front of which a key may have begun. -/
def noted (s : Scanner) (scanned : Except Fault (Token × Cursor)) : Except Fault Scanner := do
  let s ← s.notePlace
  let (token, behind) ← scanned
  return ((s.allowKey false).push token).moveTo behind

/-- Whether a plain scalar begins here. -/
def beginsPlain (s : Scanner) (ch : Char) : Bool :=
  !(isGap ch || ['-', '?', ':', ',', '[', ']', '{', '}', '#', '&', '*', '!', '|', '>', '\x27',
    '\x22', '%', '@', '\x60'].contains ch) ||
    (!s.cursor.gapAt 1 && (ch == '-' || (s.depth = 0 && (ch == '?' || ch == ':'))))

/-- The plain scalar here. -/
def plainScalar (s : Scanner) : Except Fault Scanner :=
  s.notePlace.map fun s =>
    let (text, crossed, behind) := scanPlain (s.depth != 0) (s.indent + 1) s.cursor
    ((s.allowKey crossed).push (.scalar text true)).moveTo behind

/-- The block scalar here. -/
def blockScalar (s : Scanner) (folded : Bool) : Except Fault Scanner := do
  let s ← (s.allowKey true).dropPlace
  let (text, behind) ← scanBlock folded s.indent s.cursor
  return (s.push (.scalar text false)).moveTo behind

/-- The token that begins with the character here. -/
def scanToken (s : Scanner) (ch : Char) : Except Fault Scanner :=
  let c := s.cursor
  if ch == '%' && c.column == 0 then do
    let s ← s.leaveDocument
    let (directive, behind) ← scanDirective c
    return (s.push (.directive directive)).moveTo behind
  else if c.column == 0 && c.marks '-' then
    s.leaveDocument.map fun s => (s.push .documentStart).moveTo (c.skip 3)
  else if c.column == 0 && c.marks '.' then
    s.leaveDocument.map fun s => (s.push .documentEnd).moveTo (c.skip 3)
  else if ch == '[' then s.openBracket .sequenceOpen
  else if ch == '{' then s.openBracket .mappingOpen
  else if ch == ']' then s.closeBracket .sequenceClose
  else if ch == '}' then s.closeBracket .mappingClose
  else if ch == ',' then
    (s.allowKey true).dropPlace.map fun s => (s.push .separator).moveTo c.next
  else if ch == '-' && c.gapAt 1 then s.blockMark .blockSequence .item true
  else if ch == '?' && (s.depth != 0 || c.gapAt 1) then
    s.blockMark .blockMapping .key (s.depth = 0)
  else if ch == ':' && (s.depth != 0 || c.gapAt 1) then s.valueMark
  else if ch == '*' then s.noted ((scanName c).map fun (name, behind) => (.alias name, behind))
  else if ch == '&' then s.noted ((scanName c).map fun (name, behind) => (.anchor name, behind))
  else if ch == '!' then s.noted ((scanTag c).map fun (tag, behind) => (.tag tag, behind))
  else if ch == '|' && s.depth = 0 then s.blockScalar false
  else if ch == '>' && s.depth = 0 then s.blockScalar true
  else if ch == '\x27' || ch == '\x22' then
    s.noted ((scanQuoted ch c).map fun (text, behind) => (.scalar text false, behind))
  else if s.beginsPlain ch then s.plainScalar
  else .error .malformed

/-- The number of tokens that need not wait any longer: those in front of all places at which a key
may have begun and a colon may still follow. -/
def settled (s : Scanner) : Nat :=
  let waiting := s.places.filter fun entry => !s.isStale entry.2
  waiting.foldl (fun n entry => min n entry.2.position) s.tokens.length

/-- The state without the tokens that need not wait any longer. -/
def release (s : Scanner) : Scanner :=
  let n := s.settled
  { s with
    tokens := s.tokens.drop n
    places := s.places.map fun (depth, place) =>
      (depth, { place with position := place.position - n }) }

/-- The state behind the next token, and whether that was the last one. -/
def step (s : Scanner) : Except Fault (Scanner × Bool) := do
  let (passed, cursor) := skipToToken (s.cursor.rest.length + 1) false s.cursor
  let s := (if passed && s.depth = 0 then s.allowKey true else s).moveTo cursor
  let s ← s.dropStale
  let s := s.unwind s.cursor.column
  match s.cursor.peek 0 with
  | none => return (← s.leaveDocument, true)
  | some ch => return (← s.scanToken ch, false)

/-- The tokens of a scan from a state on. -/
def run : Nat → Scanner → List Token
  | 0, _ => [.unreadable .malformed]
  | fuel + 1, s =>
    match s.step with
    | .error fault => [.unreadable fault]
    | .ok (last, true) => last.tokens
    | .ok (next, false) => next.tokens.take next.settled ++ run fuel next.release

end Scanner

/-- The tokens of a text. -/
def tokens (text : String) : List Token :=
  let chars := text.toList
  if chars.all isAllowed then
    let body := if chars.head? = some '\ufeff' then chars.tail else chars
    (Scanner.start body).run (body.length + 1)
  else [.unreadable .malformed]

end FederationGraph.Yaml
