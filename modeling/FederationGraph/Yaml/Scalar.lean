import FederationGraph.Text.Hexadecimal
import FederationGraph.Yaml.Cursor

/-!
# The text of YAML scalars

A plain scalar ends where something else may begin and folds its line ends. A
quoted one ends at its closing quote. A block scalar is made up of the lines that
are indented far enough, kept line by line or folded.
-/
namespace FederationGraph.Yaml

/-- Line ends with spaces in front of each, and the cursor at the first other character.
`stops` says whether a line may not be entered. -/
def gatherBreaks (stops : Cursor → Bool) : Nat → Cursor → List Char × Cursor
  | 0, c => ([], c)
  | fuel + 1, c =>
    if stops c then ([], c)
    else
      let spaced := (c.run fun ch => ch == ' ' || ch == '\t').2
      match spaced.lineEnd? with
      | some (ch, behind) =>
        let (more, last) := gatherBreaks stops fuel behind
        (ch :: more, last)
      | none => ([], spaced)

/-- What a line end and the empty lines behind it fold to. -/
def fold (lineEnd : Char) (breaks : List Char) : List Char :=
  if lineEnd ≠ '\n' then lineEnd :: breaks else if breaks.isEmpty then [' '] else breaks

/-! ## Plain scalars -/

/-- Whether a character ends a run of a plain scalar. `next` is the character behind it. -/
def endsPlain (inFlow : Bool) (ch : Char) (next : Option Char) : Bool :=
  isGap ch ||
    (ch == ':' && next.all fun c => isGap c || (inFlow && [',', '[', ']', '{', '}'].contains c)) ||
    (inFlow && [',', '?', '[', ']', '{', '}'].contains ch)

/-- The run of a plain scalar at the front of a text. -/
def plainRun (inFlow : Bool) : List Char → List Char
  | [] => []
  | ch :: rest => if endsPlain inFlow ch rest.head? then [] else ch :: plainRun inFlow rest

/-- The empty lines behind a line end inside a plain scalar, or nothing if a document separator
comes; spaces alone may indent the lines. -/
def plainBreaks : Nat → Cursor → Option (List Char) × Cursor
  | 0, c => (some [], c)
  | fuel + 1, c =>
    if c.separates then (none, c)
    else
      let spaced := c.skipSpaces
      match spaced.lineEnd? with
      | some (ch, behind) =>
        let (more, last) := plainBreaks fuel behind
        (more.map (ch :: ·), last)
      | none => (some [], spaced)

/-- The gap behind a run of a plain scalar: what it folds to, whether it crossed a line end, and
the cursor behind it. -/
def plainGap (c : Cursor) : List Char × Bool × Cursor :=
  let (spaces, behind) := c.run (· == ' ')
  match behind.lineEnd? with
  | some (ch, line) =>
    let (breaks, last) := plainBreaks (line.rest.length + 1) line
    ((breaks.map (fold ch)).getD [], true, last)
  | none => (spaces, false, behind)

/-- The runs of a plain scalar that is indented to `indent`; `gap` stands in front of the next one.
The answer also says whether the last gap crossed a line end. -/
def plainRuns (inFlow : Bool) (indent : Int) : Nat → List Char → Bool → Cursor →
    List Char × Bool × Cursor
  | 0, _, crossed, c => ([], crossed, c)
  | fuel + 1, gap, crossed, c =>
    let run := if c.peek 0 == some '#' then [] else plainRun inFlow c.rest
    if run.isEmpty then ([], crossed, c)
    else
      let (nextGap, nextCrossed, behind) := plainGap (c.skip run.length)
      if nextGap.isEmpty || behind.peek 0 == some '#' || (!inFlow && behind.column < indent) then
        (gap ++ run, nextCrossed, behind)
      else
        let (more, lastCrossed, last) := plainRuns inFlow indent fuel nextGap nextCrossed behind
        (gap ++ run ++ more, lastCrossed, last)

/-- The plain scalar at a cursor, whether a line end was crossed behind it, and the cursor
there. -/
def scanPlain (inFlow : Bool) (indent : Int) (c : Cursor) : List Char × Bool × Cursor :=
  plainRuns inFlow indent (c.rest.length + 1) [] false c

/-! ## Quoted scalars -/

/-- The character a short escape stands for. -/
def shortEscape? (ch : Char) : Option Char :=
  [('0', '\x00'), ('a', '\x07'), ('b', '\x08'), ('t', '\t'), ('\t', '\t'), ('n', '\n'),
    ('v', '\x0b'), ('f', '\x0c'), ('r', '\x0d'), ('e', '\x1b'), (' ', ' '), ('\x22', '\x22'),
    ('\\', '\\'), ('/', '/'), ('N', '\u0085'), ('_', '\u00a0'), ('L', '\u2028'),
    ('P', '\u2029')].lookup ch

/-- The number of hexadecimal digits behind a letter that announces a code point. -/
def escapeWidth? (ch : Char) : Option Nat := [('x', 2), ('u', 4), ('U', 8)].lookup ch

/-- The first number that is no code point. -/
def codePointEnd : Nat := 0x110000

/-- The first number that is too large to be taken for a code point. -/
def codePointLimit : Nat := 0x80000000

/-- The character of a code point. Half of a surrogate pair is replaced. -/
def escaped (n : Nat) : Except Fault Char :=
  if codePointLimit ≤ n then .error .outOfRange
  else if codePointEnd ≤ n then .error .impossible
  else .ok ((Text.scalar? n).getD '\ufffd')

/-- The meaning of the escape at a cursor that stands behind its backslash. -/
def scanEscape (c : Cursor) : Except Fault (List Char × Cursor) :=
  match c.peek 0 with
  | none => .error .malformed
  | some ch =>
    match shortEscape? ch with
    | some meant => .ok ([meant], c.next)
    | none =>
      match escapeWidth? ch with
      | some width =>
        match Text.hexPrefix? width c.next.rest with
        | some n => (escaped n).map fun meant => ([meant], c.next.skip width)
        | none => .error .malformed
      | none =>
        match c.lineEnd? with
        | some (_, line) =>
          let (breaks, last) := gatherBreaks Cursor.separates (line.rest.length + 1) line
          if last.separates && last.column == 0 then .error .malformed else .ok (breaks, last)
        | none => .error .malformed

/-- The gap at a cursor inside a quoted scalar: blanks, or line ends folded. -/
def scanQuotedGap (c : Cursor) : Except Fault (List Char × Cursor) :=
  let (blanks, behind) := c.run fun ch => ch == ' ' || ch == '\t'
  match behind.lineEnd? with
  | some (ch, line) =>
    let (breaks, last) := gatherBreaks Cursor.separates (line.rest.length + 1) line
    if last.separates && last.column == 0 then .error .malformed else .ok (fold ch breaks, last)
  | none => if behind.rest.isEmpty then .error .malformed else .ok (blanks, behind)

/-- The rest of a quoted scalar up to its closing quote. -/
def scanQuotedRest (quote : Char) : Nat → Cursor → Except Fault (List Char × Cursor)
  | 0, _ => .error .malformed
  | fuel + 1, c => do
    match c.rest with
    | [] => throw .malformed
    | ch :: rest =>
      if isGap ch then
        let (gap, behind) ← scanQuotedGap c
        let (more, last) ← scanQuotedRest quote fuel behind
        return (gap ++ more, last)
      else if ch == quote then
        if quote == '\x27' && rest.head? == some quote then
          let (more, last) ← scanQuotedRest quote fuel (c.skip 2)
          return (quote :: more, last)
        else return ([], c.next)
      else if ch == '\\' && quote == '\x22' then
        let (meant, behind) ← scanEscape c.next
        let (more, last) ← scanQuotedRest quote fuel behind
        return (meant ++ more, last)
      else
        let (more, last) ← scanQuotedRest quote fuel c.next
        return (ch :: more, last)

/-- The quoted scalar at a cursor. -/
def scanQuoted (quote : Char) (c : Cursor) : Except Fault (List Char × Cursor) :=
  scanQuotedRest quote (c.rest.length + 1) c.next

/-! ## Block scalars -/

/-- What becomes of the line ends at the end of a block. -/
inductive Chomping where
  | strip
  | clip
  | keep
  deriving DecidableEq, Repr

/-- The chomping a sign asks for. -/
def chomping? (ch : Char) : Option Chomping :=
  if ch == '+' then some .keep else if ch == '-' then some .strip else none

/-- The chomping and the indentation that the header of a block gives, in either order. -/
def scanBlockHeader (c : Cursor) : Except Fault ((Chomping × Option Nat) × Cursor) := do
  let sign (c : Cursor) : Option Chomping × Cursor :=
    match (c.peek 0).bind chomping? with
    | some chomping => (some chomping, c.next)
    | none => (none, c)
  let digit (c : Cursor) : Except Fault (Option Nat × Cursor) :=
    match (c.peek 0).filter Decimal.isDigit with
    | some '0' => .error .malformed
    | some ch => .ok (some (Decimal.ofDigits [ch]), c.next)
    | none => .ok (none, c)
  let (early, c) := sign c
  let (indent, c) ← digit c
  let (late, c) := if early.isNone && indent.isSome then sign c else (none, c)
  unless (c.peek 0).all fun ch => ch == ' ' || isBreak ch do throw .malformed
  return (((early.orElse fun _ => late).getD .clip, indent), c)

/-- The leading empty lines of a block, and the deepest column that spaces reach there. -/
def scanIndentation : Nat → Nat → Cursor → List Char × Nat × Cursor
  | 0, deepest, c => ([], deepest, c)
  | fuel + 1, deepest, c =>
    let c := c.skipSpaces
    let deepest := max deepest c.column
    match c.lineEnd? with
    | some (ch, behind) =>
      let (more, deepest, last) := scanIndentation fuel deepest behind
      (ch :: more, deepest, last)
    | none => ([], deepest, c)

/-- The empty lines in front of a line of a block that is indented to `indent`. -/
def scanBlockBreaks (indent : Int) : Nat → Cursor → List Char × Cursor
  | 0, c => ([], c)
  | fuel + 1, c =>
    let c := c.skipSpacesTo indent
    match c.lineEnd? with
    | some (ch, behind) =>
      let (more, last) := scanBlockBreaks indent fuel behind
      (ch :: more, last)
    | none => ([], c)

/-- The lines of a block. `breaks` are the empty lines in front of the line at the cursor, and
`joint` is what the line end before them leaves. -/
def scanBlockLines (folded : Bool) (chomping : Chomping) (indent : Int) :
    Nat → List Char → List Char → Cursor → List Char × Cursor
  | 0, _, _, c => ([], c)
  | fuel + 1, joint, breaks, c =>
    let isBlank (c : Cursor) : Bool := (c.peek 0).any fun ch => ch == ' ' || ch == '\t'
    let (line, behind) := c.run fun ch => !isBreak ch
    let (lineEnd, start) :=
      match behind.lineEnd? with
      | some (ch, start) => ([ch], start)
      | none => ([], behind)
    let (nextBreaks, next) := scanBlockBreaks indent (start.rest.length + 1) start
    if (next.column : Int) = indent && !next.rest.isEmpty then
      let nextJoint :=
        if folded && lineEnd == ['\n'] && !isBlank c && !isBlank next then
          (if nextBreaks.isEmpty then [' '] else [])
        else lineEnd
      let (more, last) := scanBlockLines folded chomping indent fuel nextJoint nextBreaks next
      (joint ++ breaks ++ line ++ more, last)
    else
      let ending :=
        match chomping with
        | .strip => []
        | .clip => lineEnd
        | .keep => lineEnd ++ nextBreaks
      (joint ++ breaks ++ line ++ ending, next)

/-- The block scalar at a cursor that stands on its mark; `parent` is the indentation around
it. -/
def scanBlock (folded : Bool) (parent : Int) (c : Cursor) : Except Fault (List Char × Cursor) := do
  let ((chomping, given), c) ← scanBlockHeader c.next
  let c ← c.finishLine
  let least : Int := max 1 (parent + 1)
  let fuel := c.rest.length + 1
  let (indent, breaks, c) : Int × List Char × Cursor :=
    match given with
    | some width =>
      let indent := least + width - 1
      let (breaks, c) := scanBlockBreaks indent fuel c
      (indent, breaks, c)
    | none =>
      let (breaks, deepest, c) := scanIndentation fuel 0 c
      (max least deepest, breaks, c)
  if (c.column : Int) = indent && !c.rest.isEmpty then
    return scanBlockLines folded chomping indent fuel [] breaks c
  else return (if chomping = .keep then breaks else [], c)

end FederationGraph.Yaml
