/-!
# Words of a command line

The words of a command line are options and operands. An option has a long name
and perhaps a letter; it is a flag or takes a value, which stands behind an
equals sign or is the next word, whatever that looks like. Letters may share a
word, and what follows the letter of an option with a value is that value. Two
hyphens end the options, and a single hyphen is an operand.

Where operands end the options too, all words from the first operand on are
operands.
-/
namespace FederationGraph.CommandLine

/-- An option as it is declared. -/
structure OptionRule where
  name : String
  letter : Option Char
  takesValue : Bool
  deriving DecidableEq, Repr, Inhabited

/-- Options as they are given, by long name and with an empty value for a flag, and operands. -/
structure Words where
  given : List (String × String)
  operands : List String
  deriving DecidableEq, Repr, Inhabited

namespace Words

/-- Whether a flag is given. -/
def has (w : Words) (name : String) : Bool := w.given.any fun option => option.1 == name

/-- The value of an option; the last one counts. -/
def value? (w : Words) (name : String) : Option String :=
  (w.given.reverse.find? fun option => option.1 == name).map Prod.snd

/-- The words with a further option in front. -/
def withOption (option : String × String) (w : Words) : Words :=
  ⟨option :: w.given, w.operands⟩

/-- The words with further options in front. -/
def withOptions (options : List (String × String)) (w : Words) : Words :=
  ⟨options ++ w.given, w.operands⟩

/-- The words with a further operand in front. -/
def withOperand (operand : String) (w : Words) : Words := ⟨w.given, operand :: w.operands⟩

/-- The options that letters give, and the name of the one that still needs a value. -/
def ofLetters (rules : List OptionRule) :
    List Char → Option (List (String × String) × Option String)
  | [] => some ([], none)
  | c :: rest =>
    match rules.find? fun rule => rule.letter == some c with
    | none => none
    | some rule =>
      if rule.takesValue then
        if rest.isEmpty then some ([], some rule.name)
        else some ([(rule.name, String.ofList rest)], none)
      else (ofLetters rules rest).map fun (options, pending) =>
        ((rule.name, "") :: options, pending)

/-- What comes before the first equals sign of a word, and behind it if there is one. -/
def splitValue (word : List Char) : List Char × Option (List Char) :=
  let name := word.takeWhile (· != '=')
  match word.drop name.length with
  | _ :: value => (name, some value)
  | [] => (name, none)

/-- The options that a word gives, and the name of the one that still needs a value. -/
def ofOption (rules : List OptionRule) (word : List Char) :
    Option (List (String × String) × Option String) :=
  let (name, value) := splitValue word
  match rules.find? fun rule => rule.name.toList == name with
  | some rule =>
    match rule.takesValue, value with
    | true, some value => some ([(rule.name, String.ofList value)], none)
    | true, none => some ([], some rule.name)
    | false, some _ => none
    | false, none => some ([(rule.name, "")], none)
  | none =>
    match word with
    | '-' :: '-' :: _ => none
    | _ => ofLetters rules word.tail

/-- Whether a word is an option and no operand. -/
def isOption : List Char → Bool
  | '-' :: _ :: _ => true
  | _ => false

/-- Reads words; `pending` is the option that takes the first of them as its value. Where operands
end the options, all further words are operands. -/
def readFrom (rules : List OptionRule) (operandEnds : Bool) (pending : Option String) :
    List String → Option Words
  | [] => if pending.isSome then none else some ⟨[], []⟩
  | word :: rest =>
    match pending with
    | some name => (readFrom rules operandEnds none rest).map (withOption (name, word))
    | none =>
      if word = "--" then some ⟨[], rest⟩
      else if isOption word.toList then
        match ofOption rules word.toList with
        | none => none
        | some (options, pending) =>
          (readFrom rules operandEnds pending rest).map (withOptions options)
      else if operandEnds then some ⟨[], word :: rest⟩
      else (readFrom rules operandEnds none rest).map (withOperand word)

/-- Reads the words of a command line, unless an option is not declared, lacks its value or has one
that it does not take. -/
def read? (rules : List OptionRule) (operandEnds : Bool) (words : List String) : Option Words :=
  readFrom rules operandEnds none words

end Words

end FederationGraph.CommandLine
