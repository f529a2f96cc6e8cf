import FederationGraph.Decimal.Digits
import FederationGraph.Text.Blank
import FederationGraph.Text.Hexadecimal

/-!
# Styles

A style is described in words: attributes that are turned on or off, a color, a
color behind the word `on`, and a link. Two descriptions of one style have the
same name, whatever the order of their words and however often they repeat them.
What describes no style is its own name.
-/
namespace FederationGraph.Console

/-- The attributes in the order in which a name lists them. -/
def attributes : List String :=
  ["bold", "dim", "italic", "underline", "blink", "blink2", "reverse", "conceal", "strike",
    "underline2", "frame", "encircle", "overline"]

/-- The attributes with a short name. -/
def shortNames : List (String × String) :=
  [("b", "bold"), ("d", "dim"), ("i", "italic"), ("u", "underline"), ("r", "reverse"),
    ("c", "conceal"), ("s", "strike"), ("uu", "underline2"), ("o", "overline")]

/-- The attribute that a word names. -/
def attribute? (word : String) : Option String :=
  if attributes.contains word then some word else shortNames.lookup word

/-- The colors with a name. -/
def namedColors : List String := [
  "black", "red", "green", "yellow", "blue", "magenta", "cyan", "white", "bright_black",
  "bright_red", "bright_green", "bright_yellow", "bright_blue", "bright_magenta", "bright_cyan",
  "bright_white", "grey0", "gray0", "navy_blue", "dark_blue", "blue3", "blue1", "dark_green",
  "deep_sky_blue4", "dodger_blue3", "dodger_blue2", "green4", "spring_green4", "turquoise4",
  "deep_sky_blue3", "dodger_blue1", "green3", "spring_green3", "dark_cyan", "light_sea_green",
  "deep_sky_blue2", "deep_sky_blue1", "spring_green2", "cyan3", "dark_turquoise", "turquoise2",
  "green1", "spring_green1", "medium_spring_green", "cyan2", "cyan1", "dark_red", "deep_pink4",
  "purple4", "purple3", "blue_violet", "orange4", "grey37", "gray37", "medium_purple4",
  "slate_blue3", "royal_blue1", "chartreuse4", "dark_sea_green4", "pale_turquoise4", "steel_blue",
  "steel_blue3", "cornflower_blue", "chartreuse3", "cadet_blue", "sky_blue3", "steel_blue1",
  "pale_green3", "sea_green3", "aquamarine3", "medium_turquoise", "chartreuse2", "sea_green2",
  "sea_green1", "aquamarine1", "dark_slate_gray2", "dark_magenta", "dark_violet", "purple",
  "light_pink4", "plum4", "medium_purple3", "slate_blue1", "yellow4", "wheat4", "grey53", "gray53",
  "light_slate_grey", "light_slate_gray", "medium_purple", "light_slate_blue", "dark_olive_green3",
  "dark_sea_green", "light_sky_blue3", "sky_blue2", "dark_sea_green3", "dark_slate_gray3",
  "sky_blue1", "chartreuse1", "light_green", "pale_green1", "dark_slate_gray1", "red3",
  "medium_violet_red", "magenta3", "dark_orange3", "indian_red", "hot_pink3", "medium_orchid3",
  "medium_orchid", "medium_purple2", "dark_goldenrod", "light_salmon3", "rosy_brown", "grey63",
  "gray63", "medium_purple1", "gold3", "dark_khaki", "navajo_white3", "grey69", "gray69",
  "light_steel_blue3", "light_steel_blue", "yellow3", "dark_sea_green2", "light_cyan3",
  "light_sky_blue1", "green_yellow", "dark_olive_green2", "dark_sea_green1", "pale_turquoise1",
  "deep_pink3", "magenta2", "hot_pink2", "orchid", "medium_orchid1", "orange3", "light_pink3",
  "pink3", "plum3", "violet", "light_goldenrod3", "tan", "misty_rose3", "thistle3", "plum2",
  "khaki3", "light_goldenrod2", "light_yellow3", "grey84", "gray84", "light_steel_blue1", "yellow2",
  "dark_olive_green1", "honeydew2", "light_cyan1", "red1", "deep_pink2", "deep_pink1", "magenta1",
  "orange_red1", "indian_red1", "hot_pink", "dark_orange", "salmon1", "light_coral",
  "pale_violet_red1", "orchid2", "orchid1", "orange1", "sandy_brown", "light_salmon1",
  "light_pink1", "pink1", "plum1", "gold1", "navajo_white1", "misty_rose1", "thistle1", "yellow1",
  "light_goldenrod1", "khaki1", "wheat1", "cornsilk1", "grey100", "gray100", "grey3", "gray3",
  "grey7", "gray7", "grey11", "gray11", "grey15", "gray15", "grey19", "gray19", "grey23", "gray23",
  "grey27", "gray27", "grey30", "gray30", "grey35", "gray35", "grey39", "gray39", "grey42",
  "gray42", "grey46", "gray46", "grey50", "gray50", "grey54", "gray54", "grey58", "gray58",
  "grey62", "gray62", "grey66", "gray66", "grey70", "gray70", "grey74", "gray74", "grey78",
  "gray78", "grey82", "gray82", "grey85", "gray85", "grey89", "gray89", "grey93", "gray93"]

/-- Whether a text is a number below 256. -/
def isShade (text : List Char) : Bool :=
  !text.isEmpty && text.all Decimal.isDigit && Decimal.ofDigits text < 256

/-- What stands between an opening word with its parenthesis and a closing parenthesis at the
end. -/
def inCall? (word : List Char) (text : List Char) : Option (List Char) :=
  if word.isPrefixOf text && text.getLast? = some ')' then
    some (text.drop word.length).dropLast
  else none

/-- Whether a word in lower case is a color: by name, by number or by its red, green and blue. -/
def isColor (word : String) : Bool :=
  let text := word.toList
  word == "default" || namedColors.contains word ||
    (match text with
      | '#' :: digits => digits.length == 6 && digits.all fun c => (Text.hexValue? c).isSome
      | _ => false) ||
    ((inCall? ("color(".toList) text).any fun n => n.length ≤ 3 && isShade n) ||
    ((inCall? ("rgb(".toList) text).any fun shades =>
      let shades := shades.splitOn ','
      shades.length == 3 && shades.all isShade)

/-- A style. -/
structure Style where
  /-- The attributes that were turned on or off, the last one first. -/
  switches : List (String × Bool)
  color : Option String
  background : Option String
  link : Option String
  deriving DecidableEq, Repr, Inhabited

namespace Style

/-- The style that changes nothing. -/
def plain : Style := ⟨[], none, none, none⟩

/-- The name of a style. -/
def name (s : Style) : String :=
  let switched := attributes.filterMap fun word =>
    (s.switches.lookup word).map fun on => if on then word else "not " ++ word
  let parts := switched ++ s.color.toList ++ (s.background.map fun color => "on " ++ color).toList ++
    (s.link.map fun link => "link " ++ link).toList
  if parts.isEmpty then "none" else " ".intercalate parts

/-- A word in lower case. -/
def lower (word : String) : String := word.map Char.toLower

/-- The style with what a word alone says. -/
def withWord? (s : Style) (word : String) : Option Style :=
  match attribute? (lower word) with
  | some full => some { s with switches := (full, true) :: s.switches }
  | none => if isColor (lower word) then some { s with color := some (lower word) } else none

/-- The style with what words say. Some of them need the one behind them. -/
def withWords? (s : Style) : List String → Option Style
  | [] => some s
  | [word] => s.withWord? word
  | word :: next :: rest =>
    if lower word = "on" then
      if isColor (lower next) then { s with background := some (lower next) }.withWords? rest
      else none
    else if lower word = "not" then
      (attribute? next).bind fun full =>
        { s with switches := (full, false) :: s.switches }.withWords? rest
    else if lower word = "link" then { s with link := some next }.withWords? rest
    else (s.withWord? word).bind fun s => s.withWords? (next :: rest)

/-- The words of a text between blanks of any kind. -/
def words (text : List Char) : List String :=
  ((text.splitBy fun a b => Text.isBlank a == Text.isBlank b).filter (·.any Text.isSolid)).map
    String.ofList

/-- The text without blanks at either end. -/
def trimmed (text : List Char) : List Char :=
  ((text.dropWhile Text.isBlank).reverse.dropWhile Text.isBlank).reverse

/-- The name of the style that a text describes. A text that describes none is named by itself, in
lower case. -/
def nameOf (text : List Char) : String :=
  match plain.withWords? (words text) with
  | some s => s.name
  | none => lower (String.ofList (trimmed text))

end Style

end FederationGraph.Console
