/-
Sets of characters, as classes of a pattern describe them.

A set is kept as it was written; `contains` decides membership.  Closing a set
under case adds every character that equals a member up to case.
-/
import ContentQuery.Pattern.Category
import ContentQuery.Pattern.Folding
import ContentQuery.Text.Blank

namespace ContentQuery.Pattern

/-- A described set of characters. -/
inductive CharSet
  | empty
  | range (first last : Char)
  | categories (ks : List Category)
  | blank
  | word
  | union (a b : CharSet)
  | inter (a b : CharSet)
  | difference (a b : CharSet)
  | symmDifference (a b : CharSet)
  | compl (a : CharSet)
  /-- closed under case -/
  | folded (a : CharSet)

/-- Symbols that count as letters: letters in circles and squares. -/
def enclosedLetters : List CodeRange :=
  [(0x24b6, 0x24e9), (0x1f130, 0x1f149), (0x1f150, 0x1f169), (0x1f170, 0x1f189)]

/-- The categories whose members are part of a word. -/
def wordCategories : List Category :=
  Category.letters ++ Category.marks ++ [.decimalNumber, .letterNumber, .connectorPunctuation]

/-- Whether a character is part of a word: letters, marks, digits, connectors
and the joiners. -/
def isWord (c : Char) : Bool :=
  let n := c.toNat
  if n < 128 then c.isAlphanum || c == '_'
  else wordCategories.any (·.contains c) || inRanges enclosedLetters c || n == 0x200c || n == 0x200d

namespace CharSet

/-- Membership. -/
def contains : CharSet → Char → Bool
  | empty, _ => false
  | range first last, c => first ≤ c && c ≤ last
  | categories ks, c => ks.any (·.contains c)
  | blank, c => Text.isBlank c
  | word, c => isWord c
  | union a b, c => a.contains c || b.contains c
  | inter a b, c => a.contains c && b.contains c
  | difference a b, c => a.contains c && !b.contains c
  | symmDifference a b, c => a.contains c != b.contains c
  | compl a, c => !a.contains c
  | folded a, c => (orbit c).any a.contains

/-- A set of one character. -/
def single (c : Char) : CharSet := range c c

/-- Every character. -/
def full : CharSet := compl empty

/-- The union of some sets. -/
def unions (sets : List CharSet) : CharSet := sets.foldl union empty

/-- The union of the ranges between pairs of characters. -/
def ranges (rs : List (Char × Char)) : CharSet := unions (rs.map fun r => range r.1 r.2)

/-- A set or its complement. -/
def negateIf (negated : Bool) (s : CharSet) : CharSet := if negated then compl s else s

/-- A set, closed under case if asked. -/
def foldIf (ignoreCase : Bool) (s : CharSet) : CharSet := if ignoreCase then folded s else s

/-- The classes of ASCII characters that have a name. -/
def ascii? : String → Option CharSet
  | "alnum" => some (ranges [('0', '9'), ('A', 'Z'), ('a', 'z')])
  | "alpha" => some (ranges [('A', 'Z'), ('a', 'z')])
  | "ascii" => some (range '\x00' '\x7f')
  | "blank" => some (ranges [('\t', '\t'), (' ', ' ')])
  | "cntrl" => some (ranges [('\x00', '\x1f'), ('\x7f', '\x7f')])
  | "digit" => some (range '0' '9')
  | "graph" => some (range '!' '~')
  | "lower" => some (range 'a' 'z')
  | "print" => some (range ' ' '~')
  | "punct" => some (ranges [('!', '/'), (':', '@'), ('[', '\x60'), ('\x7b', '~')])
  | "space" => some (ranges [('\t', '\r'), (' ', ' ')])
  | "upper" => some (range 'A' 'Z')
  | "word" => some (ranges [('0', '9'), ('A', 'Z'), ('_', '_'), ('a', 'z')])
  | "xdigit" => some (ranges [('0', '9'), ('A', 'F'), ('a', 'f')])
  | _ => none

/-- A property name without case, blanks, hyphens, underscores and a leading
`is`. -/
def looseName (name : List Char) : String :=
  let kept := fun (c : Char) => c != ' ' && c != '_' && c != '-' && c.toNat < 128
  let body := match name with
    | i :: s :: rest => if i.toLower == 'i' && s.toLower == 's' then rest else name
    | short => short
  String.ofList ((body.filter kept).map Char.toLower)

/-- The set of a general category, or of one of the properties that every
character or every assigned one has. -/
def property? (name : String) : Option CharSet :=
  match name with
  | "any" => some full
  | "ascii" => some (range '\x00' '\x7f')
  | "assigned" => some (categories Category.assigned)
  | "cn" | "unassigned" => some (compl (categories Category.assigned))
  | "c" | "other" =>
    some (compl (difference (categories Category.assigned)
      (categories [.control, .format, .privateUse])))
  | other => (Category.named? other).map categories

end CharSet

end ContentQuery.Pattern
