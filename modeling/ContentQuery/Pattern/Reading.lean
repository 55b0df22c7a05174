/-
Reading patterns from text.

The notation has literals, classes, anchors, repetition, alternatives, groups
and flags.  It has no look-around and no back-references, and of the properties of
characters it knows the general categories only; a text that uses anything
else, or that is malformed, is no pattern.  No result depends on this notation: it
is one of the languages that a store may have.

Reading goes from left to right with the open groups on a stack.  Flags hold
from where they are set to the end of their group.  In verbose text, blanks and
comments between the parts are skipped.
-/
import ContentQuery.Pattern
import ContentQuery.Pattern.Language

namespace ContentQuery.Pattern

/-- What changes the meaning of the parts of a pattern. -/
structure Flags extends PatternOptions where
  crlf : Bool := false

/-- Skip blanks and comments. -/
def skipBlanks (inComment : Bool) : List Char → List Char
  | [] => []
  | c :: cs =>
    if inComment then skipBlanks (c != '\n') cs
    else if Text.isBlank c then skipBlanks false cs
    else if c == '#' then skipBlanks true cs
    else c :: cs

/-- The rest of a text behind the blanks that its flags ignore. -/
def Flags.skip (fl : Flags) (cs : List Char) : List Char :=
  if fl.verbose then skipBlanks false cs else cs

/-- The rest of a text behind some characters that it begins with. -/
def dropLead? : List Char → List Char → Option (List Char)
  | [], cs => some cs
  | a :: as, c :: cs => if a = c then dropLead? as cs else none
  | _ :: _, [] => none

/-! ### Escapes -/

/-- The smallest parts of a pattern. -/
inductive Atom
  | literal (c : Char)
  | set (s : CharSet)
  | anchor (a : Anchor)

/-- The character of a code point. -/
def char? (n : Nat) : Option Char := if n.isValidChar then some (Char.ofNat n) else none

/-- A fixed number of hexadecimal digits. -/
def hexDigits? (fl : Flags) : Nat → List Char → Option (List Char × List Char)
  | 0, cs => some ([], cs)
  | _ + 1, [] => none
  | n + 1, c :: cs =>
    if (Text.digit? 16 c).isSome then
      (hexDigits? fl n (fl.skip cs)).map fun r => (c :: r.1, r.2)
    else none

/-- A character by its code point: in braces, or in `width` digits. -/
def codePoint? (fl : Flags) (width : Nat) (cs : List Char) : Option (Char × List Char) :=
  match fl.skip cs with
  | '\x7b' :: rest => do
    let digits := rest.takeWhile (· != '\x7d')
    let behind ← dropLead? ['\x7d'] (rest.dropWhile (· != '\x7d'))
    let digits := if fl.verbose then digits.filter (!Text.isBlank ·) else digits
    let n ← Text.digits? 16 digits
    let c ← char? n
    pure (c, fl.skip behind)
  | rest => do
    let (digits, behind) ← hexDigits? fl width rest
    let n ← Text.digits? 16 digits
    let c ← char? n
    pure (c, behind)

/-- The set of a property, given as `name`, `key=value`, `key:value` or
`key!=value`. -/
def property? (text : List Char) : Option CharSet :=
  let key := text.takeWhile fun c => c != '=' && c != ':' && c != '!'
  let behind := text.drop key.length
  let category := fun (value : List Char) =>
    match CharSet.looseName key with
    | "gc" | "generalcategory" => CharSet.property? (CharSet.looseName value)
    | _ => none
  match behind with
  | [] => CharSet.property? (CharSet.looseName text)
  | '!' :: '=' :: value => (category value).map .compl
  | '=' :: value => category value
  | ':' :: value => category value
  | _ => none

/-- A property class, behind its letter. -/
def propertyClass? (fl : Flags) (negated : Bool) (cs : List Char) :
    Option (CharSet × List Char) := do
  let (name, rest) ← match fl.skip cs with
    | '\x7b' :: rest => do
      let behind ← dropLead? ['\x7d'] (rest.dropWhile (· != '\x7d'))
      pure (rest.takeWhile (· != '\x7d'), behind)
    | '\\' :: _ => none
    | c :: rest => some ([c], fl.skip rest)
    | [] => none
  let s ← property? name
  pure (.negateIf negated (.foldIf fl.ignoreCase s), rest)

/-- The names of the anchors at the ends of words. -/
def wordAnchor? : String → Option Anchor
  | "start" => some .wordStart
  | "end" => some .wordEnd
  | "start-half" => some .wordStartHalf
  | "end-half" => some .wordEndHalf
  | _ => none

/-- The anchor `\b`, perhaps with the name of a special one in braces.  Braces
that do not begin with a name are left to count repetitions. -/
def boundary? (fl : Flags) : List Char → Option (Atom × List Char)
  | '\x7b' :: cs =>
    let named := fun (c : Char) => c.isAlpha || c == '-'
    match fl.skip cs with
    | [] => none
    | c :: rest =>
      if named c then do
        let body := (c :: rest).filter fun c => !(fl.verbose && Text.isBlank c)
        let name := body.takeWhile named
        let behind ← dropLead? ['\x7d'] (((c :: rest).dropWhile fun c =>
          named c || (fl.verbose && Text.isBlank c)))
        let a ← wordAnchor? (String.ofList name)
        pure (.anchor a, behind)
      else some (.anchor .wordBoundary, '\x7b' :: cs)
  | cs => some (.anchor .wordBoundary, cs)

/-- What a backslash and the characters behind it stand for. -/
def escape? (fl : Flags) : List Char → Option (Atom × List Char)
  | [] => none
  | c :: cs =>
    match c with
    | 'x' => (codePoint? fl 2 cs).map fun r => (.literal r.1, r.2)
    | 'u' => (codePoint? fl 4 cs).map fun r => (.literal r.1, r.2)
    | 'U' => (codePoint? fl 8 cs).map fun r => (.literal r.1, r.2)
    | 'p' => (propertyClass? fl false cs).map fun r => (.set r.1, r.2)
    | 'P' => (propertyClass? fl true cs).map fun r => (.set r.1, r.2)
    | 'd' => some (.set (.categories [.decimalNumber]), cs)
    | 'D' => some (.set (.compl (.categories [.decimalNumber])), cs)
    | 's' => some (.set .blank, cs)
    | 'S' => some (.set (.compl .blank), cs)
    | 'w' => some (.set .word, cs)
    | 'W' => some (.set (.compl .word), cs)
    | 'a' => some (.literal '\x07', cs)
    | 'f' => some (.literal '\x0c', cs)
    | 't' => some (.literal '\t', cs)
    | 'n' => some (.literal '\n', cs)
    | 'r' => some (.literal '\r', cs)
    | 'v' => some (.literal '\x0b', cs)
    | 'A' => some (.anchor .textStart, cs)
    | 'z' => some (.anchor .textEnd, cs)
    | 'b' => boundary? fl cs
    | 'B' => some (.anchor .notWordBoundary, cs)
    | '<' => some (.anchor .wordStart, cs)
    | '>' => some (.anchor .wordEnd, cs)
    | c => if c.toNat < 128 && !c.isAlphanum then some (.literal c, cs) else none

/-! ### Classes in brackets -/

/-- The operators between the parts of a class. -/
inductive SetOperator
  | inter | difference | symmDifference

/-- Combine two parts of a class. -/
def SetOperator.apply (fl : Flags) (op : SetOperator) (a b : CharSet) : CharSet :=
  let a := CharSet.foldIf fl.ignoreCase a
  let b := CharSet.foldIf fl.ignoreCase b
  match op with
  | inter => .inter a b
  | difference => .difference a b
  | symmDifference => .symmDifference a b

/-- A part of a class and the operator that waits for the next part. -/
abbrev Waiting := Option (SetOperator × CharSet)

/-- Give the waiting operator its second part. -/
def settle (fl : Flags) (waiting : Waiting) (part : CharSet) : CharSet :=
  match waiting with
  | some (op, first) => op.apply fl first part
  | none => part

/-- A named class of ASCII characters, behind its bracket. -/
def asciiClass? (fl : Flags) (cs : List Char) : Option (CharSet × List Char) := do
  let body ← dropLead? [':'] cs
  let (negated, body) := match body with
    | '^' :: rest => (true, rest)
    | rest => (false, rest)
  let name := body.takeWhile (· != ':')
  let behind ← dropLead? [':', ']'] (body.drop name.length)
  let s ← CharSet.ascii? (String.ofList name)
  pure (.negateIf negated (.foldIf fl.ignoreCase s), behind)

/-- One character or class inside brackets. -/
def classAtom? (fl : Flags) : List Char → Option (Atom × List Char)
  | [] => none
  | '\\' :: cs => escape? fl cs
  | c :: cs => some (.literal c, cs)

/-- The set of an atom inside brackets; anchors have none. -/
def Atom.inClass? : Atom → Option CharSet
  | literal c => some (.single c)
  | set s => some s
  | anchor _ => none

/-- A character, a class or a range inside brackets. -/
def classRange? (fl : Flags) (cs : List Char) : Option (CharSet × List Char) := do
  let (first, rest) ← classAtom? fl cs
  let single := do
    let s ← first.inClass?
    pure (s, fl.skip rest)
  match fl.skip rest with
  | [] => none
  | '-' :: behind =>
    match fl.skip behind with
    | [] => none
    | ']' :: _ => single
    | '-' :: _ => single
    | behind => do
      let (last, behind) ← classAtom? fl behind
      match first, last with
      | .literal a, .literal b => if a ≤ b then some (.range a b, behind) else none
      | _, _ => none
  | _ => single

/-- The start of a class: whether it is negated, and the hyphens or the bracket
that stand for themselves there. -/
def classOpening? (fl : Flags) (cs : List Char) : Option (Bool × CharSet × List Char) :=
  let (negated, cs) := match fl.skip cs with
    | '^' :: rest => (true, fl.skip rest)
    | rest => (false, rest)
  let hyphen := fun (c : Char) => c == '-' || (fl.verbose && Text.isBlank c)
  match cs with
  | [] => none
  | '-' :: _ => some (negated, .single '-', cs.dropWhile hyphen)
  | ']' :: rest => some (negated, .single ']', fl.skip rest)
  | rest => some (negated, .empty, rest)

/-- The rest of a class up to its closing bracket, given what was read of it:
the part that waits, and the union of the items behind that. -/
def classBody? (fl : Flags) : Nat → Bool → Waiting → CharSet → List Char →
    Option (CharSet × List Char)
  | 0, _, _, _, _ => none
  | fuel + 1, negated, waiting, items, cs =>
    match fl.skip cs with
    | [] => none
    | ']' :: rest =>
      some (.negateIf negated (.foldIf fl.ignoreCase (settle fl waiting items)), rest)
    | '&' :: '&' :: rest =>
      classBody? fl fuel negated (some (.inter, settle fl waiting items)) .empty rest
    | '-' :: '-' :: rest =>
      classBody? fl fuel negated (some (.difference, settle fl waiting items)) .empty rest
    | '~' :: '~' :: rest =>
      classBody? fl fuel negated (some (.symmDifference, settle fl waiting items)) .empty rest
    | '[' :: rest =>
      match asciiClass? fl rest with
      | some (s, behind) => classBody? fl fuel negated waiting (.union items s) behind
      | none => do
        let (innerNegated, inner, rest) ← classOpening? fl rest
        let (s, behind) ← classBody? fl fuel innerNegated none inner rest
        classBody? fl fuel negated waiting (.union items s) behind
    | cs => do
      let (s, behind) ← classRange? fl cs
      classBody? fl fuel negated waiting (.union items s) behind

/-- A class in brackets, behind the opening one. -/
def bracketClass? (fl : Flags) (cs : List Char) : Option (CharSet × List Char) := do
  let (negated, items, rest) ← classOpening? fl cs
  classBody? fl (cs.length + 1) negated none items rest

/-! ### Counts, groups and flags -/

/-- The bound of a repetition count. -/
def countBound : Nat := Nat.pow 2 32

/-- A count, with the blanks around it. -/
def count? (fl : Flags) (cs : List Char) : Option (Nat × List Char) :=
  let digit := fun (c : Char) => c.isDigit || (fl.verbose && Text.isBlank c)
  let cs := cs.dropWhile Text.isBlank
  let digits := (cs.takeWhile digit).filter Char.isDigit
  match Text.digits? 10 digits with
  | none => none
  | some n =>
    if n < countBound then some (n, fl.skip ((cs.dropWhile digit).dropWhile Text.isBlank)) else none

/-- The bounds of a counted repetition, behind the opening brace. -/
def bounds? (fl : Flags) (cs : List Char) : Option ((Nat × Option Nat) × List Char) := do
  let (least, rest) ← count? fl (fl.skip cs)
  let ((least, most), rest) ← match rest with
    | ',' :: rest =>
      match fl.skip rest with
      | '\x7d' :: _ => some ((least, none), fl.skip rest)
      | rest => (count? fl rest).map fun r => ((least, some r.1), r.2)
    | rest => some ((least, some least), rest)
  let behind ← dropLead? ['\x7d'] rest
  let behind := match fl.skip behind with
    | '?' :: lazy => lazy
    | greedy => greedy
  if most.all (least ≤ ·) then some ((least, most), behind) else none

/-- Whether a character may stand in the name of a group. -/
def isNameChar (first : Bool) (c : Char) : Bool :=
  let letter := c == '_' || Category.letters.any (·.contains c) ||
    Category.letterNumber.contains c || inRanges enclosedLetters c
  if first then letter
  else letter || c == '.' || c == '[' || c == ']' || Category.numbers.any (·.contains c)

/-- The name of a group, behind the opening angle bracket. -/
def groupName? (cs : List Char) : Option (String × List Char) := do
  let name := cs.takeWhile (· != '>')
  let behind ← dropLead? ['>'] (cs.drop name.length)
  match name with
  | [] => none
  | c :: rest =>
    if isNameChar true c && rest.all (isNameChar false) then some (String.ofList name, behind)
    else none

/-- Set or clear the flag of a letter.  Greed may be swapped, which changes
nothing here; text is always read as Unicode. -/
def Flags.set? (fl : Flags) (on : Bool) : Char → Option Flags
  | 'i' => some { fl with ignoreCase := on }
  | 'm' => some { fl with multiLine := on }
  | 's' => some { fl with dotAll := on }
  | 'x' => some { fl with verbose := on }
  | 'R' => some { fl with crlf := on }
  | 'U' => some fl
  | 'u' => if on then some fl else none
  | _ => none

/-- A list of flags up to the colon or the parenthesis that ends it: the flags,
that character, and whether the list was empty.  No flag is named twice, and
the sign that clears flags has one behind it. -/
def flagList? (fl : Flags) (seen : List Char) (on : Bool) :
    List Char → Option (Flags × Char × Bool × List Char)
  | [] => none
  | c :: cs =>
    if c == ':' || c == ')' then
      if seen.head? == some '-' then none else some (fl, c, seen.isEmpty, cs)
    else if seen.contains c then none
    else if c == '-' then flagList? fl (c :: seen) false cs
    else (fl.set? on c).bind fun fl => flagList? fl (c :: seen) on cs

/-! ### The whole pattern -/

/-- The pattern of some parts, one after the other. -/
def sequence (parts : List Pattern) : Pattern :=
  match parts with
  | [] => .empty
  | p :: rest => rest.foldl .seq p

/-- What was read of a group.  The parts of its last branch are in reverse
order, and a setting of flags among them is `none`. -/
structure Branches where
  done : List Pattern := []
  parts : List (Option Pattern) := []

/-- The pattern of a branch. -/
def Branches.current (b : Branches) : Pattern := sequence (b.parts.reverse.filterMap id)

/-- Begin another branch. -/
def Branches.branch (b : Branches) : Branches := ⟨b.current :: b.done, []⟩

def Branches.push (b : Branches) (p : Option Pattern) : Branches := { b with parts := p :: b.parts }

/-- The pattern of a group: its branches are alternatives. -/
def Branches.close (b : Branches) : Pattern := b.done.foldl (fun acc p => .alt p acc) b.current

/-- Repeat the last part of a branch. -/
def Branches.repeatLast? (b : Branches) (least : Nat) (most : Option Nat) : Option Branches :=
  match b.parts with
  | some p :: rest => some { b with parts := some (.times p least most) :: rest }
  | _ => none

/-- The state of reading: the flags that hold, the innermost group, and the
groups around it with the flags that hold again behind each. -/
structure Reading where
  flags : Flags
  group : Branches := {}
  outer : List (Flags × Branches) := []
  names : List String := []

def Reading.push (r : Reading) (p : Option Pattern) : Reading :=
  { r with group := r.group.push p }

/-- Open a group in which some flags hold. -/
def Reading.enter (r : Reading) (inner : Flags) : Reading :=
  { r with flags := inner, group := {}, outer := (r.flags, r.group) :: r.outer }

/-- Close the innermost group. -/
def Reading.leave? (r : Reading) : Option Reading :=
  match r.outer with
  | [] => none
  | (fl, b) :: rest =>
    some { r with flags := fl, group := b.push (some r.group.close), outer := rest }

/-- Repeat the last part; a question mark behind the operator makes it lazy. -/
def Reading.repeatLast? (r : Reading) (least : Nat) (most : Option Nat) : Option Reading :=
  (r.group.repeatLast? least most).map fun b => { r with group := b }

/-- What follows an opening parenthesis. -/
def openGroup? (r : Reading) (cs : List Char) : Option (Reading × List Char) :=
  let named := fun (cs : List Char) => do
    let (name, behind) ← groupName? cs
    if r.names.contains name then none
    else some ({ r.enter r.flags with names := name :: r.names }, behind)
  match r.flags.skip cs with
  | '?' :: 'P' :: '<' :: rest => named rest
  | '?' :: '<' :: '=' :: _ => none
  | '?' :: '<' :: '!' :: _ => none
  | '?' :: '<' :: rest => named rest
  | '?' :: rest => do
    let (fl, terminator, bare, behind) ← flagList? r.flags [] true rest
    if terminator == ':' then some (r.enter fl, behind)
    else if bare then none
    else some ({ r.push none with flags := fl }, behind)
  | rest => some (r.enter r.flags, rest)

/-- The pattern of an atom under the flags that hold. -/
def Atom.pattern (fl : Flags) : Atom → Pattern
  | literal c => .one (.foldIf fl.ignoreCase (.single c))
  | set s => .one s
  | anchor a => .anchor a

/-- Any character, or any but a line break. -/
def Flags.dot (fl : Flags) : CharSet :=
  if fl.dotAll then .full
  else if fl.crlf then .compl (.ranges [('\n', '\n'), ('\r', '\r')])
  else .compl (.single '\n')

/-- The start of the text or, line by line, of a line. -/
def Flags.start (fl : Flags) : Anchor := if fl.multiLine then .lineStart fl.crlf else .textStart

/-- The end of the text or, line by line, of a line. -/
def Flags.finish (fl : Flags) : Anchor := if fl.multiLine then .lineEnd fl.crlf else .textEnd

/-- The rest of a text behind the mark of a lazy repetition. -/
def skipLazy : List Char → List Char
  | '?' :: rest => rest
  | rest => rest

/-- Read the next part of a text that is not at its end. -/
def Reading.next? (r : Reading) (c : Char) (cs : List Char) : Option (Reading × List Char) :=
  let fl := r.flags
  match c with
  | '(' => openGroup? r cs
  | ')' => r.leave?.map (·, cs)
  | '|' => some ({ r with group := r.group.branch }, cs)
  | '[' => (bracketClass? fl cs).map fun x => (r.push (some (.one x.1)), x.2)
  | '?' => (r.repeatLast? 0 (some 1)).map (·, skipLazy cs)
  | '*' => (r.repeatLast? 0 none).map (·, skipLazy cs)
  | '+' => (r.repeatLast? 1 none).map (·, skipLazy cs)
  | '\x7b' => do
    let ((least, most), behind) ← bounds? fl cs
    let r ← r.repeatLast? least most
    pure (r, behind)
  | '\\' => (escape? fl cs).map fun x => (r.push (some (x.1.pattern fl)), x.2)
  | '.' => some (r.push (some (.one fl.dot)), cs)
  | '^' => some (r.push (some (.anchor fl.start)), cs)
  | '$' => some (r.push (some (.anchor fl.finish)), cs)
  | c => some (r.push (some ((Atom.literal c).pattern fl)), cs)

/-- Read a text to its end, part by part; each takes at least one character. -/
def readAll? : Nat → Reading → List Char → Option Reading
  | 0, _, _ => none
  | fuel + 1, r, cs =>
    match r.flags.skip cs with
    | [] => some r
    | c :: rest => (r.next? c rest).bind fun x => readAll? fuel x.1 x.2

/-- The pattern that a text writes. -/
def read? (fl : Flags) (text : String) : Option Pattern := do
  let cs := text.toList
  let r ← readAll? (cs.length + 1) { flags := fl } cs
  if r.outer.isEmpty then
    let p := r.group.close
    if weight p ≤ maxWeight then some p else none
  else none

/-- The language of these patterns. -/
scoped instance : PatternLanguage where
  read? options text := (read? { toPatternOptions := options } text).map isMatch

end ContentQuery.Pattern
