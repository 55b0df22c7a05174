/-
Reading TOML text.

The grammar is that of TOML 1.0.  Arrays and inline tables may be nested 80
levels deep; integers are read as far as 128 bits hold them, and a float must
not be too large for a double.
-/
import ContentQuery.Json.Reading
import ContentQuery.Toml

namespace ContentQuery.Toml

/-- How deep arrays and inline tables may be nested. -/
def maxNesting : Nat := 80

/-! ### Blanks, comments and line ends -/

/-- A blank inside a line. -/
def isSpace (c : Char) : Bool := c == ' ' || c == '\t'

def skipSpaces (cs : List Char) : List Char := cs.dropWhile isSpace

/-- A character that may stand in a comment and in a string on one line: a tab
or any other that is no control character. -/
def inLine (c : Char) : Bool := c == '\t' || (0x20 ≤ c.toNat && c.toNat != 0x7f)

/-- Skip blanks and a comment. -/
def skipComment (cs : List Char) : List Char :=
  match skipSpaces cs with
  | '#' :: rest => rest.dropWhile inLine
  | rest => rest

/-- The rest of a text behind a line break. -/
def lineBreak? : List Char → Option (List Char)
  | '\n' :: rest => some rest
  | '\r' :: '\n' :: rest => some rest
  | _ => none

/-- Skip blanks, comments and line breaks. -/
def skipLines : Nat → List Char → List Char
  | 0, cs => cs
  | fuel + 1, cs =>
    let rest := skipComment cs
    match lineBreak? rest with
    | some rest => skipLines fuel rest
    | none => rest

/-- The rest of a text behind blanks, comments and line breaks. -/
def skipAll (cs : List Char) : List Char := skipLines cs.length cs

/-! ### Strings -/

/-- A character by the hexadecimal digits of its code point. -/
def codePoint? (width : Nat) (cs : List Char) : Option (Char × List Char) := do
  if cs.length < width then none
  let n ← Text.digits? 16 (cs.take width)
  if n.isValidChar then some (Char.ofNat n, cs.drop width) else none

/-- What a backslash and the characters behind it stand for. -/
def escape? : List Char → Option (Char × List Char)
  | 'b' :: cs => some ('\x08', cs)
  | 't' :: cs => some ('\t', cs)
  | 'n' :: cs => some ('\n', cs)
  | 'f' :: cs => some ('\x0c', cs)
  | 'r' :: cs => some ('\r', cs)
  | '"' :: cs => some ('"', cs)
  | '\\' :: cs => some ('\\', cs)
  | 'u' :: cs => codePoint? 4 cs
  | 'U' :: cs => codePoint? 8 cs
  | _ => none

/-- The rest of a string in double quotes, after the characters read so far, the
last one first. -/
def basicString? : Nat → List Char → List Char → Option (String × List Char)
  | 0, _, _ => none
  | _ + 1, _, [] => none
  | fuel + 1, read, c :: cs =>
    if c == '"' then some (String.ofList read.reverse, cs)
    else if c == '\\' then (escape? cs).bind fun x => basicString? fuel (x.1 :: read) x.2
    else if inLine c then basicString? fuel (c :: read) cs
    else none

/-- The rest of a string in single quotes. -/
def literalString? (cs : List Char) : Option (String × List Char) :=
  let body := cs.takeWhile (· != '\'')
  match cs.drop body.length with
  | _ :: rest => if body.all inLine then some (String.ofList body, rest) else none
  | [] => none

/-- Blanks and line breaks, of which there must be a break on the first line:
what a backslash at the end of a line skips. -/
def lineContinuation? (cs : List Char) : Option (List Char) :=
  (lineBreak? (skipSpaces cs)).map fun rest =>
    rest.dropWhile fun c => isSpace c || c == '\n' || c == '\r'

/-- The rest of a string over several lines, in three double or single quotes.
Up to two quotes may stand before the closing ones. -/
def longString? (quote : Char) : Nat → List Char → List Char → Option (String × List Char)
  | 0, _, _ => none
  | _ + 1, _, [] => none
  | fuel + 1, read, c :: cs =>
    if c == quote then
      let more := (cs.takeWhile (· == quote)).length
      if more < 2 then longString? quote fuel (c :: read) cs
      else
        let extra := min (more - 2) 2
        some (String.ofList (List.replicate extra quote ++ read).reverse, cs.drop (2 + extra))
    else if c == '\\' && quote == '"' then
      match lineContinuation? cs with
      | some rest => longString? quote fuel read rest
      | none => (escape? cs).bind fun x => longString? quote fuel (x.1 :: read) x.2
    else if inLine c then longString? quote fuel (c :: read) cs
    else (lineBreak? (c :: cs)).bind fun rest => longString? quote fuel ('\n' :: read) rest

/-- The rest of a string over several lines, behind its opening quotes.  A line
break at its start does not count. -/
def readLong? (quote : Char) (cs : List Char) : Option (String × List Char) :=
  longString? quote (cs.length + 1) [] ((lineBreak? cs).getD cs)

/-! ### Keys -/

/-- A character of a key without quotes. -/
def inBareKey (c : Char) : Bool := c.isAlphanum || c == '_' || c == '-'

/-- A key of one part. -/
def simpleKey? (cs : List Char) : Option (String × List Char) :=
  match cs with
  | '"' :: rest => basicString? (rest.length + 1) [] rest
  | '\'' :: rest => literalString? rest
  | cs =>
    let key := cs.takeWhile inBareKey
    if key.isEmpty then none else some (String.ofList key, cs.drop key.length)

/-- A key of parts with dots between them: the parts before the last, the last,
and the rest of the text. -/
def dottedKey? : Nat → List String → List Char → Option (List String × String × List Char)
  | 0, _, _ => none
  | fuel + 1, front, cs =>
    (simpleKey? (skipSpaces cs)).bind fun k =>
      match skipSpaces k.2 with
      | '.' :: rest => dottedKey? fuel (front ++ [k.1]) rest
      | rest => some (front, k.1, rest)

def readKey? (cs : List Char) : Option (List String × String × List Char) :=
  dottedKey? (cs.length + 1) [] cs

/-! ### Numbers, times and booleans -/

/-- Digits with single underscores between them. -/
def spaced? (isDigit : Char → Bool) : List Char → Option (List Char)
  | [] => none
  | [c] => if isDigit c then some [c] else none
  | c :: '_' :: rest => if isDigit c then (spaced? isDigit rest).map (c :: ·) else none
  | c :: rest => if isDigit c then (spaced? isDigit rest).map (c :: ·) else none

/-- Decimal digits without needless zeros in front. -/
def plainDigits? (cs : List Char) : Option (List Char) :=
  match spaced? Char.isDigit cs with
  | some ('0' :: _ :: _) => none
  | ds => ds

/-- The sign of a number, and the rest. -/
def sign (cs : List Char) : Bool × List Char :=
  match cs with
  | '+' :: rest => (false, rest)
  | '-' :: rest => (true, rest)
  | rest => (false, rest)

/-- Digits in a base. -/
def inBase? (base : Nat) (cs : List Char) : Option Nat :=
  (spaced? (fun c => (Text.digit? base c).isSome) cs).bind (Text.digits? base)

/-- An integer, in any notation. -/
def integer? (cs : List Char) : Option Int :=
  match cs with
  | '0' :: 'x' :: rest => (inBase? 16 rest).map Int.ofNat
  | '0' :: 'o' :: rest => (inBase? 8 rest).map Int.ofNat
  | '0' :: 'b' :: rest => (inBase? 2 rest).map Int.ofNat
  | cs =>
    let (negative, body) := sign cs
    ((plainDigits? body).bind (Text.digits? 10)).map fun n => if negative then -(n : Int) else n

/-- Whether 128 bits, with or without a sign, hold an integer. -/
def fits (n : Int) : Bool := -(Nat.pow 2 127) ≤ n && n < Nat.pow 2 128

/-- The digits of an exponent with its sign. -/
def exponent? (cs : List Char) : Option Int :=
  let (negative, body) := sign cs
  ((spaced? Char.isDigit body).bind (Text.digits? 10)).map fun n =>
    if negative then -(n : Int) else n

/-- Whether digits scaled by a power of ten stay below the infinite double. -/
def isFiniteFloat (digits : List Char) (exponent : Int) : Bool :=
  let significand := (Text.digits? 10 digits).getD 0
  if significand = 0 then true
  else if exponent + digits.length < 300 then true
  else if 400 < exponent then false
  else
    match exponent with
    | .ofNat n => (Double.ofRatio false (significand * Nat.pow 10 n) 1).isFinite
    | .negSucc n => (Double.ofRatio false significand (Nat.pow 10 (n + 1))).isFinite

/-- Whether a text is a float. -/
def isFloat (cs : List Char) : Bool :=
  let (_, body) := sign cs
  if body == "inf".toList || body == "nan".toList then true
  else
    let isMark := fun (c : Char) => c == 'e' || c == 'E'
    let mantissa := body.takeWhile (!isMark ·)
    let whole := mantissa.takeWhile (· != '.')
    let exponent := match body.drop mantissa.length with
      | [] => some 0
      | _ :: rest => exponent? rest
    match plainDigits? whole, exponent with
    | some ds, some e =>
      match mantissa.drop whole.length with
      | [] => mantissa.length < body.length && isFiniteFloat ds e
      | _ :: fraction =>
        match spaced? Char.isDigit fraction with
        | some fs => isFiniteFloat (ds ++ fs) (e - (fs.length : Int))
        | none => false
    | _, _ => false

/-- A number of a fixed count of digits. -/
def fixed? (width : Nat) (cs : List Char) : Option (Nat × List Char) :=
  let ds := cs.take width
  if ds.length = width ∧ ds.all Char.isDigit then
    (Text.digits? 10 ds).map (·, cs.drop width)
  else none

/-- The days of a month. -/
def daysIn (year month : Nat) : Nat :=
  if month = 2 then
    if year % 4 = 0 ∧ (year % 100 ≠ 0 ∨ year % 400 = 0) then 29 else 28
  else if month = 4 ∨ month = 6 ∨ month = 9 ∨ month = 11 then 30
  else 31

/-- The rest of a text behind a date. -/
def date? (cs : List Char) : Option (List Char) := do
  let (year, cs) ← fixed? 4 cs
  let cs ← Json.expect? ['-'] cs
  let (month, cs) ← fixed? 2 cs
  let cs ← Json.expect? ['-'] cs
  let (day, cs) ← fixed? 2 cs
  if 1 ≤ month ∧ month ≤ 12 ∧ 1 ≤ day ∧ day ≤ daysIn year month then some cs else none

/-- The rest of a text behind a time of day. -/
def clock? (cs : List Char) : Option (List Char) := do
  let (hour, cs) ← fixed? 2 cs
  let cs ← Json.expect? [':'] cs
  let (minute, cs) ← fixed? 2 cs
  let cs ← Json.expect? [':'] cs
  let (second, cs) ← fixed? 2 cs
  if 23 < hour ∨ 59 < minute ∨ 60 < second then none
  match cs with
  | '.' :: rest =>
    if (rest.takeWhile Char.isDigit).isEmpty then none else some (rest.dropWhile Char.isDigit)
  | rest => some rest

/-- Whether a text is an offset from universal time, or nothing. -/
def isOffset (cs : List Char) : Bool :=
  let hours := fun (cs : List Char) =>
    match fixed? 2 cs with
    | some (h, ':' :: rest) =>
      match fixed? 2 rest with
      | some (m, []) => h ≤ 23 && m ≤ 59
      | _ => false
    | _ => false
  match cs with
  | [] => true
  | ['Z'] => true
  | ['z'] => true
  | '+' :: rest => hours rest
  | '-' :: rest => hours rest
  | _ => false

/-- Whether a text is a date, a time of day, or both with or without an offset. -/
def isTime (cs : List Char) : Bool :=
  match date? cs with
  | some [] => true
  | some (t :: rest) =>
    (t == 'T' || t == 't' || t == ' ') &&
      (match clock? rest with
        | some offset => isOffset offset
        | none => false)
  | none => clock? cs == some []

/-- A character of a number, a time or a word. -/
def inScalar (c : Char) : Bool :=
  c.isAlphanum || c == '_' || c == '+' || c == '-' || c == '.' || c == ':'

/-- The characters of a number, a time or a word, and the rest.  A date may have
its time of day behind a blank. -/
def scalarText (cs : List Char) : List Char × List Char :=
  let head := cs.takeWhile inScalar
  let rest := cs.drop head.length
  match rest with
  | ' ' :: d :: behind =>
    if (date? head == some []) && d.isDigit then
      let tail := (d :: behind).takeWhile inScalar
      (head ++ ' ' :: tail, (d :: behind).drop tail.length)
    else (head, rest)
  | rest => (head, rest)

/-- The value of a number, a time or a word. -/
def scalar? (cs : List Char) : Option Toml :=
  if cs == "true".toList then some (.boolean true)
  else if cs == "false".toList then some (.boolean false)
  else
    match integer? cs with
    | some n => if fits n then some (.integer n) else none
    | none =>
      if isFloat cs then some (.float (String.ofList cs))
      else if isTime cs then some (.time (String.ofList cs))
      else none

/-! ### Values -/

mutual

/-- A value at the start of a text, with so much nesting left.  Each call takes
at least one character, which bounds the first argument. -/
def readValue? : Nat → Nat → List Char → Option (Toml × List Char)
  | 0, _, _ => none
  | fuel + 1, nesting, cs =>
    match cs with
    | '"' :: '"' :: '"' :: rest => (readLong? '"' rest).map fun x => (.string x.1, x.2)
    | '"' :: rest => (basicString? (rest.length + 1) [] rest).map fun x => (.string x.1, x.2)
    | '\'' :: '\'' :: '\'' :: rest => (readLong? '\'' rest).map fun x => (.string x.1, x.2)
    | '\'' :: rest => (literalString? rest).map fun x => (.string x.1, x.2)
    | '[' :: rest =>
      match nesting with
      | 0 => none
      | deeper + 1 => (readItems? fuel deeper [] rest).map fun x => (.array x.1, x.2)
    | '\x7b' :: rest =>
      match nesting with
      | 0 => none
      | deeper + 1 =>
        match skipSpaces rest with
        | '\x7d' :: rest => some (.table .inline [], rest)
        | rest => (readFields? fuel deeper [] rest).map fun x => (.table .inline x.1, x.2)
    | cs =>
      let (text, rest) := scalarText cs
      (scalar? text).map (·, rest)

/-- The items of an array up to its end, after those read so far. -/
def readItems? : Nat → Nat → List Toml → List Char → Option (List Toml × List Char)
  | 0, _, _, _ => none
  | fuel + 1, nesting, read, cs =>
    match skipAll cs with
    | ']' :: rest => some (read.reverse, rest)
    | cs =>
      (readValue? fuel nesting cs).bind fun x =>
        match skipAll x.2 with
        | ',' :: rest => readItems? fuel nesting (x.1 :: read) rest
        | ']' :: rest => some ((x.1 :: read).reverse, rest)
        | _ => none

/-- The fields of an inline table up to its end, after those read so far. -/
def readFields? : Nat → Nat → Fields → List Char → Option (Fields × List Char)
  | 0, _, _, _ => none
  | fuel + 1, nesting, read, cs =>
    (readKey? cs).bind fun k =>
      match k.2.2 with
      | '=' :: rest =>
        (readValue? fuel nesting (skipSpaces rest)).bind fun x =>
          (addValue? k.1 k.2.1 x.1 .header read).bind fun read =>
            match skipSpaces x.2 with
            | ',' :: rest => readFields? fuel nesting read rest
            | '\x7d' :: rest => some (read, rest)
            | _ => none
      | _ => none

end

/-! ### Documents -/

/-- The document read so far, and the table of its last header. -/
structure Reading where
  root : Fields := []
  header : List String := []

/-- Read the header of a table or of an item of an array of tables. -/
def readHeader? (r : Reading) (cs : List Char) : Option (Reading × List Char) :=
  match cs with
  | '[' :: '[' :: rest => do
    let (front, key, rest) ← readKey? rest
    let rest ← Json.expect? [']', ']'] rest
    let root ← openItem? front key r.root
    pure (⟨root, front ++ [key]⟩, rest)
  | '[' :: rest => do
    let (front, key, rest) ← readKey? rest
    let rest ← Json.expect? [']'] rest
    let root ← openTable? front key r.root
    pure (⟨root, front ++ [key]⟩, rest)
  | _ => none

/-- Read a key and its value. -/
def readPair? (r : Reading) (cs : List Char) : Option (Reading × List Char) := do
  let (front, key, rest) ← readKey? cs
  let rest ← Json.expect? ['='] rest
  let (v, rest) ← readValue? (2 * rest.length + 2) maxNesting (skipSpaces rest)
  let root ← addBelow? r.header front key v r.root
  pure ({ r with root }, rest)

/-- Read the lines of a text, one after the other. -/
def readLines? : Nat → Reading → List Char → Option Reading
  | 0, _, _ => none
  | fuel + 1, r, cs =>
    let line := match skipSpaces cs with
      | [] => some (r, [])
      | '#' :: rest => some (r, '#' :: rest)
      | '\n' :: rest => some (r, '\n' :: rest)
      | '\r' :: rest => some (r, '\r' :: rest)
      | '[' :: rest => readHeader? r ('[' :: rest)
      | rest => readPair? r rest
    line.bind fun x =>
      match skipComment x.2 with
      | [] => some x.1
      | rest => (lineBreak? rest).bind fun rest => readLines? fuel x.1 rest

/-- The document that a text writes; a byte order mark in front does not count. -/
def read? (text : String) : Option Fields :=
  let cs := match text.toList with
    | '\ufeff' :: rest => rest
    | cs => cs
  (readLines? (cs.length + 1) {} cs).map Reading.root

end ContentQuery.Toml
