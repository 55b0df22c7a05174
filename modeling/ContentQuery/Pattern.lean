/-
Patterns of text and searching for them.

A pattern is matched against the characters of a text between two positions.
A search only asks whether some part of the text matches, so a pattern is read
as a map of sets of positions: from where its matches start to where they may
end.  Greed and groups make no difference to that.

* `ends` — the positions at which matches that start in a set of positions end;
* `isMatch` — whether a pattern matches some part of a text.
-/
import ContentQuery.Pattern.CharSet

namespace ContentQuery

namespace Pattern

/-- A condition on a position between characters. -/
inductive Anchor
  | textStart
  | textEnd
  /-- after a line feed or, if `crlf`, any line break -/
  | lineStart (crlf : Bool)
  | lineEnd (crlf : Bool)
  | wordBoundary
  | notWordBoundary
  | wordStart
  | wordEnd
  | wordStartHalf
  | wordEndHalf
  deriving DecidableEq

end Pattern

/-- A pattern. -/
inductive Pattern
  | empty
  | one (s : Pattern.CharSet)
  | anchor (a : Pattern.Anchor)
  | seq (p q : Pattern)
  | alt (p q : Pattern)
  /-- at least `least` matches and, if there is a bound, at most that many -/
  | times (p : Pattern) (least : Nat) (most : Option Nat)

namespace Pattern

/-- Whether the character before a position has a property. -/
def before (text : Array Char) (i : Nat) (prop : Char → Bool) : Bool :=
  match i with
  | 0 => false
  | j + 1 => text[j]?.any prop

/-- Whether the character after a position has a property. -/
def after (text : Array Char) (i : Nat) (prop : Char → Bool) : Bool := text[i]?.any prop

/-- Whether an anchor holds at a position. -/
def Anchor.holds (text : Array Char) (i : Nat) : Anchor → Bool
  | textStart => i == 0
  | textEnd => i == text.size
  | lineStart false => i == 0 || before text i (· == '\n')
  | lineStart true =>
    i == 0 || before text i (· == '\n') ||
      (before text i (· == '\r') && !after text i (· == '\n'))
  | lineEnd false => i == text.size || after text i (· == '\n')
  | lineEnd true =>
    i == text.size || after text i (· == '\r') ||
      (after text i (· == '\n') && !before text i (· == '\r'))
  | wordBoundary => before text i isWord != after text i isWord
  | notWordBoundary => before text i isWord == after text i isWord
  | wordStart => !before text i isWord && after text i isWord
  | wordEnd => before text i isWord && !after text i isWord
  | wordStartHalf => !before text i isWord
  | wordEndHalf => !after text i isWord

/-- The positions of the first list and those that only the second has. -/
def joined (a b : List Nat) : List Nat := a ++ (b.filter fun i => !a.contains i).eraseDups

/-- Apply `f` a number of times. -/
def iterate (f : List Nat → List Nat) : Nat → List Nat → List Nat
  | 0, s => s
  | n + 1, s => iterate f n (f s)

/-- Add what `f` makes of a set of positions up to a number of times, or until
nothing is new. -/
def grow (f : List Nat → List Nat) : Nat → List Nat → List Nat
  | 0, s => s
  | n + 1, s =>
    let next := joined s (f s)
    if next.length = s.length then s else grow f n next

/-- Where matches that start in a set of positions end.  A chain of more
matches than there are positions stands still somewhere, so no longer one has
to be tried. -/
def ends (text : Array Char) : Pattern → List Nat → List Nat
  | empty, s => s
  | one set, s => s.filterMap fun i =>
    match text[i]? with
    | some c => if set.contains c then some (i + 1) else none
    | none => none
  | anchor a, s => s.filter fun i => a.holds text i
  | seq p q, s => ends text q (ends text p s)
  | alt p q, s => joined (ends text p s) (ends text q s)
  | times p least most, s =>
    let bound := text.size + 1
    let start := iterate (ends text p) (min least bound) s
    match most with
    | none => grow (ends text p) bound start
    | some n => grow (ends text p) (min (n - least) bound) start

/-- Whether a pattern matches some part of a text. -/
def isMatch (p : Pattern) (text : String) : Bool :=
  let chars := text.toList.toArray
  !(ends chars p (List.range (chars.size + 1))).isEmpty

/-! ### The size of a pattern

A pattern that would need too large an automaton is refused.  The estimate
counts states, a state for each byte of a character. -/

/-- An estimate of the states that a set of characters needs. -/
def CharSet.weight : CharSet → Nat
  | empty => 1
  | range first last =>
    if first = last then first.utf8Size else if last.toNat < 128 then 1 else 8
  | categories ks => 20 * ks.length + 80
  | blank => 15
  | word => 1450
  | union a b | inter a b | difference a b | symmDifference a b => a.weight + b.weight
  | compl a => a.weight + 6
  | folded a => a.weight

/-- An estimate of the states that a pattern needs. -/
def weight : Pattern → Nat
  | empty => 1
  | one s => s.weight
  | anchor _ => 1
  | seq p q => weight p + weight q
  | alt p q => weight p + weight q + 2
  | times p least none => max least 1 * weight p + 2
  | times p least (some n) => n * weight p + (n - least) + 1

/-- The number of states that an automaton may have. -/
def maxWeight : Nat := 327680

end Pattern

end ContentQuery
