/-
Languages of patterns.

A condition may ask that a text has a part that a pattern matches.  How patterns are written
and what they match is left to a language of patterns, and everything else holds whatever
the language is.
-/
namespace ContentQuery

/-- How a pattern is to be taken. -/
structure PatternOptions where
  ignoreCase : Bool := false
  multiLine : Bool := false
  dotAll : Bool := false
  verbose : Bool := false

/-- The options that letters ask for; letters without a meaning ask for nothing. -/
def PatternOptions.ofLetters (letters : String) : PatternOptions :=
  let on := fun (c : Char) => letters.toList.contains c
  { ignoreCase := on 'i', multiLine := on 'm', dotAll := on 's', verbose := on 'x' }

/-- A language of patterns: in which texts a pattern is found, if it can be read. -/
class PatternLanguage where
  read? : PatternOptions → String → Option (String → Bool)

end ContentQuery
