/-
Keeping owners by the documents that they refer to.

The keys of a reference predicate are reference paths with a field behind them.
Each key goes to the longest reference path of the batch that it continues; if
there is none for some key, nothing is kept.  An owner is kept when at each of
these paths one of its targets, as it is stored, satisfies what the predicate
asks of that path.
-/
import ContentQuery.Filter.Accepts
import ContentQuery.Reference.Batch
import ContentQuery.Reference.Scan

namespace ContentQuery.Reference

/-- The keys that an owner names, by reference path. -/
def targetsByPath (locale : String) (raw : Document) : List (String × List Key) :=
  let ownerLocale := match keyOf? raw with
    | some k => k.locale
    | none => locale
  match Document.documentAt? raw Wrapper.payload with
  | none => []
  | some payload =>
    (scan payload).foldl (fun acc l =>
      Entries.upsert acc l.path fun present =>
        present.getD [] ++ l.descriptor.keys ownerLocale) []

/-- The field that a predicate key has behind a path and a dot. -/
def fieldBelow? (path key : String) : Option String :=
  let lead := path.toList ++ ['.']
  if lead.isPrefixOf key.toList then some (String.ofList (key.toList.drop lead.length)) else none

/-- The longer of two paths with their fields; the first of two equally long. -/
def longer (best : Option (String × String)) (candidate : String × String) :
    Option (String × String) :=
  match best with
  | none => some candidate
  | some b => if b.1.length < candidate.1.length then some candidate else some b

/-- The longest of some paths that a predicate key continues, with the field
behind it. -/
def splitKey? (paths : List String) (key : String) : Option (String × String) :=
  (paths.filterMap fun p => (fieldBelow? p key).map fun field => (p, field)).foldl longer none

/-- The field predicates by reference path, unless some key continues none. -/
def splitByPath? (paths : List String) :
    List (String × Predicate) → Option (List (String × Filter))
  | fields => fields.foldlM (fun groups f => do
      let (path, field) ← splitKey? paths f.1
      pure (Entries.upsert groups path fun present =>
        let group := present.getD {}
        { group with fields := group.fields ++ [(field, f.2)] })) []

/-- The keys at the paths of some groups. -/
def keysAt (groups : List (String × Filter)) (targets : List (String × List Key)) : List Key :=
  groups.flatMap fun g => (Entries.get? targets g.1).getD []

variable [PatternLanguage]

/-- Whether an owner has, at each path of some groups, a found target that its
filter accepts. -/
def satisfies (groups : List (String × Filter)) (found : List (Key × Document))
    (targets : List (String × List Key)) : Bool :=
  groups.all fun g =>
    (Entries.get? targets g.1).any fun keys =>
      (keys.filterMap (Entries.get? found)).any fun payload => g.2.accepts payload

/-- The raw documents whose referenced documents satisfy a predicate, in order. -/
def semiJoin (collection locale : String) (predicate : Filter) (docs : List Document) :
    Plan (List Document) :=
  let targets := docs.map (targetsByPath locale)
  let paths := (targets.flatMap Entries.keys).eraseDups
  match splitByPath? paths predicate.fields with
  | none => pure []
  | some groups => do
    let wanted := Ordered.ofList Key.compare (targets.flatMap (keysAt groups))
    let found ← fetch collection none wanted
    pure (((docs.zip targets).filter fun o => satisfies groups found o.2).map Prod.fst)

end ContentQuery.Reference
