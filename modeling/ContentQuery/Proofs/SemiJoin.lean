/-
Which owners a reference predicate keeps.

The semi-join looks all targets of a batch up at once.  What it keeps can be said
owner by owner: `keepsOwner` looks the targets of one owner up by themselves, and
knows of the batch nothing but which reference paths there are.

* `outcome_semiJoin` — the semi-join keeps what `keepsOwner` keeps, in order;
* `keepsOwner_congr` — the order of the paths makes no difference;
* `keepsOwner_of_subset` — more paths make a difference only where a predicate key
  goes to a longer one;
* `semiJoin_append` — so two batches can be put together, unless a key goes to
  different paths in them.
-/
import ContentQuery.Pattern.Reading
import ContentQuery.Proofs.Levels
import ContentQuery.Proofs.LongestPath

namespace ContentQuery.Reference

/-- The reference paths that occur in some documents. -/
def referencePaths (locale : String) (docs : List Document) : List String :=
  (docs.map (targetsByPath locale)).flatMap Entries.keys

theorem mem_referencePaths {locale : String} {docs : List Document} {p : String} :
    p ∈ referencePaths locale docs ↔ ∃ raw ∈ docs, p ∈ Entries.keys (targetsByPath locale raw) := by
  simp [referencePaths, List.mem_flatMap]

theorem referencePaths_append (locale : String) (xs ys : List Document) :
    referencePaths locale (xs ++ ys) = referencePaths locale xs ++ referencePaths locale ys := by
  simp [referencePaths]

/-- A key goes on to its path when others come in, unless it goes to another one of
those. -/
theorem splitKey?_append {a b : List String} {key : String} {best : String × String}
    (hbest : splitKey? a key = some best) (h : ∀ other, splitKey? b key = some other → other = best) :
    splitKey? (a ++ b) key = some best := by
  obtain ⟨hmem, hfield, hmax⟩ := longest_of_splitKey? hbest
  refine splitKey?_eq_some_iff.mpr ⟨List.mem_append_left b hmem, hfield, fun q hq hsome => ?_⟩
  rcases List.mem_append.mp hq with hq | hq
  · exact hmax q hq hsome
  · cases hother : splitKey? b key with
    | none =>
      rw [splitKey?_eq_none_iff.mp hother q hq] at hsome
      cases hsome
    | some other =>
      obtain rfl := h other hother
      exact (longest_of_splitKey? hother).2.2 q hq hsome

section Owner

variable [PatternLanguage] (m : MemoryStore) (collection locale : String)

/-- Whether an owner has, at each path of some groups, a stored target that the
filter of the group accepts. -/
def refersTo (groups : List (String × Filter)) (raw : Document) : Bool :=
  groups.all fun g =>
    (Entries.get? (targetsByPath locale raw) g.1).any fun keys =>
      (keys.filterMap (m.payload? collection none)).any fun payload => g.2.accepts payload

/-- Whether a predicate keeps an owner in a batch with some reference paths. -/
def keepsOwner (predicate : Filter) (paths : List String) (raw : Document) : Bool :=
  (splitByPath? paths predicate.fields).any fun groups => refersTo m collection locale groups raw

variable {m collection locale} {predicate : Filter}

/-- A batch of lookups decides about an owner as single lookups do. -/
theorem satisfies_eq_refersTo {groups : List (String × Filter)} {raw : Document} {wanted : List Key}
    (h : ∀ k ∈ keysAt groups (targetsByPath locale raw), k ∈ wanted) :
    satisfies groups (byKey (foundBy m collection none wanted)) (targetsByPath locale raw) =
      refersTo m collection locale groups raw := by
  have hp : ∀ p ∈ (none : Option Document), Projection.OnlyPayload p := by simp
  have hfound : ∀ g ∈ groups, ∀ keys, Entries.get? (targetsByPath locale raw) g.1 = some keys →
      keys.filterMap (Entries.get? (byKey (foundBy m collection none wanted))) =
        keys.filterMap (m.payload? collection none) := by
    intro g hg keys hkeys
    refine List.filterMap_congr fun k hk => ?_
    rw [get?_byKey_foundBy m collection hp, if_pos]
    exact h k (List.mem_flatMap.mpr ⟨g, hg, by rw [hkeys]; exact hk⟩)
  rw [Bool.eq_iff_iff, satisfies, refersTo, List.all_eq_true, List.all_eq_true]
  refine forall₂_congr fun g hg => ?_
  cases hkeys : Entries.get? (targetsByPath locale raw) g.1 with
  | none => rfl
  | some keys => rw [Option.any_some, Option.any_some, hfound g hg keys hkeys]

/-- The semi-join keeps the owners that are kept one by one. -/
theorem outcome_semiJoin (docs : List Document) :
    (m.run (semiJoin collection locale predicate docs)).outcome =
      .ok (docs.filter (keepsOwner m collection locale predicate (referencePaths locale docs))) := by
  have hp : ∀ p ∈ (none : Option Document), Projection.OnlyPayload p := by simp
  have hpaths : splitByPath? ((docs.map (targetsByPath locale)).flatMap Entries.keys).eraseDups
      predicate.fields = splitByPath? (referencePaths locale docs) predicate.fields :=
    splitByPath?_congr fun f _ => splitKey?_congr (fun p => List.mem_eraseDups) f.1
  unfold semiJoin
  dsimp only
  rw [hpaths]
  cases hsplit : splitByPath? (referencePaths locale docs) predicate.fields with
  | none =>
    have hnone : docs.filter (keepsOwner m collection locale predicate (referencePaths locale docs)) =
        [] := List.filter_eq_nil_iff.mpr fun raw _ => by simp [keepsOwner, hsplit]
    rw [hnone]
    rfl
  | some groups =>
    have hkeeps : keepsOwner m collection locale predicate (referencePaths locale docs) =
        refersTo m collection locale groups := funext fun raw => by rw [keepsOwner, hsplit]; rfl
    have hzip : docs.zip (docs.map (targetsByPath locale)) =
        docs.map fun raw => (raw, targetsByPath locale raw) := by
      simpa using List.zip_map' (f := id) (g := targetsByPath locale) (l := docs)
    dsimp only
    rw [Plan.bind_eq_bind, m.run_bind_of_ok (run_fetch_kept m collection hp _), hkeeps, hzip,
      List.filter_map, List.map_map]
    refine congrArg Except.ok ?_
    rw [Function.comp_def, List.map_id']
    refine List.filter_congr fun raw hraw => satisfies_eq_refersTo fun k hk => ?_
    -- all targets at the paths of the groups were looked up
    rw [Ordered.mem_ofList fun _ _ => Key.eq_of_compare]
    exact List.mem_flatMap.mpr ⟨_, List.mem_map_of_mem hraw, hk⟩

/-! ### What the batch has to do with it -/

theorem keepsOwner_congr {paths more : List String}
    (h : ∀ f ∈ predicate.fields, splitKey? more f.1 = splitKey? paths f.1) :
    keepsOwner m collection locale predicate more = keepsOwner m collection locale predicate paths := by
  funext raw
  rw [keepsOwner, keepsOwner, splitByPath?_congr h]

/-- Further paths do not matter to an owner that has none of them, as long as the
keys that went to a path before still go there. -/
theorem keepsOwner_of_subset {paths more : List String} {raw : Document}
    (hraw : ∀ p ∈ Entries.keys (targetsByPath locale raw), p ∈ paths)
    (hsame : ∀ f ∈ predicate.fields, ∀ best, splitKey? paths f.1 = some best →
      splitKey? more f.1 = some best) :
    keepsOwner m collection locale predicate more raw =
      keepsOwner m collection locale predicate paths raw := by
  cases hsplit : splitByPath? paths predicate.fields with
  | some groups =>
    -- every key goes where it went
    have hkeys : ∀ f ∈ predicate.fields, splitKey? more f.1 = splitKey? paths f.1 := by
      intro f hf
      obtain ⟨best, hbest, -⟩ := exists_of_splitByPath?_eq_some hsplit f hf
      rw [hbest, hsame f hf best hbest]
    rw [keepsOwner_congr hkeys]
  | none =>
    -- some key went nowhere: where it goes now, the owner has no reference
    obtain ⟨f, hf, hnone⟩ := exists_of_splitByPath?_eq_none hsplit
    have hfalse : keepsOwner m collection locale predicate paths raw = false := by
      simp [keepsOwner, hsplit]
    rw [hfalse, keepsOwner]
    cases hmore : splitByPath? more predicate.fields with
    | none => rfl
    | some groups =>
      obtain ⟨best, hbest, hgroup⟩ := exists_of_splitByPath?_eq_some hmore f hf
      obtain ⟨g, hg, hpath⟩ := List.mem_map.mp hgroup
      have hbelow := (longest_of_splitKey? hbest).2.1
      have habsent : Entries.get? (targetsByPath locale raw) best.1 = none := by
        rw [Entries.get?_eq_none_iff]
        intro hmem
        rw [splitKey?_eq_none_iff.mp hnone best.1 (hraw best.1 hmem)] at hbelow
        cases hbelow
      rw [Option.any_some, refersTo, List.all_eq_false]
      exact ⟨g, hg, by rw [hpath, habsent]; simp⟩

end Owner

/-- A predicate's keys go to the same paths in two batches, as far as they go to any
in both. -/
def SplitAlike (predicate : Filter) (a b : List String) : Prop :=
  ∀ f ∈ predicate.fields, ∀ p q, splitKey? a f.1 = some p → splitKey? b f.1 = some q → p = q

/-- As long as the predicate's keys go to the same paths in two batches, one test of
single owners decides in either of them and in both together. -/
theorem semiJoin_append [PatternLanguage] (m : MemoryStore) (collection locale : String)
    (predicate : Filter) (xs ys : List Document)
    (h : SplitAlike predicate (referencePaths locale xs) (referencePaths locale ys)) :
    let keep := keepsOwner m collection locale predicate
      (referencePaths locale xs ++ referencePaths locale ys)
    (m.run (semiJoin collection locale predicate xs)).outcome = .ok (xs.filter keep) ∧
    (m.run (semiJoin collection locale predicate ys)).outcome = .ok (ys.filter keep) ∧
    (m.run (semiJoin collection locale predicate (xs ++ ys))).outcome =
      .ok (xs.filter keep ++ ys.filter keep) := by
  intro keep
  have hown (docs : List Document) : ∀ raw ∈ docs, ∀ p ∈ Entries.keys (targetsByPath locale raw),
      p ∈ referencePaths locale docs := fun raw hraw p hp => mem_referencePaths.mpr ⟨raw, hraw, hp⟩
  have hxs : ∀ raw ∈ xs, keep raw = keepsOwner m collection locale predicate
      (referencePaths locale xs) raw := by
    intro raw hraw
    refine keepsOwner_of_subset (hown xs raw hraw) fun f hf best hbest => ?_
    exact splitKey?_append hbest fun other hother => (h f hf best other hbest hother).symm
  have hys : ∀ raw ∈ ys, keep raw = keepsOwner m collection locale predicate
      (referencePaths locale ys) raw := by
    intro raw hraw
    refine keepsOwner_of_subset (hown ys raw hraw) fun f hf best hbest => ?_
    -- the order of the two lists of paths is of no account
    rw [splitKey?_congr (b := referencePaths locale ys ++ referencePaths locale xs)
      fun p => by rw [List.mem_append, List.mem_append, or_comm]]
    exact splitKey?_append hbest fun other hother => h f hf other best hother hbest
  refine ⟨?_, ?_, ?_⟩
  · rw [outcome_semiJoin, List.filter_congr hxs]
  · rw [outcome_semiJoin, List.filter_congr hys]
  · rw [outcome_semiJoin, referencePaths_append, List.filter_append]

/-! ### Pages with nested reference paths -/

/-- A descriptor of one document. -/
def linkTo (contentType uid : String) : Value :=
  .document [(Field.referenceTo, .string contentType), (Field.values, .string uid)]

/-- A page that refers to its author through a document of its own. -/
def indirectPage : Document :=
  StoredDocument.toDocument ⟨⟨"page", "en", "p1"⟩, [("meta", linkTo "meta" "m1")]⟩

/-- A page that refers to its author directly. -/
def directPage : Document :=
  StoredDocument.toDocument
    ⟨⟨"page", "en", "p2"⟩, [("meta", .document [("author", linkTo "author" "a1")])]⟩

/-- What the two pages refer to. -/
def authors : MemoryStore where
  collections := [("pages",
    [StoredDocument.toDocument ⟨⟨"author", "en", "a1"⟩, [("name", .string "Ann")]⟩,
      StoredDocument.toDocument
        ⟨⟨"meta", "en", "m1"⟩, [("author", .document [("name", .string "Ann")])]⟩])]

/-- The pages by Ann. -/
def byAnn : Filter := .field "meta.author.name" (.equals (.string "Ann"))

open scoped Pattern in
/-- Either page is kept by itself.  Together they have a longer path for the key to
go to, at which only one of them refers to something. -/
theorem semiJoin_nested :
    (authors.run (semiJoin "pages" "en" byAnn [indirectPage])).outcome = .ok [indirectPage] ∧
    (authors.run (semiJoin "pages" "en" byAnn [directPage])).outcome = .ok [directPage] ∧
    (authors.run (semiJoin "pages" "en" byAnn ([indirectPage] ++ [directPage]))).outcome =
      .ok [directPage] ∧
    (authors.run (semiJoin "pages" "en" byAnn ([indirectPage] ++ [directPage]))).outcome ≠
      .ok ([indirectPage] ++ [directPage]) := by
  refine ⟨rfl, rfl, rfl, ?_⟩
  intro h
  have hlen := congrArg List.length (Except.ok.inj h)
  exact absurd hlen (by decide)

/-- A page that refers to an author who is not stored, and to another page. -/
def strangersPage : Document :=
  StoredDocument.toDocument ⟨⟨"page", "en", "p3"⟩,
    [("meta", .document [("author", linkTo "author" "a9")]), ("next", linkTo "page" "p1")]⟩

open scoped Pattern in
/-- Pages that refer to their authors in one way are kept together as apart, whatever
else they refer to. -/
theorem semiJoin_append_alike :
    SplitAlike byAnn (referencePaths "en" [directPage]) (referencePaths "en" [strangersPage]) ∧
    let keep := keepsOwner authors "pages" "en" byAnn
      (referencePaths "en" [directPage] ++ referencePaths "en" [strangersPage])
    [directPage].filter keep = [directPage] ∧ [strangersPage].filter keep = [] ∧
    (authors.run (semiJoin "pages" "en" byAnn ([directPage] ++ [strangersPage]))).outcome =
      .ok [directPage] := by
  have h : SplitAlike byAnn (referencePaths "en" [directPage])
      (referencePaths "en" [strangersPage]) := by
    intro f hf p q hp hq
    obtain rfl := List.mem_singleton.mp hf
    obtain rfl : ("meta.author", "name") = p := Option.some.inj hp
    obtain rfl : ("meta.author", "name") = q := Option.some.inj hq
    rfl
  obtain ⟨-, -, hboth⟩ := semiJoin_append authors "pages" "en" byAnn [directPage] [strangersPage] h
  exact ⟨h, rfl, rfl, hboth⟩

end ContentQuery.Reference
