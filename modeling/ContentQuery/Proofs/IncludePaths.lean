/-
What include paths expand.

An include path names a reference by the references on the way to it.  Those are expanded, too,
since a reference is eligible when its segments come first in those of an include path:

* `eligible_paths` — so eligible is what some include path goes through, segment by segment;
* `eligible_of_join` — and what is above a path that is eligible;
* `Reaches.of_unrestricted` — no document at an eligible path is lost on the way to it;
* `eligible_paths_iff` — include paths lead to those documents of the expansion of all
  references that stand at eligible paths, and to no other ones;
* `resolve_paths` — so these are what a run embeds, within its depth limit.
-/
import ContentQuery.Pattern.Reading
import ContentQuery.Proofs.Embedding
import ContentQuery.Proofs.PathSegments

namespace ContentQuery

theorem leadsTo_iff {path included : String} :
    leadsTo path included = true ↔ Path.segments path <+: Path.segments included := by
  rw [leadsTo, Bool.or_eq_true, beq_iff_eq, List.isPrefixOf_iff_prefix, Path.prefix_segments_iff]
  refine or_congr_right ⟨?_, ?_⟩
  · rintro ⟨rest, hrest⟩
    refine ⟨String.ofList rest, String.toList_injective ?_⟩
    simp [← hrest]
  · rintro ⟨rest, rfl⟩
    exact ⟨rest.toList, by simp⟩

namespace ExpandMode

variable {included : List String}

/-- Eligible is what some include path goes through. -/
theorem eligible_paths {path : String} : (paths included).eligible path = true ↔
    ∃ p ∈ included, Path.segments path <+: Path.segments p := by
  simp only [eligible, List.any_eq_true, leadsTo_iff]

/-- With a path, that of its owner is eligible. -/
theorem eligible_of_join {owner key : String} (howner : owner.isEmpty = false)
    (h : (paths included).eligible (Path.join owner key) = true) :
    (paths included).eligible owner = true := by
  obtain ⟨p, hp, hprefix⟩ := eligible_paths.mp h
  rw [Path.segments_join howner] at hprefix
  exact eligible_paths.mpr ⟨p, hp, (List.prefix_append _ _).trans hprefix⟩

end ExpandMode

namespace Reference.Expansion

/-- The expansion of all references. -/
def unrestricted (x : Expansion) : Expansion := { x with mode := .all }

variable {x : Expansion} {look : Key → Option Document} {docs : List Document} {n : Nat}
  {above : List Key} {path : String} {payload : Document}

/-- Every reference of a root has a path. -/
def RootsNamed (docs : List Document) : Prop :=
  ∀ raw ∈ docs, ∀ l ∈ scan (payloadOf raw), l.path.isEmpty = false

/-- Below the roots every path says something. -/
theorem Reaches.isEmpty_path (hdocs : RootsNamed docs)
    (h : x.Reaches look docs n above path payload) : n = 0 ∨ path.isEmpty = false := by
  induction h with
  | root => exact .inl rfl
  | @follow _ _ path _ _ l _ hreaches hfollows _ ih =>
    right
    rcases ih with rfl | hpath
    · cases hreaches with
      | root hraw => exact hdocs _ hraw l hfollows.scanned
    · exact Path.isEmpty_join hpath l.path

/-- A document below a root stands at an eligible path. -/
theorem Reaches.eligible (h : x.Reaches look docs (n + 1) above path payload) :
    x.mode.eligible path = true := by
  cases h with
  | follow _ hfollows _ => exact hfollows.eligible

/-- What is reached is reached when all references are expanded. -/
theorem Reaches.unrestricted (h : x.Reaches look docs n above path payload) :
    x.unrestricted.Reaches look docs n above path payload := by
  induction h with
  | root hraw => exact .root hraw
  | follow _ hfollows hfound ih =>
    exact .follow ih ⟨hfollows.scanned, rfl, hfollows.named, hfollows.fresh⟩ hfound

/-- Include paths do not lose a document at an eligible path: all that is on the way to it is
eligible, too. -/
theorem Reaches.of_unrestricted {included : List String} (hmode : x.mode = .paths included)
    (hdocs : RootsNamed docs) (h : x.unrestricted.Reaches look docs n above path payload)
    (hpath : n = 0 ∨ x.mode.eligible path = true) : x.Reaches look docs n above path payload := by
  induction h with
  | root hraw => exact .root hraw
  | follow hreaches hfollows hfound ih =>
    have heligible := hpath.resolve_left (Nat.succ_ne_zero _)
    have howner := (hreaches.isEmpty_path hdocs).imp_right fun howner =>
      show x.mode.eligible _ = true by
        rw [hmode] at heligible ⊢
        exact ExpandMode.eligible_of_join howner heligible
    exact .follow (ih howner) ⟨hfollows.scanned, heligible, hfollows.named, hfollows.fresh⟩ hfound

/-- Below the roots include paths reach what is reached at eligible paths. -/
theorem reaches_paths_iff {included : List String} (hmode : x.mode = .paths included)
    (hdocs : RootsNamed docs) : x.Reaches look docs (n + 1) above path payload ↔
      x.unrestricted.Reaches look docs (n + 1) above path payload ∧
        (ExpandMode.paths included).eligible path = true := by
  rw [← hmode]
  exact ⟨fun h => ⟨h.unrestricted, h.eligible⟩,
    fun ⟨h, hpath⟩ => h.of_unrestricted hmode hdocs (.inr hpath)⟩

/-- A run along include paths embeds the documents that the expansion of all references
reaches at eligible paths, within the depth limit, and no other ones.  Each of them stands in
what comes out, itself expanded along the include paths. -/
theorem resolve_paths [PatternLanguage] (m : MemoryStore) {included : List String}
    (hmode : x.mode = .paths included) (hp : Projection.OnlyPayload x.projection)
    (hm : ∀ d ∈ m.documents x.collection, Document.wellFormed d = true)
    (hwf : ∀ raw ∈ docs, Document.wellFormed raw = true) (hdocs : RootsNamed docs) :
    (m.run (x.resolve docs)).outcome = .ok (docs.map (x.unfold m)) ∧ ∀ raw ∈ docs,
      (∀ d, x.Embeds m raw d ↔ ∃ n above path payload, n < x.maxDepth ∧
        x.unrestricted.Reaches (x.look m) [raw] (n + 1) above path payload ∧
        (ExpandMode.paths included).eligible path = true ∧
        d = x.depthFirst (x.look m) (x.maxDepth - (n + 1)) above path payload) ∧
      ∀ d, x.Embeds m raw d →
        ∃ way, valueAt way (.document (x.unfold m raw)) = some (.document d) := by
  refine ⟨outcome_resolve m x docs hp, fun raw hraw => ⟨fun d => ?_, fun d hd => ?_⟩⟩
  · have hroot : RootsNamed [raw] := fun raw' hraw' => by
      obtain rfl := List.mem_singleton.mp hraw'
      exact hdocs raw' hraw
    simp only [embeds_iff_reaches, reaches_paths_iff hmode hroot, and_assoc]
  · exact exists_way_of_embeds hp hm (hwf raw hraw) hd

end Reference.Expansion

open Reference.Expansion (RootsNamed)

/-- Include paths work by whole segments.  What is eligible stays so towards the root, as long as
there is a path to say it of.  So of the documents that the expansion of all references reaches
below the roots, include paths reach those at eligible paths: nothing on the way to a reference
that is asked for is left out. -/
theorem eligible_paths_iff (included : List String) :
    (∀ path, (ExpandMode.paths included).eligible path = true ↔
      ∃ p ∈ included, Path.segments path <+: Path.segments p) ∧
    (∀ owner key, owner.isEmpty = false →
      (ExpandMode.paths included).eligible (Path.join owner key) = true →
      (ExpandMode.paths included).eligible owner = true) ∧
    ∀ (x : Reference.Expansion) look docs, x.mode = .paths included → RootsNamed docs →
      ∀ n above path payload, x.Reaches look docs (n + 1) above path payload ↔
        x.unrestricted.Reaches look docs (n + 1) above path payload ∧
          (ExpandMode.paths included).eligible path = true := by
  exact ⟨fun _ => ExpandMode.eligible_paths, fun _ _ => ExpandMode.eligible_of_join,
    fun _ _ _ hmode hdocs _ _ _ _ => Reference.Expansion.reaches_paths_iff hmode hdocs⟩

/-- A reference under an empty key has no path, and no include path goes through it. -/
example : Path.join "" "next" = "next" ∧ (ExpandMode.paths ["next"]).eligible "" = false := by decide

namespace Reference

/-- A store of pages, each of which names the next one. -/
def pageChain : MemoryStore where
  collections := [("pages", [linkedPage "a" "b", linkedPage "b" "c", linkedPage "c" "d",
    linkedPage "d" "e"])]

/-- The expansion of what the next page of a page names. -/
def nextButOne : Expansion := { pagePairExpansion with mode := .paths ["next.next"] }

open scoped Pattern in
/-- The next page is embedded, as is the one that it names, and what this one names is not. -/
theorem eligible_paths_nextButOne :
    (ExpandMode.paths ["next.next"]).eligible "next" = true ∧
      nextButOne.mode = .paths ["next.next"] ∧ RootsNamed [linkedPage "a" "b"] ∧
      nextButOne.Reaches (nextButOne.look pageChain) [linkedPage "a" "b"] 2
        [⟨"page", "en", "c"⟩, ⟨"page", "en", "b"⟩, ⟨"page", "en", "a"⟩] "next.next"
        [("next", pageLink "d"), (embeddedContentType, .string "page")] ∧
      nextButOne.Embeds pageChain (linkedPage "a" "b")
        [("next", pageLink "d"), (embeddedContentType, .string "page")] ∧
      (pageChain.run (nextButOne.resolve [linkedPage "a" "b"])).outcome = .ok
        [[("next", .document [("next", .document
            [("next", pageLink "d"), (embeddedContentType, .string "page")]),
          (embeddedContentType, .string "page")]), ("draft", .null)]] := by
  obtain ⟨-, hup, hreaches⟩ := eligible_paths_iff ["next.next"]
  have hdocs : RootsNamed [linkedPage "a" "b"] := by
    intro raw hraw l hl
    obtain rfl := List.mem_singleton.mp hraw
    obtain rfl := List.mem_singleton.mp hl
    decide
  have hroot : nextButOne.unrestricted.Reaches (nextButOne.look pageChain) [linkedPage "a" "b"] 0
      [⟨"page", "en", "a"⟩] "" (payloadOf (linkedPage "a" "b")) := .root List.mem_cons_self
  have hnext : nextButOne.unrestricted.Reaches (nextButOne.look pageChain) [linkedPage "a" "b"] 1
      [⟨"page", "en", "b"⟩, ⟨"page", "en", "a"⟩] "next"
      [("next", pageLink "c"), (embeddedContentType, .string "page")] :=
    .follow (l := ⟨[.key "next"], ⟨"page", ["b"], false, none⟩, pageLink "b"⟩)
      (k := ⟨"page", "en", "b"⟩) hroot ⟨List.mem_singleton.mpr rfl, rfl, by decide, by decide⟩ rfl
  have hlast : nextButOne.unrestricted.Reaches (nextButOne.look pageChain) [linkedPage "a" "b"] 2
      [⟨"page", "en", "c"⟩, ⟨"page", "en", "b"⟩, ⟨"page", "en", "a"⟩] "next.next"
      [("next", pageLink "d"), (embeddedContentType, .string "page")] :=
    .follow (l := ⟨[.key "next"], ⟨"page", ["c"], false, none⟩, pageLink "c"⟩)
      (k := ⟨"page", "en", "c"⟩) hnext ⟨List.mem_singleton.mpr rfl, rfl, by decide, by decide⟩ rfl
  have hmode : nextButOne.mode = .paths ["next.next"] := rfl
  have hreached := (hreaches nextButOne _ _ hmode hdocs 1 _ _ _).mpr ⟨hlast, by decide⟩
  have hembeds : nextButOne.Embeds pageChain (linkedPage "a" "b")
      [("next", pageLink "d"), (embeddedContentType, .string "page")] :=
    Expansion.embeds_iff_reaches.mpr ⟨1, _, _, _, by decide, hreached, rfl⟩
  exact ⟨hup "next" "next" (by decide) (by decide), hmode, hdocs, hreached, hembeds,
    outcome_resolve pageChain nextButOne [linkedPage "a" "b"] (by decide)⟩

end Reference

end ContentQuery
