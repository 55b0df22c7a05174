/-
Paths as lists of segments.

A path says what its segments say, whatever these are: empty ones, ones between two dots, or
ones that another segment begins with.

* `intercalate_segments`, `segments_injective` — a path is its segments with dots between them;
* `prefix_segments_iff` — a path that another one goes on from has the first of its segments;
* `reach_cons_array` — in an array the segments spread, all of them, over the documents;
* `resolve_append_dot` — what a path reaches is what its end reaches from what its beginning
  reaches.
-/
import ContentQuery.Proofs.PayloadPaths

namespace ContentQuery

namespace Path

/-! ### Segments -/

theorem intercalate_segments (path : String) : ".".intercalate (segments path) = path := by
  have hchars : (segments path).map String.toList = path.toList.splitOn '.' := by
    simp [segments, Function.comp_def]
  apply String.toList_injective
  rw [String.toList_intercalate, hchars]
  exact List.intercalate_splitOn '.'

/-- A path is known by its segments. -/
theorem segments_injective : Function.Injective segments :=
  Function.LeftInverse.injective intercalate_segments

theorem isEmpty_append_dot (path rest : String) : (path ++ "." ++ rest).isEmpty = false := by
  rw [← Bool.not_eq_true, String.isEmpty_iff]
  simp

section Join

variable {owner : String} (h : owner.isEmpty = false) (key : String)
include h

theorem join_eq_append_dot : join owner key = owner ++ "." ++ key := by
  rw [join, h, if_neg Bool.false_ne_true]

theorem segments_join : segments (join owner key) = segments owner ++ segments key := by
  rw [join_eq_append_dot h, segments_append_dot]

theorem isEmpty_join : (join owner key).isEmpty = false := by
  rw [join_eq_append_dot h, isEmpty_append_dot]

end Join

/-- The segments of keys one below the other. -/
theorem segments_foldl_join {owner : String} (h : owner.isEmpty = false) (keys : List String) :
    segments (keys.foldl join owner) = segments owner ++ keys.flatMap segments := by
  induction keys generalizing owner with
  | nil => simp
  | cons key rest ih =>
    rw [List.foldl_cons, ih (isEmpty_join h key), segments_join h, List.flatMap_cons,
      List.append_assoc]

/-- A path whose segments come first in another one is that one, or stands before a dot. -/
theorem prefix_segments_iff {path longer : String} :
    segments path <+: segments longer ↔
      longer = path ∨ ∃ rest, longer = path ++ "." ++ rest := by
  constructor
  · rintro ⟨behind, hbehind⟩
    have hlonger : ".".intercalate (segments path ++ behind) = longer := by
      rw [hbehind, intercalate_segments]
    by_cases hnil : behind = []
    · rw [hnil, List.append_nil, intercalate_segments] at hlonger
      exact .inl hlonger.symm
    · rw [String.intercalate_append_of_ne_nil (by simp [segments]) hnil,
        intercalate_segments] at hlonger
      exact .inr ⟨_, hlonger.symm⟩
  · rintro (rfl | ⟨rest, rfl⟩)
    · exact List.prefix_rfl
    · rw [segments_append_dot]
      exact List.prefix_append _ _

/-! ### What a path reaches -/

theorem step_array_of_name {s : String} (hs : Text.unsigned? s = none) (items : List Value) :
    step s (.array items) = (items.filter Value.isDocument).flatMap (step s) := by
  simp only [step, hs]
  induction items with
  | nil => rfl
  | cons v others ih =>
    rw [List.flatMap_cons, ih]
    cases v <;> rfl

/-- In an array a segment that is an index picks an element.  Any other segment is not used up:
the same segments go on from each document in the array. -/
theorem reach_cons_array (s : String) (rest : List String) (items : List Value) :
    reach (s :: rest) (.array items) =
      match Text.unsigned? s with
      | some i => items[i]?.toList.flatMap (reach rest)
      | none => (items.filter Value.isDocument).flatMap (reach (s :: rest)) := by
  cases hs : Text.unsigned? s with
  | some i => simp only [reach, step, hs]
  | none =>
    rw [reach, step_array_of_name hs, List.flatMap_assoc]
    rfl

/-- What a path reaches is what its end reaches from the values that its beginning reaches, one
after the other. -/
theorem resolve_append_dot (d : Document) {p q : String} (hp : p.isEmpty = false)
    (hlen : (segments p).length + (segments q).length ≤ maxDepth) :
    resolve d (p ++ "." ++ q) = (resolve d p).flatMap (reach (segments q)) := by
  have hlong : ¬ maxDepth < (segments p).length := by omega
  have hlong' : ¬ maxDepth < (segments p).length + (segments q).length := by omega
  simp only [resolve, segments_append_dot, isEmpty_append_dot, List.length_append, hp, hlong, hlong',
    decide_false, Bool.or_self, Bool.false_eq_true, if_false, reach_append]

/-- Sections with one author and with two. -/
def authoredSections : Document :=
  [("sections", .array [.document [("authors", .document [("name", .string "Ann")])], .int32 7,
    .document [("authors", .array [.document [("name", .string "Ben")],
      .document [("name", .string "Cleo")]])]])]

theorem resolve_authoredSections :
    resolve authoredSections "sections.authors" =
      [.document [("name", .string "Ann")], .array [.document [("name", .string "Ben")],
        .document [("name", .string "Cleo")]]] ∧
    resolve authoredSections "sections.authors.name" =
      [.string "Ann", .string "Ben", .string "Cleo"] := by
  have hauthors : resolve authoredSections "sections.authors" =
      [.document [("name", .string "Ann")], .array [.document [("name", .string "Ben")],
        .document [("name", .string "Cleo")]]] := rfl
  have happend := resolve_append_dot authoredSections (p := "sections.authors") (q := "name")
    (by decide) (by decide)
  exact ⟨hauthors, happend.trans (hauthors ▸ rfl)⟩

end Path

end ContentQuery
