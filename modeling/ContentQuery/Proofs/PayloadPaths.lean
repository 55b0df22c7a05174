/-
Payload fields, seen from the wrapper.

The store is asked for payload fields by paths that go through the payload field
of the wrapper:

* `segments_payloadPath` — such a path is the segment of the payload in front of
  the path of the field;
* `resolve_payloadPath` — it reaches in a stored document what the field's path
  reaches in the payload, unless it has become too long;
* `onlyPayload_renderProjection` — exclusions of payload fields leave the rest of
  the wrapper alone;
* `payloadPath_mem_renderProjection` — and every one of them is asked for.
-/
import ContentQuery.Proofs.Entries
import ContentQuery.Proofs.Exclusion
import ContentQuery.Query.Call
import ContentQuery.Query.Compiled
import Mathlib.Tactic.SplitIfs

namespace ContentQuery

/-! ### Paths -/

theorem Path.segments_append_dot (a b : String) :
    Path.segments (a ++ "." ++ b) = Path.segments a ++ Path.segments b := by
  have hchars : (a ++ "." ++ b).toList = a.toList ++ '.' :: b.toList := by
    simp [String.toList_append]
  unfold Path.segments
  rw [hchars, List.splitOn_append_cons_self, List.map_append]

theorem Path.segments_of_undotted {field : String} (h : QueryState.isDotted field = false) :
    Path.segments field = [field] := by
  have hchars : '.' ∉ field.toList := by simpa [QueryState.isDotted] using h
  rw [Path.segments, List.splitOn_eq_singleton hchars]
  simp

theorem segments_payloadPath (field : String) :
    Path.segments (payloadPath field) = Wrapper.payload :: Path.segments field :=
  Path.segments_append_dot Wrapper.payload field

theorem toList_payloadPath (field : String) :
    (payloadPath field).toList = "data.".toList ++ field.toList := by
  rw [payloadPath, String.toList_append]
  rfl

theorem payloadPath_injective {f g : String} (h : payloadPath f = payloadPath g) : f = g := by
  have hchars := congrArg String.toList h
  rw [toList_payloadPath, toList_payloadPath] at hchars
  exact String.toList_injective (List.append_cancel_left hchars)

/-- A path through the payload starts as no wrapper field or operator does. -/
theorem payloadPath_ne {field key : String} (h : ¬ "data.".toList <+: key.toList) :
    payloadPath field ≠ key := by
  rintro rfl
  exact h ⟨field.toList, (toList_payloadPath field).symm⟩

@[simp] theorem isEmpty_payloadPath (field : String) : (payloadPath field).isEmpty = false := by
  rw [← Bool.not_eq_true, String.isEmpty_iff]
  exact payloadPath_ne (by decide)

/-- The path of a payload field reaches in a stored document what the field's own
path reaches in the payload. -/
theorem resolve_payloadPath {d payload : Document} {field : String}
    (h : Entries.get? d Wrapper.payload = some (.document payload)) (hne : field.isEmpty = false)
    (hlen : (Path.segments field).length < Path.maxDepth) :
    Path.resolve d (payloadPath field) = Path.resolve payload field := by
  have hlong : ¬ Path.maxDepth < (Path.segments field).length := by omega
  have hlong' : ¬ Path.maxDepth < (Path.segments field).length + 1 := by omega
  simp [Path.resolve, segments_payloadPath, Path.reach, Path.step, h, hne, hlong, hlong']

/-! ### Exclusions -/

/-- A projection that excludes payload fields names nothing else but the id. -/
theorem onlyPayload_renderProjection {entries : List (String × Int32)}
    (h : ∀ e ∈ entries, e.2 = 0) : Projection.OnlyPayload (renderProjection entries) := by
  -- no field is asked for, so the wrapper is not named
  have hnone : (entries.any fun e => e.2 == 1) = false := by
    rw [List.any_eq_false]
    intro e he
    simp [h e he]
  unfold renderProjection
  simp only [hnone]
  suffices hacc : ∀ out : Document, Projection.OnlyPayload out → Projection.OnlyPayload
      (entries.foldl (fun out e => Entries.insert out (payloadPath e.1) (.int32 e.2)) out) from
    hacc _ (by decide)
  clear hnone
  induction entries with
  | nil => exact fun _ hout => hout
  | cons e rest ih =>
    intro out hout
    rw [List.foldl_cons]
    refine ih (fun e' he' => h e' (List.mem_cons_of_mem e he')) _ fun f hf => ?_
    rcases Entries.mem_insert hf with hf | rfl
    · exact hout f hf
    · refine .inr ⟨?_, ?_⟩
      · simp [h e List.mem_cons_self, Value.truthy]
      · rw [segments_payloadPath, List.head?_cons]

/-- Every field that is to be projected is named by its native path. -/
theorem payloadPath_mem_renderProjection {entries : List (String × Int32)} {field : String}
    (h : field ∈ Entries.keys entries) :
    payloadPath field ∈ Entries.keys (renderProjection entries) := by
  -- the entries are put in behind those of the wrapper
  have hall (wrapper : Document) : entries.foldl
      (fun out e => Entries.insert out (payloadPath e.1) (.int32 e.2)) wrapper =
      Entries.insertAll wrapper (entries.map fun e => (payloadPath e.1, .int32 e.2)) := by
    rw [Entries.insertAll, List.foldl_map]
  obtain ⟨e, he, rfl⟩ := List.mem_map.mp h
  rw [renderProjection, hall, Entries.mem_keys_insertAll]
  exact .inr (List.mem_map.mpr ⟨_, List.mem_map.mpr ⟨e, he, rfl⟩, rfl⟩)

/-- A valid configuration only excludes. -/
theorem Config.projections_eq_zero {c : Config} (hc : c.fault? = none) :
    ∀ e ∈ c.projections, e.2 = 0 := by
  have hfind : (c.projections.find? fun e => e.2 != 0) = none := by
    unfold Config.fault? at hc
    split_ifs at hc
    exact Option.map_eq_none_iff.mp hc
  intro e he
  simpa using List.find?_eq_none.mp hfind e he

theorem Config.limit_ne_zero {c : Config} (hc : c.fault? = none) : c.limit ≠ 0 := by
  unfold Config.fault? at hc
  split_ifs at hc with _ h
  exact h

end ContentQuery
