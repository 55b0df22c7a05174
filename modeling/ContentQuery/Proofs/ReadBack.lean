/-
What has been read and merged can be written and read again.

* `Accumulated` — the filters that reading and merging make;
* `readable_of_accumulated` — they are free of collisions, and no path of theirs reads
  as an operator, so writing them loses nothing;
* `parse_render` — a filter is read back as it was from the document that it is written
  as, and with longer paths from the one that it is written as below a root.
-/
import ContentQuery.Proofs.RoundTrip

namespace ContentQuery.Filter

/-- The filters that are read from documents with distinct keys, and all that merging
makes of these. -/
inductive Accumulated : Filter → Prop
  | read {d : Document} {f : Filter} :
      Document.wellFormed d = true → parse d = .ok f → Accumulated f
  | merge {f g : Filter} : Accumulated f → Accumulated g → Accumulated (f.merge g)

theorem ReadInvariant.every_of_accumulated {P : List (String × Predicate) → Prop}
    (hP : ReadInvariant P) {f : Filter} (h : f.Accumulated) : f.Every P := by
  induction h with
  | read hd hparse => exact hP.every_of_parse hparse hd
  | merge _ _ ihf ihg => exact hP.every_merge ihf ihg

/-- No path reads as an operator. -/
def PlainFields (fields : List (String × Predicate)) : Prop :=
  ∀ k ∈ Entries.keys fields, isOperator k = false

/-- A call may ask something of a field with the name of an operator, but reading does
not. -/
theorem readInvariant_plain : ReadInvariant PlainFields where
  nil := by simp [PlainFields, Entries.keys]
  read := by
    intro fields key v p h _ hop _ _ _ k hk
    rw [Entries.keys_append] at hk
    rcases List.mem_append.mp hk with hk | hk
    · exact h k hk
    · obtain rfl := List.mem_singleton.mp hk
      exact hop
  merge := fun _ _ ha hb k hk => (mem_keys_foldl_mergeField.mp hk).elim (ha k) (hb k)

section Rename

variable {rename : String → String}

theorem readable_of_plain {fields : List (String × Predicate)}
    (hrename : ∀ path, path.isEmpty = false → isOperator path = false →
      (rename path).isEmpty = false ∧ isOperator (rename path) = false)
    (h : (DistinctFields fields ∧ LiteralFields fields) ∧ PlainFields fields) :
    Readable rename fields := by
  obtain ⟨⟨hdistinct, hliteral⟩, hplain⟩ := h
  refine ⟨hdistinct, hliteral, fun e he => ?_⟩
  exact hrename e.1 (hdistinct.2 e he).1 (hplain e.1 (Entries.mem_keys_of_mem he))

/-- What has been accumulated can be read back under all paths that are not empty and
no operators. -/
theorem readable_of_accumulated {f : Filter} (h : f.Accumulated)
    (hrename : ∀ path, path.isEmpty = false → isOperator path = false →
      (rename path).isEmpty = false ∧ isOperator (rename path) = false) :
    f.Every (Readable rename) := by
  have hdistinct := fieldInvariant_distinct.every_of_accumulated h
  have hliteral := fieldInvariant_literal.every_of_accumulated h
  have hplain := readInvariant_plain.every_of_accumulated h
  exact Every.imp (fun _ => readable_of_plain hrename) f (.and f (.and f hdistinct hliteral) hplain)

theorem parse_renderWith (hinj : Function.Injective rename) {f : Filter}
    (h : f.Every (Readable rename)) : parse (f.renderWith rename) = .ok (f.renamed rename) := by
  rw [parse, parseFields_renderWith hinj f {} h, behind_empty]

end Rename

mutual

/-- Paths that stay as they are. -/
theorem renamed_id (f : Filter) : f.renamed id = f := by
  cases f with
  | mk fields allOf anyOf script =>
    rw [renamed, renamedEach_id allOf, renamedEach_id anyOf]
    simp

theorem renamedEach_id (fs : List Filter) : renamedEach id fs = fs := by
  cases fs with
  | nil => rfl
  | cons f rest => rw [renamedEach, renamed_id f, renamedEach_id rest]

end

/-! ### Paths below a root -/

theorem toList_below (root path : String) :
    (root ++ "." ++ path).toList = root.toList ++ '.' :: path.toList := by
  simp [String.toList_append]

theorem below_injective (root : String) :
    Function.Injective fun path : String => root ++ "." ++ path := by
  intro a b h
  have hchars := congrArg String.toList h
  rw [toList_below, toList_below] at hchars
  exact String.toList_injective (List.cons.inj (List.append_cancel_left hchars)).2

theorem isEmpty_below (root path : String) : (root ++ "." ++ path).isEmpty = false := by
  rw [← Bool.not_eq_true, String.isEmpty_iff, ← String.toList_inj, toList_below]
  simp

/-- What stands below a root begins as the root does. -/
theorem isOperator_below {root : String} (h : isOperator root = false) (path : String) :
    isOperator (root ++ "." ++ path) = false := by
  rw [isOperator, toList_below]
  cases hroot : root.toList with
  | nil => rfl
  | cons c rest => simpa [isOperator, hroot] using h

/-- Writing and reading are inverse on all that has been accumulated. -/
theorem parse_render {f : Filter} (h : f.Accumulated) :
    parse f.render = .ok f ∧
      ∀ root, isOperator root = false →
        parse (f.renderUnder root) = .ok (f.renamed fun path => root ++ "." ++ path) := by
  refine ⟨?_, fun root hroot => ?_⟩
  · have hread : f.Every (Readable id) := readable_of_accumulated h fun _ hne hop => ⟨hne, hop⟩
    rw [render, parse_renderWith Function.injective_id hread, renamed_id]
  · have hread : f.Every (Readable fun path => root ++ "." ++ path) :=
      readable_of_accumulated h fun path _ _ =>
        ⟨isEmpty_below root path, isOperator_below hroot path⟩
    exact parse_renderWith (below_injective root) hread

/-- A predicate of operators, operands and a script. -/
def rankedPredicate : Document :=
  [("rank", .document [("$gt", .int32 1), ("$exists", .int64 1)]),
    ("$or", .array [.document [("title", .document [("$options", .string "i"),
      ("$regex", .string "^a")])], .document [("$where", .string "this.rank")]])]

/-- The filter that is read from it. -/
def rankedFilter : Filter where
  fields := [("rank", .conditions [.compare .gt (.int32 1), .present true])]
  anyOf := [.condition "title" (.pattern "^a" "i"), { script := some "this.rank" }]

/-- A predicate that shares a field with `rankedPredicate`. -/
def pinnedPredicate : Document :=
  [("meta", .document [("pin", .bool true)]), ("rank", .document [("$in", .array [.int32 3])])]

/-- The filter that is read from it. -/
def pinnedFilter : Filter where
  fields := [("meta", .equals (.document [("pin", .bool true)])),
    ("rank", .conditions [.oneOf [.int32 3]])]

/-- What is read of the two is merged, with both conditions on the field that they share. -/
theorem parse_render_rankedPredicate :
    parse rankedPredicate = .ok rankedFilter ∧ parse pinnedPredicate = .ok pinnedFilter ∧
      (rankedFilter.merge pinnedFilter).Accumulated ∧ isOperator "data" = false ∧
      parse (rankedFilter.merge pinnedFilter).render = .ok (rankedFilter.merge pinnedFilter) ∧
      parse ((rankedFilter.merge pinnedFilter).renderUnder "data") =
        .ok ((rankedFilter.merge pinnedFilter).renamed fun path => "data" ++ "." ++ path) := by
  have hranked : parse rankedPredicate = .ok rankedFilter := rfl
  have hpinned : parse pinnedPredicate = .ok pinnedFilter := rfl
  have hmerged : (rankedFilter.merge pinnedFilter).Accumulated :=
    .merge (.read (by decide) hranked) (.read (by decide) hpinned)
  have hdata : isOperator "data" = false := by decide
  obtain ⟨hread, hunder⟩ := parse_render hmerged
  exact ⟨hranked, hpinned, hmerged, hdata, hread, hunder "data" hdata⟩

end ContentQuery.Filter
