/-
What a payload does not lead to.

An expansion and a reference predicate look up the keys that descriptors name, those of
the payload and those of what is found.  Where no descriptor names a content type, what
is stored under that type makes no difference to either:

* `depthFirst_congr` — two lookups that agree on all other content types give one
  expansion;
* `contentType_ne_of_targets` — the targets of a document, by path, are all of another
  content type.
-/
import ContentQuery.Proofs.DepthFirst
import ContentQuery.Proofs.Entries
import ContentQuery.Reference.SemiJoin

namespace ContentQuery.Reference

/-! ### What an expansion asks for -/

/-- No descriptor of a payload names a content type. -/
def Avoids (contentType : String) (payload : Document) : Prop :=
  ∀ l ∈ scan payload, l.descriptor.referenceTo ≠ contentType

theorem contentType_of_mem_keys {r : Descriptor} {locale : String} {k : Key}
    (h : k ∈ r.keys locale) : k.contentType = r.referenceTo := by
  obtain ⟨uid, -, rfl⟩ := List.mem_map.mp h
  rfl

/-- A string that is put into a payload is no descriptor. -/
theorem mem_scan_of_mem_scan_insert {payload : List (String × Value)} {key text : String}
    {l : Location} (h : l ∈ scan (Entries.insert payload key (.string text))) :
    l ∈ scan payload := by
  induction payload with
  | nil =>
    have hnone : scan [(key, .string text)] = [] := by simp [scan, scanValue]
    rw [Entries.insert, Entries.upsert, hnone] at h
    cases h
  | cons e rest ih =>
    obtain ⟨k, v⟩ := e
    rw [Entries.insert, Entries.upsert] at h
    split at h
    · rw [scan, scanValue, List.map_nil, List.nil_append] at h
      · rw [scan]
        exact List.mem_append_right _ h
      all_goals simp
    · rw [scan] at h ⊢
      exact (List.mem_append.mp h).elim (List.mem_append_left _)
        fun h => List.mem_append_right _ (ih h)

/-- Two lookups that agree on all but one content type give one expansion of a payload,
as long as nothing that is found leads to that type. -/
theorem depthFirst_congr {x : Expansion} {look look' : Key → Option Document} {avoided : String}
    (hlook : ∀ k, k.contentType ≠ avoided → look k = look' k)
    (hfound : ∀ k found, k.contentType ≠ avoided → look k = some found → Avoids avoided found)
    (n : Nat) (above : List Key) (path : String) {payload : Document}
    (hpayload : Avoids avoided payload) :
    x.depthFirst look n above path payload = x.depthFirst look' n above path payload := by
  induction n generalizing above path payload with
  | zero => rfl
  | succ n ih =>
    rw [Expansion.depthFirst, Expansion.depthFirst]
    refine List.foldl_ext _ _ _ fun d l hl => ?_
    dsimp only
    split
    · refine congrArg (setAt d l.segments) ?_
      rw [Location.inPlace, Location.inPlace]
      have hvalues : ∀ k ∈ l.descriptor.keys ((above.head?.map Key.locale).getD x.locale),
          l.inPlace? look above (fun k payload =>
            x.depthFirst look n (k :: above) (Path.join path l.path) payload) k =
          l.inPlace? look' above (fun k payload =>
            x.depthFirst look' n (k :: above) (Path.join path l.path) payload) k := by
        intro k hk
        have hct : k.contentType ≠ avoided := contentType_of_mem_keys hk ▸ hpayload l hl
        rw [Location.inPlace?, Location.inPlace?, ← hlook k hct]
        split
        · rfl
        · cases hfind : look k with
          | none => rfl
          | some found =>
            have hinserted : Avoids avoided (Entries.insert found embeddedContentType
                (.string (publicUid k.contentType))) :=
              fun l' hl' => hfound k found hct hfind l' (mem_scan_of_mem_scan_insert hl')
            rw [Option.map_some, Option.map_some, ih _ _ hinserted]
      rw [List.filterMap_congr hvalues]
    · rfl

theorem depthFirst_of_scan_eq_nil {x : Expansion} {look : Key → Option Document} {payload : Document}
    (h : scan payload = []) (n : Nat) (above : List Key) (path : String) :
    x.depthFirst look n above path payload = payload := by
  cases n with
  | zero => rfl
  | succ n => rw [Expansion.depthFirst, h, List.foldl_nil]

/-! ### What a semi-join asks for -/

theorem targetsByPath_eq (locale : String) (raw : Document) :
    targetsByPath locale raw = (scan (payloadOf raw)).foldl (fun acc l =>
      Entries.upsert acc l.path fun present =>
        present.getD [] ++ l.descriptor.keys (((keyOf? raw).map Key.locale).getD locale)) [] := by
  unfold targetsByPath payloadOf
  cases keyOf? raw <;> cases Document.documentAt? raw Wrapper.payload <;> rfl

/-- The targets that some descriptors are put under are those that they name. -/
theorem forall_targets {P : Key → Prop} {locale : String} {ls : List Location}
    (h : ∀ l ∈ ls, ∀ k ∈ l.descriptor.keys locale, P k) {acc : List (String × List Key)}
    (hacc : ∀ p keys, Entries.get? acc p = some keys → ∀ k ∈ keys, P k) {p : String}
    {keys : List Key}
    (hkeys : Entries.get? (ls.foldl (fun acc l => Entries.upsert acc l.path fun present =>
      present.getD [] ++ l.descriptor.keys locale) acc) p = some keys) :
    ∀ k ∈ keys, P k := by
  induction ls generalizing acc with
  | nil => exact hacc p keys hkeys
  | cons l rest ih =>
    refine ih (fun l' hl' => h l' (List.mem_cons_of_mem l hl')) (fun q qkeys hq k hk => ?_) hkeys
    by_cases hpath : l.path = q
    · subst hpath
      rw [Entries.get?_upsert_self] at hq
      obtain rfl := Option.some.inj hq
      rcases List.mem_append.mp hk with hk | hk
      · cases hold : Entries.get? acc l.path with
        | none =>
          rw [hold] at hk
          cases hk
        | some old =>
          rw [hold] at hk
          exact hacc l.path old hold k hk
      · exact h l List.mem_cons_self k hk
    · rw [Entries.get?_upsert_of_ne _ hpath] at hq
      exact hacc q qkeys hq k hk

/-- A target is of a content type that a descriptor of its owner names. -/
theorem contentType_ne_of_targets {locale avoided : String} {raw : Document}
    (h : Avoids avoided (payloadOf raw)) {p : String} {keys : List Key}
    (hkeys : Entries.get? (targetsByPath locale raw) p = some keys) :
    ∀ k ∈ keys, k.contentType ≠ avoided := by
  rw [targetsByPath_eq] at hkeys
  refine forall_targets (fun l hl k hk => ?_) (by simp) hkeys
  exact contentType_of_mem_keys hk ▸ h l hl

end ContentQuery.Reference
