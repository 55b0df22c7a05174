/-
More about lists of entries.

* `mem_upsert` — where the entries of a changed list come from;
* `nodup_keys_upsert`, `get?_insertAll` — distinct keys stay distinct, and of two
  entries of one key the one that is inserted counts;
* `insert_of_notMem` — a new key goes to the end;
* `get?_gather`, `mem_gather` — what is under each key when a list is put together by
  keys.
-/
import ContentQuery.Entries
import Mathlib.Data.List.Induction
import Mathlib.Data.List.Nodup
import Mathlib.Tactic.SplitIfs

namespace ContentQuery.Entries

variable {κ α : Type}

theorem mem_keys_of_mem {es : List (κ × α)} {e : κ × α} (h : e ∈ es) : e.1 ∈ keys es :=
  List.mem_map.mpr ⟨e, h, rfl⟩

@[simp] theorem keys_append (a b : List (κ × α)) : keys (a ++ b) = keys a ++ keys b :=
  List.map_append

variable [DecidableEq κ]

theorem get?_append (a b : List (κ × α)) (k : κ) :
    get? (a ++ b) k = (get? a k).or (get? b k) := by
  induction a with
  | nil => rfl
  | cons e rest ih =>
    obtain ⟨j, v⟩ := e
    rw [List.cons_append, get?, get?]
    by_cases h : j = k
    · rw [if_pos h, if_pos h]
      rfl
    · rw [if_neg h, if_neg h, ih]

/-- An entry of a list in which a key was changed. -/
theorem mem_upsert {es : List (κ × α)} {k : κ} {f : Option α → α} {e : κ × α}
    (h : e ∈ upsert es k f) :
    e ∈ es ∨ e = (k, f none) ∨ ∃ v, (k, v) ∈ es ∧ e = (k, f (some v)) := by
  induction es with
  | nil => exact .inr (.inl (List.mem_singleton.mp h))
  | cons first rest ih =>
    obtain ⟨j, v⟩ := first
    rw [upsert] at h
    split at h
    · rename_i hj
      subst hj
      rcases List.mem_cons.mp h with rfl | h
      · exact .inr (.inr ⟨v, List.mem_cons_self, rfl⟩)
      · exact .inl (List.mem_cons_of_mem _ h)
    · rcases List.mem_cons.mp h with rfl | h
      · exact .inl List.mem_cons_self
      · rcases ih h with hold | hnew | ⟨w, hw, heq⟩
        · exact .inl (List.mem_cons_of_mem _ hold)
        · exact .inr (.inl hnew)
        · exact .inr (.inr ⟨w, List.mem_cons_of_mem _ hw, heq⟩)

theorem mem_insert {es : List (κ × α)} {k : κ} {v : α} {e : κ × α} (h : e ∈ insert es k v) :
    e ∈ es ∨ e = (k, v) := by
  rcases mem_upsert h with hold | hnew | ⟨_, -, hnew⟩
  · exact .inl hold
  · exact .inr hnew
  · exact .inr hnew

theorem mem_keys_upsert {es : List (κ × α)} {k j : κ} {f : Option α → α} :
    j ∈ keys (upsert es k f) ↔ j ∈ keys es ∨ j = k := by
  rw [keys_upsert]
  split
  · rename_i hk
    exact ⟨.inl, fun h => h.elim id fun heq => heq ▸ hk⟩
  · rw [List.mem_append, List.mem_singleton]

theorem mem_keys_insertAll {es new : List (κ × α)} {k : κ} :
    k ∈ keys (insertAll es new) ↔ k ∈ keys es ∨ k ∈ keys new := by
  induction new generalizing es with
  | nil => simp [insertAll, keys]
  | cons e rest ih =>
    have hstep : insertAll es (e :: rest) = insertAll (insert es e.1 e.2) rest := rfl
    have hkeys : keys (e :: rest) = e.1 :: keys rest := rfl
    rw [hstep, ih, insert, mem_keys_upsert, hkeys, List.mem_cons, or_assoc]

/-- A new key goes to the end. -/
theorem insert_of_notMem {es : List (κ × α)} {k : κ} (h : k ∉ keys es) (v : α) :
    insert es k v = es ++ [(k, v)] := by
  induction es with
  | nil => rfl
  | cons e rest ih =>
    obtain ⟨j, w⟩ := e
    obtain ⟨hj, hrest⟩ := not_or.mp (fun hmem => h (List.mem_cons.mpr hmem))
    have hne : ¬ j = k := fun heq => hj heq.symm
    have ih' := ih hrest
    unfold insert at ih' ⊢
    rw [upsert, if_neg hne, ih', List.cons_append]

/-- Putting under a key what is there already changes nothing. -/
theorem insert_of_get? {es : List (κ × α)} {k : κ} {v : α} (h : get? es k = some v) :
    insert es k v = es := by
  induction es with
  | nil => cases h
  | cons e rest ih =>
    obtain ⟨j, w⟩ := e
    rw [get?] at h
    unfold insert at ih ⊢
    rw [upsert]
    split_ifs at h ⊢ with hj
    · rw [Option.some.inj h]
    · rw [ih h]

theorem nodup_keys_upsert {es : List (κ × α)} (h : (keys es).Nodup) (k : κ)
    (f : Option α → α) : (keys (upsert es k f)).Nodup := by
  rw [keys_upsert]
  split
  · exact h
  · rename_i hk
    rw [← List.concat_eq_append]
    exact List.Nodup.concat hk h

/-- Of what is under a key in two lists, the one that is inserted counts. -/
theorem get?_insertAll (es : List (κ × α)) {new : List (κ × α)} (h : (keys new).Nodup) (k : κ) :
    get? (insertAll es new) k = (get? new k).or (get? es k) := by
  induction new generalizing es with
  | nil => simp [insertAll]
  | cons e rest ih =>
    obtain ⟨j, v⟩ := e
    obtain ⟨hj, hrest⟩ := List.nodup_cons.mp h
    have hstep : insertAll es ((j, v) :: rest) = insertAll (insert es j v) rest := rfl
    rw [hstep, ih _ hrest, get?]
    by_cases hk : j = k
    · subst hk
      have hnone : get? rest j = none := get?_eq_none_iff.mpr hj
      simp [hnone]
    · rw [get?_insert_of_ne _ hk, if_neg hk]

/-- New entries with distinct new keys go to the end, in order. -/
theorem insertAll_of_disjoint {es new : List (κ × α)} (h : (keys new).Nodup)
    (hdisj : ∀ k ∈ keys new, k ∉ keys es) : insertAll es new = es ++ new := by
  induction new generalizing es with
  | nil => simp [insertAll]
  | cons e rest ih =>
    obtain ⟨j, v⟩ := e
    obtain ⟨hj, hrest⟩ := List.nodup_cons.mp h
    have hstep : insertAll es ((j, v) :: rest) = insertAll (insert es j v) rest := rfl
    rw [hstep, insert_of_notMem (hdisj j List.mem_cons_self), ih hrest, List.append_assoc]
    · rfl
    · intro k hk hmem
      rw [keys_append] at hmem
      rcases List.mem_append.mp hmem with hmem | hmem
      · exact hdisj k (List.mem_cons_of_mem _ hk) hmem
      · obtain rfl := List.mem_singleton.mp hmem
        exact hj hk

theorem get?_eq_some_of_mem {es : List (κ × α)} (h : (keys es).Nodup) {e : κ × α} (he : e ∈ es) :
    get? es e.1 = some e.2 := by
  induction es with
  | nil => cases he
  | cons first rest ih =>
    obtain ⟨j, v⟩ := first
    obtain ⟨hj, hrest⟩ := List.nodup_cons.mp h
    rw [get?]
    rcases List.mem_cons.mp he with rfl | hmem
    · exact if_pos rfl
    · have hne : ¬ j = e.1 := by
        rintro rfl
        exact absurd (mem_keys_of_mem hmem) hj
      rw [if_neg hne, ih hrest hmem]

theorem mem_of_get?_eq_some {es : List (κ × α)} {k : κ} {v : α} (h : get? es k = some v) :
    (k, v) ∈ es := by
  induction es with
  | nil => cases h
  | cons first rest ih =>
    obtain ⟨j, w⟩ := first
    rw [get?] at h
    split at h
    · rename_i hj
      obtain rfl := Option.some.inj h
      exact hj ▸ List.mem_cons_self
    · exact List.mem_cons_of_mem _ (ih h)

/-- Where the entries stand does not matter to look-ups, if the keys are distinct. -/
theorem get?_eq_of_perm {es es' : List (κ × α)} (hperm : es.Perm es') (h : (keys es).Nodup)
    (k : κ) : get? es k = get? es' k := by
  have h' : (keys es').Nodup := (hperm.map Prod.fst).nodup_iff.mp h
  refine Option.ext fun v => ⟨fun hv => ?_, fun hv => ?_⟩
  · exact get?_eq_some_of_mem h' (hperm.mem_iff.mp (mem_of_get?_eq_some hv))
  · exact get?_eq_some_of_mem h (hperm.mem_iff.mpr (mem_of_get?_eq_some hv))

/-! ### Lists put together by keys -/

section Gather

variable {β : Type} (key : β → κ) (init : α) (add : α → β → α)

/-- Put the members of a list together under their keys, one after the other. -/
def gather (xs : List β) : List (κ × α) :=
  xs.foldl (fun acc x => upsert acc (key x) fun present => add (present.getD init) x) []

theorem gather_concat (xs : List β) (x : β) :
    gather key init add (xs ++ [x]) =
      upsert (gather key init add xs) (key x) fun present => add (present.getD init) x :=
  List.foldl_concat ..

theorem nodup_keys_gather (xs : List β) : (keys (gather key init add xs)).Nodup := by
  induction xs using List.reverseRecOn with
  | nil => exact .nil
  | append_singleton xs x ih =>
    rw [gather_concat]
    exact nodup_keys_upsert ih _ _

/-- Under a key stand the members of that key, in order. -/
theorem get?_gather (xs : List β) (k : κ) :
    get? (gather key init add xs) k =
      if k ∈ xs.map key then some ((xs.filter fun x => key x = k).foldl add init) else none := by
  induction xs using List.reverseRecOn with
  | nil => rfl
  | append_singleton xs x ih =>
    rw [gather_concat]
    by_cases hk : key x = k
    · subst hk
      have hlast : key x ∈ (xs ++ [x]).map key := by simp
      have hbefore : (get? (gather key init add xs) (key x)).getD init =
          (xs.filter fun y => key y = key x).foldl add init := by
        rw [ih]
        split
        · rfl
        · rename_i hnone
          have hempty : (xs.filter fun y => key y = key x) = [] := by
            simpa [List.filter_eq_nil_iff] using hnone
          rw [hempty]
          rfl
      rw [get?_upsert_self, hbefore, if_pos hlast, List.filter_append, List.foldl_append]
      simp
    · rw [get?_upsert_of_ne _ hk, ih]
      simp [List.filter_append, hk, Ne.symm hk]

variable {key init add}

/-- The entries of a list that is put together by keys. -/
theorem mem_gather {xs : List β} {e : κ × α} :
    e ∈ gather key init add xs ↔
      e.1 ∈ xs.map key ∧ e.2 = (xs.filter fun x => key x = e.1).foldl add init := by
  have hget := get?_gather key init add xs e.1
  constructor
  · intro he
    rw [get?_eq_some_of_mem (nodup_keys_gather key init add xs) he] at hget
    split at hget
    · rename_i hkey
      exact ⟨hkey, Option.some.inj hget⟩
    · cases hget
  · rintro ⟨hkey, hvalue⟩
    rw [if_pos hkey, ← hvalue] at hget
    exact mem_of_get?_eq_some hget

end Gather

end ContentQuery.Entries
