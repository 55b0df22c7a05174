/-
Lists of entries in insertion order.

A list of key-value pairs is read as a map that remembers the order in which
its keys came in: documents, the field predicates of a filter and every index
of this library are such lists.  A key names its first entry.

* `get?_insert_self`, `get?_insert_of_ne` — inserting sets one key and leaves
  the others alone;
* `keys_insert` — a key that is present keeps its place, a new one goes last;
* `get?_erase_self`, `get?_erase_of_ne` — erasing removes one key and touches no
  other.
-/
namespace ContentQuery.Entries

variable {κ α : Type} [DecidableEq κ]

/-- The value under `k`. -/
def get? : List (κ × α) → κ → Option α
  | [], _ => none
  | (k', v) :: rest, k => if k' = k then some v else get? rest k

/-- The keys, in order. -/
def keys (es : List (κ × α)) : List κ := es.map Prod.fst

/-- Set the value under `k` to what `f` makes of the present one; an absent key
goes to the end. -/
def upsert : List (κ × α) → κ → (Option α → α) → List (κ × α)
  | [], k, f => [(k, f none)]
  | (k', v) :: rest, k, f =>
    if k' = k then (k', f (some v)) :: rest else (k', v) :: upsert rest k f

/-- Put `v` under `k`: in place when the key is present, else at the end. -/
def insert (es : List (κ × α)) (k : κ) (v : α) : List (κ × α) :=
  upsert es k fun _ => v

/-- Change the value under `k`, if there is one. -/
def modify : List (κ × α) → κ → (α → α) → List (κ × α)
  | [], _, _ => []
  | (k', v) :: rest, k, f => if k' = k then (k', f v) :: rest else (k', v) :: modify rest k f

/-- Drop what is under `k`; the others keep their order. -/
def erase (es : List (κ × α)) (k : κ) : List (κ × α) :=
  es.filter fun e => e.1 ≠ k

/-- Insert the second list's entries into the first, one after the other. -/
def insertAll (es new : List (κ × α)) : List (κ × α) :=
  new.foldl (fun acc e => insert acc e.1 e.2) es

/-! ### What each operation does to look-ups and keys -/

@[simp] theorem get?_nil (k : κ) : get? ([] : List (κ × α)) k = none := rfl

theorem get?_upsert_self (es : List (κ × α)) (k : κ) (f : Option α → α) :
    get? (upsert es k f) k = some (f (get? es k)) := by
  induction es with
  | nil => simp [upsert, get?]
  | cons e rest ih =>
    obtain ⟨k', v⟩ := e
    by_cases h : k' = k <;> simp [upsert, get?, h, ih]

theorem get?_upsert_of_ne (es : List (κ × α)) {k j : κ} (h : k ≠ j) (f : Option α → α) :
    get? (upsert es k f) j = get? es j := by
  induction es with
  | nil => simp [upsert, get?, h]
  | cons e rest ih =>
    obtain ⟨k', v⟩ := e
    by_cases hk : k' = k
    · subst hk; simp [upsert, get?, h]
    · by_cases hj : k' = j <;> simp [upsert, get?, hk, hj, ih, h.symm]

@[simp] theorem get?_insert_self (es : List (κ × α)) (k : κ) (v : α) :
    get? (insert es k v) k = some v := get?_upsert_self es k _

theorem get?_insert_of_ne (es : List (κ × α)) {k j : κ} (h : k ≠ j) (v : α) :
    get? (insert es k v) j = get? es j := get?_upsert_of_ne es h _

theorem keys_upsert (es : List (κ × α)) (k : κ) (f : Option α → α) :
    keys (upsert es k f) = if k ∈ keys es then keys es else keys es ++ [k] := by
  induction es with
  | nil => simp [upsert, keys]
  | cons e rest ih =>
    obtain ⟨k', v⟩ := e
    by_cases h : k' = k
    · subst h; simp [upsert, keys]
    · have h' : k ≠ k' := fun e => h e.symm
      simp only [keys] at ih
      by_cases hm : k ∈ rest.map Prod.fst <;> simp_all [upsert, keys]

theorem keys_insert (es : List (κ × α)) (k : κ) (v : α) :
    keys (insert es k v) = if k ∈ keys es then keys es else keys es ++ [k] :=
  keys_upsert es k _

theorem get?_modify_self (es : List (κ × α)) (k : κ) (f : α → α) :
    get? (modify es k f) k = (get? es k).map f := by
  induction es with
  | nil => rfl
  | cons e rest ih =>
    obtain ⟨k', v⟩ := e
    by_cases h : k' = k <;> simp [modify, get?, h, ih]

theorem get?_modify_of_ne (es : List (κ × α)) {k j : κ} (h : k ≠ j) (f : α → α) :
    get? (modify es k f) j = get? es j := by
  induction es with
  | nil => rfl
  | cons e rest ih =>
    obtain ⟨k', v⟩ := e
    by_cases hk : k' = k
    · subst hk; simp [modify, get?, h]
    · by_cases hj : k' = j <;> simp [modify, get?, hk, hj, ih, h.symm]

@[simp] theorem keys_modify (es : List (κ × α)) (k : κ) (f : α → α) :
    keys (modify es k f) = keys es := by
  induction es with
  | nil => rfl
  | cons e rest ih =>
    obtain ⟨k', v⟩ := e
    by_cases h : k' = k
    · simp [modify, keys, h]
    · simpa [modify, keys, h] using ih

@[simp] theorem keys_erase (es : List (κ × α)) (k : κ) :
    keys (erase es k) = (keys es).filter (· ≠ k) := by
  simp [keys, erase, List.filter_map, Function.comp_def]

theorem get?_erase_self (es : List (κ × α)) (k : κ) : get? (erase es k) k = none := by
  induction es with
  | nil => rfl
  | cons e rest ih =>
    obtain ⟨k', v⟩ := e
    by_cases hk : k' = k
    · simpa [erase, hk] using ih
    · simpa [erase, get?, hk] using ih

theorem get?_erase_of_ne (es : List (κ × α)) {k j : κ} (h : k ≠ j) :
    get? (erase es k) j = get? es j := by
  induction es with
  | nil => rfl
  | cons e rest ih =>
    obtain ⟨k', v⟩ := e
    by_cases hk : k' = k
    · subst hk
      simpa [erase, get?, h] using ih
    · by_cases hj : k' = j
      · simp [erase, get?, hj, h.symm]
      · simpa [erase, get?, hk, hj] using ih

theorem get?_eq_none_iff {es : List (κ × α)} {k : κ} : get? es k = none ↔ k ∉ keys es := by
  induction es with
  | nil => simp [get?, keys]
  | cons e rest ih =>
    obtain ⟨k', v⟩ := e
    simp only [keys] at ih
    by_cases h : k' = k
    · subst h; simp [get?, keys]
    · have h' : k ≠ k' := fun e => h e.symm
      simp [get?, keys, h, h', ih]

end ContentQuery.Entries
