/-
What an expansion embeds, and where.

The documents that references reach within the depth limit are those that an expansion embeds,
each with its own references expanded as far as the limit allows.  They stand in what comes
out:

* `embeds_iff_reaches` — what an expansion embeds is what its references reach;
* `valueAt_depthFirst` — in the place of an eligible descriptor stands what its keys lead to;
* `Reaches.exists_way` — so there is a way from the expanded payload to every document that is
  reached;
* `exists_way_of_embeds` — and to every document that is embedded.
-/
import ContentQuery.Proofs.AnyStore
import ContentQuery.Proofs.Replacements
import ContentQuery.Proofs.Truncation

namespace ContentQuery

/-! ### Documents that are projected -/

theorem Document.wellFormed_erase {d : Document} (h : Document.wellFormed d = true) (k : String) :
    Document.wellFormed (Entries.erase d k) = true := by
  obtain ⟨hkeys, hfields⟩ := Document.wellFormed_iff.mp h
  refine Document.wellFormed_iff.mpr ⟨?_, fun e he => hfields e (List.mem_of_mem_filter he)⟩
  rw [Entries.keys_erase]
  exact hkeys.filter _

theorem Document.wellFormed_modify {d : Document} (h : Document.wellFormed d = true) (k : String)
    {f : Value → Value} (hf : ∀ v, v.wellFormed = true → (f v).wellFormed = true) :
    Document.wellFormed (Entries.modify d k f) = true := by
  obtain ⟨hkeys, hfields⟩ := Document.wellFormed_iff.mp h
  refine Document.wellFormed_iff.mpr ⟨by rwa [Entries.keys_modify], ?_⟩
  clear h hkeys
  induction d with
  | nil => exact hfields
  | cons e rest ih =>
    obtain ⟨he, hrest⟩ := List.forall_mem_cons.mp hfields
    rw [Entries.modify]
    split
    · exact List.forall_mem_cons.mpr ⟨hf _ he, hrest⟩
    · exact List.forall_mem_cons.mpr ⟨he, ih hrest⟩

namespace Projection

theorem wellFormed_drop {d : Document} (h : Document.wellFormed d = true) (segs : List String) :
    Document.wellFormed (drop segs d) = true := by
  induction segs generalizing d with
  | nil => exact h
  | cons s rest ih =>
    cases rest with
    | nil => exact Document.wellFormed_erase h s
    | cons t rest =>
      refine Document.wellFormed_modify h s fun v hv => ?_
      cases v with
      | document sub => exact ih hv
      | array items =>
        refine Value.allWellFormed_iff.mpr (List.forall_mem_map.mpr fun item hitem => ?_)
        have hwf := Value.allWellFormed_iff.mp hv item hitem
        cases item with
        | document sub => exact ih hwf
        | _ => exact hwf
      | _ => exact hv

theorem wellFormed_trim (p : Document) {d : Document} (h : Document.wellFormed d = true) :
    Document.wellFormed (trim p d) = true := by
  have hdropped : Document.wellFormed (dropAll d (excluded p)) = true :=
    List.foldlRecOn (motive := fun d => Document.wellFormed d = true) _ _ h
      fun _ hd path _ => wellFormed_drop hd (Path.segments path)
  unfold trim
  dsimp only
  split
  · exact hdropped
  · exact Document.wellFormed_erase hdropped idKey

end Projection

namespace Reference

section

variable {x : Expansion} {m : MemoryStore} {look : Key → Option Document} {n : Nat}
  {above : List Key} {path : String} {payload : Document} {l : Location} {k : Key}

theorem wellFormed_of_look (hp : Projection.OnlyPayload x.projection)
    (hm : ∀ d ∈ m.documents x.collection, Document.wellFormed d = true) {found : Document}
    (h : x.look m k = some found) : Document.wellFormed found = true := by
  have hp' : ∀ p ∈ some x.projection, Projection.OnlyPayload p := by simpa using hp
  rw [Expansion.look, MemoryStore.payload?_eq hp'] at h
  obtain ⟨raw, hraw, rfl⟩ := Option.map_eq_some_iff.mp h
  have hmem := List.mem_of_find?_eq_some hraw
  exact wellFormed_payloadOf (Projection.wellFormed_trim x.projection (hm raw hmem))

/-! ### Ways into an expanded payload -/

theorem valueAt_append (way rest : List Segment) (v : Value) :
    valueAt (way ++ rest) v = (valueAt way v).bind (valueAt rest) := by
  induction way generalizing v with
  | nil => rfl
  | cons s way ih =>
    rw [List.cons_append, valueAt_cons, valueAt_cons s way, Option.bind_assoc]
    exact congrArg _ (funext ih)

/-- The values of some descriptors, by the ways that lead to them. -/
def byWay (ls : List Location) (val : Location → Value) (way : List Segment) : Value :=
  (ls.find? fun l => l.segments = way).elim .null val

/-- Of scattered places only one is reached by a way. -/
theorem byWay_segments {ls : List Location} (h : Scattered ls) (val : Location → Value)
    (hl : l ∈ ls) : byWay ls val l.segments = val l := by
  rw [byWay]
  cases hfind : ls.find? fun l' => l'.segments = l.segments with
  | none => exact absurd (decide_eq_true rfl) (List.find?_eq_none.mp hfind l hl)
  | some l' =>
    have hsame : l'.segments = l.segments := by simpa using List.find?_some hfind
    rw [h.eq_of_prefix (List.mem_of_find?_eq_some hfind) hl (hsame ▸ List.prefix_rfl)]
    rfl

theorem foldl_setAt_eq_putAll {ls : List Location} (h : Scattered ls) (val : Location → Value)
    (payload : Document) :
    ls.foldl (fun d l => setAt d l.segments (val l)) payload = putAll (byWay ls val) payload ls := by
  refine List.foldl_ext _ _ _ fun d l hl => ?_
  rw [byWay_segments h val hl]

/-- The descriptors of a payload that an expansion puts documents in place of. -/
def Expansion.expandable (x : Expansion) (path : String) (payload : Document) : List Location :=
  (scan payload).filter fun l => x.mode.eligible (Path.join path l.path)

/-- What the recursion puts in place of a descriptor. -/
def Expansion.replacement (x : Expansion) (look : Key → Option Document) (n : Nat)
    (above : List Key) (path : String) (l : Location) : Value :=
  l.inPlace look above
    (fun k payload => x.depthFirst look n (k :: above) (Path.join path l.path) payload)
    (l.descriptor.keys ((above.head?.map Key.locale).getD x.locale))

theorem depthFirst_succ : x.depthFirst look (n + 1) above path payload =
    (x.expandable path payload).foldl
      (fun d l => setAt d l.segments (x.replacement look n above path l)) payload := by
  rw [Expansion.depthFirst, Expansion.expandable, List.foldl_filter]
  rfl

/-- In the place of each eligible descriptor stands what its keys lead to. -/
theorem valueAt_depthFirst (hwf : Document.wellFormed payload = true)
    (hl : l ∈ x.expandable path payload) :
    valueAt l.segments (.document (x.depthFirst look (n + 1) above path payload)) =
      some (x.replacement look n above path l) := by
  have hscan : (x.expandable path payload).Sublist (scan payload) := List.filter_sublist
  have hscattered : Scattered (x.expandable path payload) := (scattered_scan hwf).sublist hscan
  have houtermost (l : Location) (hl : l ∈ x.expandable path payload) :=
    (mem_scan_iff hwf).mp (hscan.subset hl)
  have hplace (l : Location) (hl : l ∈ x.expandable path payload) :
      (valueAt l.segments (.document payload)).isSome := by
    rw [(houtermost l hl).fits.value, Option.isSome_some]
  rw [depthFirst_succ, foldl_setAt_eq_putAll hscattered,
    document_putAll hwf hscattered (fun l hl => (houtermost l hl).below) hplace,
    valueAt_replacements hscattered hl (hplace l hl), byWay_segments hscattered _ hl]

/-- A descriptor that names one document has one uid. -/
theorem exists_values_of_toOne {d : Document} {r : Descriptor}
    (h : Descriptor.ofDocument? d = some r) (hone : r.toMany = false) :
    ∃ uid, r.values = [uid] := by
  unfold Descriptor.ofDocument? at h
  split at h
  · obtain ⟨referenceTo, -, h⟩ := Option.bind_eq_some_iff.mp h
    obtain ⟨locale, -, h⟩ := Option.bind_eq_some_iff.mp h
    obtain ⟨⟨values, toMany⟩, hvalues, h⟩ := Option.bind_eq_some_iff.mp h
    obtain rfl := Option.some.inj h
    obtain rfl : toMany = false := hone
    unfold Descriptor.values? at hvalues
    split at hvalues
    · exact ⟨_, (Prod.mk.inj (Option.some.inj hvalues)).1.symm⟩
    · cases (Prod.mk.inj (Option.some.inj hvalues)).2
    · cases hvalues
  · cases h

/-- In the place of a descriptor a document is found that one of its keys leads to. -/
theorem exists_way_inPlace (hwf : Document.wellFormed payload = true) (hl : l ∈ scan payload)
    {locale : String} (hk : k ∈ l.descriptor.keys locale) (hfresh : k ∉ above) {found : Document}
    (hfound : look k = some found) (inside : Key → Document → Document) :
    ∃ way, valueAt way (l.inPlace look above inside (l.descriptor.keys locale)) =
      some (.document (inside k
        (Entries.insert found embeddedContentType (.string (publicUid k.contentType))))) := by
  have hplaced : l.inPlace? look above inside k = some (.document (inside k
      (Entries.insert found embeddedContentType (.string (publicUid k.contentType))))) := by
    rw [Location.inPlace?, if_neg hfresh, hfound, Option.map_some]
  rw [Location.inPlace]
  cases hmany : l.descriptor.toMany with
  | true =>
    have hmem := List.mem_filterMap.mpr ⟨k, hk, hplaced⟩
    obtain ⟨i, hi⟩ := List.mem_iff_getElem?.mp hmem
    exact ⟨[.index i], by rw [if_pos rfl, valueAt_index, hi]⟩
  | false =>
    obtain ⟨-, hfits, -⟩ := (mem_scan_iff hwf).mp hl
    obtain ⟨d, hd⟩ : ∃ d, Descriptor.ofDocument? d = some l.descriptor := by
      have hdescriptor := hfits.descriptor
      unfold Descriptor.ofValue? at hdescriptor
      split at hdescriptor
      · exact ⟨_, hdescriptor⟩
      · cases hdescriptor
    obtain ⟨uid, huid⟩ := exists_values_of_toOne hd hmany
    -- the one key of the descriptor is this one
    obtain ⟨uid', huid', hkey⟩ := List.mem_map.mp hk
    rw [huid, List.mem_singleton] at huid'
    have hkeys : l.descriptor.keys locale = [k] := by
      rw [Descriptor.keys, huid, ← hkey, huid', List.map_singleton]
    exact ⟨[], by rw [if_neg Bool.false_ne_true, hkeys, List.filterMap_cons_some hplaced]; rfl⟩

/-- There is a way from an expanded payload to every document that is reached within the
limit, with its own references expanded. -/
theorem Expansion.Reaches.exists_way {raw : Document} (hraw : Document.wellFormed raw = true)
    (hlook : ∀ k found, look k = some found → Document.wellFormed found = true)
    (h : x.Reaches look [raw] n above path payload) (hn : n ≤ x.maxDepth) :
    Document.wellFormed payload = true ∧
      ∃ way, valueAt way
        (.document (x.depthFirst look x.maxDepth (keyOf? raw).toList "" (payloadOf raw))) =
          some (.document (x.depthFirst look (x.maxDepth - n) above path payload)) := by
  induction h with
  | root hmem =>
    obtain rfl := List.mem_singleton.mp hmem
    exact ⟨wellFormed_payloadOf hraw, [], rfl⟩
  | @follow n above path payload found l k _ hfollows hfound ih =>
    obtain ⟨hwf, way, hway⟩ := ih (by omega)
    refine ⟨Document.wellFormed_insert_string (hlook k found hfound) _ _, ?_⟩
    obtain ⟨inner, hinner⟩ := exists_way_inPlace hwf hfollows.scanned hfollows.named
      hfollows.fresh hfound fun k payload =>
        x.depthFirst look (x.maxDepth - (n + 1)) (k :: above) (Path.join path l.path) payload
    have hleft : x.maxDepth - n = x.maxDepth - (n + 1) + 1 := by omega
    refine ⟨way ++ (l.segments ++ inner), ?_⟩
    rw [valueAt_append, hway, Option.bind_some, hleft, valueAt_append,
      valueAt_depthFirst hwf (List.mem_filter.mpr ⟨hfollows.scanned, hfollows.eligible⟩),
      Option.bind_some, Expansion.replacement, hinner]

/-! ### What is embedded -/

namespace Expansion

variable {docs : List Document} {raw d : Document}

/-- What is embedded below a document that is reached is reached further down. -/
theorem Attaches.exists_reaches {j : Nat} (h : x.Attaches look n above path payload d)
    (hreaches : x.Reaches look docs j above path payload) (hj : j + n = x.maxDepth) :
    ∃ i above path payload, i < x.maxDepth ∧ x.Reaches look docs (i + 1) above path payload ∧
      d = x.depthFirst look (x.maxDepth - (i + 1)) above path payload := by
  induction h generalizing j with
  | @here n above path payload d l k hfollows hplace =>
    rw [Location.inPlace?, if_neg hfollows.fresh] at hplace
    obtain ⟨found, hfound, hd⟩ := Option.map_eq_some_iff.mp hplace
    obtain rfl := Value.document.inj hd
    refine ⟨j, _, _, _, by omega, .follow hreaches hfollows hfound, ?_⟩
    rw [show x.maxDepth - (j + 1) = n by omega]
  | deeper hfollows hfound _ ih => exact ih (.follow hreaches hfollows hfound) (by omega)

/-- What is embedded below a document that is reached is embedded below the root. -/
theorem Reaches.attaches_root (h : x.Reaches look [raw] n above path payload)
    (hd : x.Attaches look (x.maxDepth - n) above path payload d) :
    x.Attaches look x.maxDepth (keyOf? raw).toList "" (payloadOf raw) d := by
  induction h with
  | root hmem =>
    obtain rfl := List.mem_singleton.mp hmem
    exact hd
  | @follow n _ _ _ _ _ _ _ hfollows hfound ih =>
    obtain hn | hn := Nat.lt_or_ge n x.maxDepth
    · refine ih ?_
      rw [show x.maxDepth - n = x.maxDepth - (n + 1) + 1 by omega]
      exact .deeper hfollows hfound hd
    · -- nothing is embedded beyond the limit
      rw [show x.maxDepth - (n + 1) = 0 by omega] at hd
      cases hd

/-- What an expansion embeds for a document is what its references reach within the limit,
with its own references expanded as far as that is left. -/
theorem embeds_iff_reaches : x.Embeds m raw d ↔ ∃ n above path payload, n < x.maxDepth ∧
    x.Reaches (x.look m) [raw] (n + 1) above path payload ∧
    d = x.depthFirst (x.look m) (x.maxDepth - (n + 1)) above path payload := by
  constructor
  · intro h
    exact h.exists_reaches (.root List.mem_cons_self) (Nat.zero_add _)
  · rintro ⟨n, above, path, payload, hn, hreaches, rfl⟩
    cases hreaches with
    | @follow _ above path payload found l k hreaches hfollows hfound =>
      refine hreaches.attaches_root ?_
      rw [show x.maxDepth - n = x.maxDepth - (n + 1) + 1 by omega]
      refine .here hfollows ?_
      rw [Location.inPlace?, if_neg hfollows.fresh, hfound, Option.map_some]

/-- What is embedded stands somewhere in what an expansion makes of a document. -/
theorem exists_way_of_embeds (hp : Projection.OnlyPayload x.projection)
    (hm : ∀ d ∈ m.documents x.collection, Document.wellFormed d = true)
    (hraw : Document.wellFormed raw = true) (h : x.Embeds m raw d) :
    ∃ way, valueAt way (.document (x.unfold m raw)) = some (.document d) := by
  obtain ⟨n, above, path, payload, hn, hreaches, rfl⟩ := embeds_iff_reaches.mp h
  exact (hreaches.exists_way hraw (fun _ _ => wellFormed_of_look hp hm) hn).2

end Expansion

end

end Reference

end ContentQuery
