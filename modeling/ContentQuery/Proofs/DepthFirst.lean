/-
Expansion as a recursion on documents.

`Expansion.depthFirst` expands a payload from its root down, and looks every key
up when it meets it.  It has no cache, no batches and no arena:

* `completed_eq_depthFirst` — after the levels every node has the payload that the
  recursion makes of it;
* `resolve_eq_unfold` — so the expansion of some documents, level by level, is the
  recursion on each of them.
-/
import ContentQuery.Pattern.Reading
import ContentQuery.Proofs.Assembly
import ContentQuery.Proofs.Levels

namespace ContentQuery.Reference

/-- What stands in place of one key of a descriptor: the descriptor itself when
the key is above, nothing when it is not found, else the document. -/
def Location.inPlace? (l : Location) (look : Key → Option Document) (above : List Key)
    (inside : Key → Document → Document) (k : Key) : Option Value :=
  if k ∈ above then
    some (if l.descriptor.toMany then l.descriptor.narrowed k.uid else l.raw)
  else
    (look k).map fun payload => .document <| inside k <|
      Entries.insert payload embeddedContentType (.string (publicUid k.contentType))

/-- What stands in place of a descriptor with some keys. -/
def Location.inPlace (l : Location) (look : Key → Option Document) (above : List Key)
    (inside : Key → Document → Document) (keys : List Key) : Value :=
  let values := keys.filterMap (l.inPlace? look above inside)
  if l.descriptor.toMany then .array values else values.headD .null

namespace Expansion

/-- A payload with the references of the next `n` levels in place of their
descriptors.  The keys `above` are those from the document up to its root, and
`path` is where it stands. -/
def depthFirst (x : Expansion) (look : Key → Option Document) :
    Nat → List Key → String → Document → Document
  | 0, _, _, payload => payload
  | n + 1, above, path, payload =>
    (scan payload).foldl (fun d l =>
      let path := Path.join path l.path
      if x.mode.eligible path then
        let keys := l.descriptor.keys ((above.head?.map Key.locale).getD x.locale)
        setAt d l.segments
          (l.inPlace look above (fun k payload => x.depthFirst look n (k :: above) path payload) keys)
      else d) payload

/-- The payload of a document with its references expanded. -/
def unfold (x : Expansion) (m : MemoryStore) (raw : Document) : Document :=
  x.depthFirst (x.look m) x.maxDepth (keyOf? raw).toList "" (payloadOf raw)

end Expansion

variable {m : MemoryStore} {x : Expansion} {docs : List Document} {n b : Nat} {a : Arena}

/-- What the recursion makes of a node of an arena. -/
def Expansion.valueOf (x : Expansion) (look : Key → Option Document) (nodes : Array Node)
    (i : Nat) : Document :=
  match nodes[i]? with
  | some node =>
    x.depthFirst look (x.maxDepth - depth nodes i) (ancestors nodes i) node.path node.payload
  | none => []

/-- The targets of an edge stand for what the recursion puts in place of its
keys. -/
theorem Filled.map_value {look : Key → Option Document} {nodes : Array Node} {e : Edge}
    {ks : List Key} {ts : List Target} (hfirst : ParentsFirst nodes) {n : Nat}
    (hdepth : x.maxDepth - depth nodes e.owner = n + 1) (hf : Filled look nodes e ks ts) :
    ts.map (Target.value (x.valueOf look nodes)) =
      ks.filterMap (e.location.inPlace? look (ancestors nodes e.owner) fun k payload =>
        x.depthFirst look n (k :: ancestors nodes e.owner) e.path payload) := by
  -- a key comes to its target by the two questions that the recursion asks of it
  induction hf with
  | nil => rfl
  | cycle hon _ ih =>
    have hmem := onPath_iff.mp hon
    rw [List.map_cons, ih, List.filterMap_cons, Location.inPlace?, if_pos hmem]
    rfl
  | missing hon hlook _ ih =>
    have hmem := onPath_eq_false_iff.mp hon
    rw [ih, List.filterMap_cons, Location.inPlace?, if_neg hmem, hlook]
    rfl
  | found hon hlook hnode _ ih =>
    have hmem := onPath_eq_false_iff.mp hon
    have hup := hfirst.ancestors_child hnode rfl
    have hdown := hfirst.depth_child hnode rfl
    rw [List.map_cons, ih, List.filterMap_cons, Location.inPlace?, if_neg hmem, hlook]
    simp only [Option.map_some, Target.value, Expansion.valueOf, hnode]
    rw [hup, hdown, Nat.sub_add_eq, hdepth]
    rfl

/-- Putting in the targets of some edges of one owner, one edge after the other. -/
theorem foldl_put_eq {look : Key → Option Document} {nodes : Array Node} {i : Nat}
    (hfirst : ParentsFirst nodes) {n : Nat} (hdepth : x.maxDepth - depth nodes i = n + 1)
    {es : List Edge} (howner : ∀ e ∈ es, e.owner = i) {atts : List Attachment}
    (hall : List.Forall₂ (Attached look nodes) es atts) (d : Document) :
    atts.foldl (Attachment.put (x.valueOf look nodes)) d =
      es.foldl (fun d e => setAt d e.location.segments
        (e.location.inPlace look (ancestors nodes i) (fun k payload =>
          x.depthFirst look n (k :: ancestors nodes i) e.path payload) e.keys)) d := by
  induction hall generalizing d with
  | nil => rfl
  | @cons e att _ _ hatt _ ih =>
    obtain rfl := howner e List.mem_cons_self
    have hvalues := hatt.filled.map_value hfirst hdepth
    have hput : att.put (x.valueOf look nodes) d = setAt d e.location.segments
        (e.location.inPlace look (ancestors nodes e.owner) (fun k payload =>
          x.depthFirst look n (k :: ancestors nodes e.owner) e.path payload) e.keys) := by
      rw [Attachment.put, Attachment.value, hatt.segments, hatt.toMany, hvalues]
      rfl
    rw [List.foldl_cons, List.foldl_cons, hput, ih fun e' he' => howner e' (List.mem_cons_of_mem _ he')]

/-- The locale of a node that is not left open is that of the first key above. -/
theorem ownerLocale_eq (h : Staged m x docs n b a) {i : Nat} {node : Node}
    (hi : a.nodes[i]? = some node) :
    x.ownerLocale node = ((ancestors a.nodes i).head?.map Key.locale).getD x.locale := by
  cases hp : node.parent with
  | none =>
    rw [h.parentsFirst.ancestors_root hi hp, Expansion.ownerLocale]
    cases node.key <;> rfl
  | some p =>
    obtain ⟨k, hkey, -⟩ := h.child i node p hi hp
    rw [h.parentsFirst.ancestors_child hi hp, Expansion.ownerLocale, hkey]
    rfl

/-- After the levels every node has the payload that the recursion makes of it. -/
theorem completed_eq_depthFirst (h : Staged m x docs n b a) (hn : n ≤ x.maxDepth)
    (hend : frontierFrom b a = [] ∨ n = x.maxDepth) (i : Nat) (node : Node)
    (hi : a.nodes[i]? = some node) :
    node.completed (x.valueOf (x.look m) a.nodes) = x.valueOf (x.look m) a.nodes i := by
  obtain ⟨hlt, -⟩ := Array.getElem?_eq_some_iff.mp hi
  simp only [Expansion.valueOf, hi]
  by_cases hb : i < b
  · -- a node that is done has an attachment for each of its edges, in their order
    obtain ⟨hdepth, hall, -⟩ := h.expanded i node hi hb
    obtain ⟨k, hk⟩ : ∃ k, x.maxDepth - depth a.nodes i = k + 1 :=
      ⟨x.maxDepth - depth a.nodes i - 1, by omega⟩
    have hedges : x.edges a.nodes i = (scan node.payload).filterMap (x.edge? i node) := by
      simp only [Expansion.edges, hi]
    rw [Node.completed, foldl_put_eq h.parentsFirst hk (fun e he => (x.owner_of_mem_edges he).1)
      hall, hk, Expansion.depthFirst, hedges, List.foldl_filterMap]
    refine congrArg (fun f => List.foldl f _ _) (funext fun d => funext fun l => ?_)
    rw [Expansion.edge?, ownerLocale_eq h hi]
    by_cases hpath : x.mode.eligible (Path.join node.path l.path) = true
    · simp only [hpath, if_true]
    · simp only [hpath, if_false, Bool.false_eq_true]
  · -- a node that still waits has used up the levels
    obtain ⟨hdepth, hempty⟩ := h.waiting i node hi (by omega)
    have hfrontier : frontierFrom b a ≠ [] :=
      List.ne_nil_of_mem ((mem_frontierFrom h.le_size i).mpr ⟨by omega, hlt⟩)
    have hmax := hend.resolve_left hfrontier
    rw [Node.completed, hempty, List.foldl_nil, hdepth, hmax, Nat.sub_self, Expansion.depthFirst]

theorem forest_of_staged (h : Staged m x docs n b a) : Forest a.nodes := by
  intro i node hi
  by_cases hb : i < b
  · obtain ⟨-, hall, hnodup⟩ := h.expanded i node hi hb
    refine ⟨hnodup, fun j hj => ?_⟩
    obtain ⟨e, he, child, hchild, hparent⟩ := Attached.forall₂_parent_eq hall j hj
    rw [(x.owner_of_mem_edges he).1] at hparent
    exact ⟨child, hchild, hparent⟩
  · obtain ⟨-, hempty⟩ := h.waiting i node hi (by omega)
    simp [hempty, kids]

/-- The completed roots of an arena whose levels are done. -/
theorem assemble_of_staged (h : Staged m x docs n b a) (hn : n ≤ x.maxDepth)
    (hend : frontierFrom b a = [] ∨ n = x.maxDepth) :
    assemble a.nodes docs.length = docs.map (x.unfold m) := by
  have hroot (i : Nat) (hi : i < docs.length) :
      ∃ atts, a.nodes[i]? = some { Node.root docs[i] with attachments := atts } :=
    h.root i docs[i] (List.getElem?_eq_getElem hi)
  rw [assemble_eq h.parentsFirst (forest_of_staged h)
    (fun i node hi => completed_eq_depthFirst h hn hend i node hi)]
  · refine List.ext_getElem (by simp) fun i hi _ => ?_
    have hi' : i < docs.length := by simpa using hi
    obtain ⟨atts, hnode⟩ := hroot i hi'
    simp only [List.getElem_map, List.getElem_range, Expansion.valueOf, hnode]
    rw [h.parentsFirst.depth_root hnode rfl, h.parentsFirst.ancestors_root hnode rfl]
    rfl
  · intro i hi
    obtain ⟨atts, hnode⟩ := hroot i hi
    exact ⟨_, hnode, rfl⟩

/-- Without eligible references nothing is expanded. -/
theorem unfold_of_mode_none (hmode : x.mode = .none) (raw : Document) :
    x.unfold m raw = payloadOf raw := by
  rw [Expansion.unfold]
  cases x.maxDepth with
  | zero => rfl
  | succ n => simp [Expansion.depthFirst, hmode, ExpandMode.eligible]

/-- What is done beyond the levels. -/
theorem resolve_eq_bind (hmode : x.mode ≠ .none) (docs : List Document) :
    x.resolve docs =
      (x.levels x.maxDepth (rootArena docs) (frontierFrom 0 (rootArena docs))).bind fun r =>
        (Plan.notes (if r.2.isEmpty then [] else [depthNote x.maxDepth])).bind fun _ =>
          pure (assemble r.1.nodes docs.length) := by
  simp [Expansion.resolve, hmode, rootArena, frontierFrom, List.range_eq_range']

theorem outcome_resolve [PatternLanguage] (m : MemoryStore) (x : Expansion) (docs : List Document)
    (hp : Projection.OnlyPayload x.projection) :
    (m.run (x.resolve docs)).outcome = .ok (docs.map (x.unfold m)) := by
  by_cases hmode : x.mode = .none
  · -- the roots alone are what no levels at all make of them
    have h : Staged m { x with maxDepth := 0 } docs 0 0 (rootArena docs) := staged_rootArena ..
    have hroots := assemble_of_staged h (Nat.le_refl 0) (.inr rfl)
    have hplan : x.resolve docs = pure (assemble (rootArena docs).nodes docs.length) := by
      simp [Expansion.resolve, hmode, rootArena]
    rw [hplan, hroots]
    refine congrArg Except.ok (List.map_congr_left fun raw _ => ?_)
    rw [unfold_of_mode_none hmode]
    rfl
  · obtain ⟨n, b, a, calls, log, hrun, h, -, hle, hend⟩ :=
      staged_levels hp (staged_rootArena m x docs) x.maxDepth
    rw [Nat.zero_add] at hle hend
    rw [resolve_eq_bind hmode, m.run_bind_of_ok hrun, m.run_bind_of_ok (m.run_notes _)]
    exact congrArg Except.ok (assemble_of_staged h hle hend)

/-- The descriptor of a page. -/
def pageLink (uid : String) : Value :=
  .document [(Field.referenceTo, .string "page"), (Field.values, .string uid)]

/-- The stored form of a page that names another one. -/
def linkedPage (uid next : String) : Document :=
  StoredDocument.toDocument ⟨⟨"page", "en", uid⟩, [("next", pageLink next), ("draft", .null)]⟩

/-- A store of two pages. -/
def pagePair : MemoryStore where
  collections := [("pages", [linkedPage "a" "b", linkedPage "b" "a"])]

/-- The expansion of all references in it, without the drafts. -/
def pagePairExpansion : Expansion where
  collection := "pages"
  projection := [("data.draft", .int32 0)]
  mode := .all
  maxDepth := 10
  locale := "en"

end ContentQuery.Reference
