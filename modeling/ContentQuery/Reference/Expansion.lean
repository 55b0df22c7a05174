/-
Expanding references.

Documents are expanded level by level.  The documents of a level are its
frontier; the targets of all their eligible descriptors are looked up at once,
and those that are found are the next level.  A node is one embedded occurrence
of a document: it knows its owner, and a document that several descriptors name
becomes several nodes.

A target that is already on the way from the root to its owner stays a
descriptor, so that a cycle ends where it closes.  A target that is not found is
left out.  When the levels are done, every payload gets its targets in place of
its descriptors, from the last node to the first.
-/
import ContentQuery.Reference.Batch
import ContentQuery.Reference.Mode
import ContentQuery.Reference.Scan

namespace ContentQuery.Reference

/-- The field of an embedded document that names its content type. -/
def embeddedContentType : String := "_content_type_uid"

/-- What stands for one uid of a descriptor. -/
inductive Target
  | node (i : Nat)
  /-- a descriptor, as it is left -/
  | unexpanded (raw : Value)

/-- The targets that replace one descriptor of a payload. -/
structure Attachment where
  segments : List Segment
  toMany : Bool
  targets : List Target

/-- One occurrence of a document. -/
structure Node where
  key : Option Key
  payload : Document
  /-- the node that holds this one; a root has none -/
  parent : Option Nat
  /-- the dotted path from the root -/
  path : String
  attachments : List Attachment := []
  deriving Inhabited

/-- How references are expanded. -/
structure Expansion where
  collection : String
  /-- the projection of referenced documents -/
  projection : Document
  mode : ExpandMode
  maxDepth : Nat
  /-- the locale of owners that have no key -/
  locale : String

/-- The nodes so far, and the payloads found so far. -/
structure Arena where
  nodes : Array Node
  fetched : List (Key × Document) := []

/-! ### Owners -/

/-- A node and the nodes above it, the nearest first. -/
def lineage (nodes : Array Node) : Nat → Nat → List Node
  | 0, _ => []
  | fuel + 1, i =>
    match nodes[i]? with
    | none => []
    | some node =>
      match node.parent with
      | none => [node]
      | some p => node :: lineage nodes fuel p

/-- Whether a key is that of a node or of one above it. -/
def onPath (nodes : Array Node) (i : Nat) (k : Key) : Bool :=
  (lineage nodes nodes.size i).any fun node => node.key == some k

/-- The node of a document that no other one holds. -/
def Node.root (raw : Document) : Node where
  key := keyOf? raw
  payload := payloadOf raw
  parent := none
  path := ""

/-! ### One level -/

/-- A descriptor that is to be expanded, with the keys that it names. -/
structure Edge where
  owner : Nat
  location : Location
  path : String
  keys : List Key

namespace Expansion

/-- The locale of a node. -/
def ownerLocale (x : Expansion) (node : Node) : String :=
  match node.key with
  | some k => k.locale
  | none => x.locale

/-- The eligible descriptor at a location of a node. -/
def edge? (x : Expansion) (owner : Nat) (node : Node) (l : Location) : Option Edge :=
  let path := Path.join node.path l.path
  if x.mode.eligible path then
    some ⟨owner, l, path, l.descriptor.keys (x.ownerLocale node)⟩
  else none

/-- The eligible descriptors of a node, in document order. -/
def edges (x : Expansion) (nodes : Array Node) (owner : Nat) : List Edge :=
  match nodes[owner]? with
  | some node => (scan node.payload).filterMap (x.edge? owner node)
  | none => []

/-- The keys of an edge that have to be looked up. -/
def missing (a : Arena) (e : Edge) : List Key :=
  e.keys.filter fun k => (Entries.get? a.fetched k).isNone && !onPath a.nodes e.owner k

/-- The keys that a level looks up, in increasing order. -/
def wanted (a : Arena) (es : List Edge) : List Key :=
  Ordered.ofList Key.compare (es.flatMap (missing a))

end Expansion

/-- A level in the making: the nodes, the indices of the new ones, and the log. -/
structure Growth where
  nodes : Array Node
  next : List Nat := []
  log : List LogLine := []

/-- The log line of a target that closes a cycle. -/
def cycleNote (k : Key) (path : String) : LogLine :=
  let key := k.text
  ⟨.warn, s!"reference cycle at {key} ({path}): left unexpanded"⟩

/-- What a descriptor leaves of a target that closes a cycle. -/
def Edge.left (e : Edge) (k : Key) : Value :=
  if e.location.descriptor.toMany then e.location.descriptor.narrowed k.uid else e.location.raw

/-- The node of a found target. -/
def Edge.target (e : Edge) (k : Key) (payload : Document) : Node where
  key := some k
  payload := Entries.insert payload embeddedContentType (.string (publicUid k.contentType))
  parent := some e.owner
  path := e.path

/-- Give an edge its next target. -/
def attachKey (fetched : List (Key × Document)) (e : Edge) (acc : Growth × List Target)
    (k : Key) : Growth × List Target :=
  let (g, targets) := acc
  if onPath g.nodes e.owner k then
    ({ g with log := g.log ++ [cycleNote k e.path] }, targets ++ [.unexpanded (e.left k)])
  else
    match Entries.get? fetched k with
    | none => (g, targets)
    | some payload =>
      let i := g.nodes.size
      ({ g with nodes := g.nodes.push (e.target k payload), next := g.next ++ [i] },
        targets ++ [.node i])

/-- Give an edge all its targets, and attach them to its owner. -/
def attachEdge (fetched : List (Key × Document)) (g : Growth) (e : Edge) : Growth :=
  let (g, targets) := e.keys.foldl (attachKey fetched e) (g, [])
  let attachment : Attachment := ⟨e.location.segments, e.location.descriptor.toMany, targets⟩
  { g with
    nodes := g.nodes.modify e.owner fun node =>
      { node with attachments := node.attachments ++ [attachment] } }

namespace Expansion

/-- Expand the nodes of a frontier.  The result has the indices of the new
nodes. -/
def level (x : Expansion) (a : Arena) (frontier : List Nat) : Plan (Arena × List Nat) := do
  let es := frontier.flatMap (x.edges a.nodes)
  let found ← fetch x.collection (some x.projection) (wanted a es)
  let fetched := Entries.insertAll a.fetched found
  let g := es.foldl (attachEdge fetched) { nodes := a.nodes }
  Plan.notes g.log
  pure ({ nodes := g.nodes, fetched }, g.next)

/-- Expand at most a number of levels.  The result has the frontier behind the
last of them. -/
def levels (x : Expansion) : Nat → Arena → List Nat → Plan (Arena × List Nat)
  | 0, a, frontier => pure (a, frontier)
  | n + 1, a, frontier =>
    if frontier.isEmpty then pure (a, frontier)
    else do
      let (a, next) ← x.level a frontier
      x.levels n a next

end Expansion

/-! ### Assembly -/

/-- Take a payload out, leaving an empty one. -/
def takePayload (payloads : Array Document) (i : Nat) : Document × Array Document :=
  (payloads[i]?.getD [], payloads.modify i fun _ => [])

/-- The values of some targets; the payloads of nodes are taken. -/
def takeTargets (payloads : Array Document) : List Target → List Value × Array Document
  | [] => ([], payloads)
  | .node i :: rest =>
    let (d, payloads) := takePayload payloads i
    let (vs, payloads) := takeTargets payloads rest
    (.document d :: vs, payloads)
  | .unexpanded raw :: rest =>
    let (vs, payloads) := takeTargets payloads rest
    (raw :: vs, payloads)

/-- The value that replaces a descriptor: all targets, or the only one. -/
def Attachment.value (a : Attachment) (targets : List Value) : Value :=
  if a.toMany then .array targets else targets.headD .null

/-- Put the targets of an attachment into a payload. -/
def attach (acc : Document × Array Document) (a : Attachment) : Document × Array Document :=
  let (values, payloads) := takeTargets acc.2 a.targets
  (setAt acc.1 a.segments (a.value values), payloads)

/-- Complete the payload of a node. -/
def complete (nodes : Array Node) (payloads : Array Document) (i : Nat) : Array Document :=
  match nodes[i]? with
  | none => payloads
  | some node =>
    let (d, payloads) := node.attachments.foldl attach (takePayload payloads i)
    payloads.modify i fun _ => d

/-- The completed payloads of the first nodes, which are the roots.  Targets
stand behind their owners, so going backwards completes them first. -/
def assemble (nodes : Array Node) (roots : Nat) : List Document :=
  let payloads := (List.range nodes.size).reverse.foldl (complete nodes) (nodes.map Node.payload)
  payloads.toList.take roots

/-- The log line of an expansion that has used up its depth. -/
def depthNote (maxDepth : Nat) : LogLine :=
  ⟨.warn, s!"reference expansion stopped at depth limit {maxDepth}"⟩

/-- The payloads of raw documents, with their references expanded. -/
def Expansion.resolve (x : Expansion) (docs : List Document) : Plan (List Document) :=
  let roots : Arena := { nodes := (docs.map Node.root).toArray }
  if x.mode = .none then pure (assemble roots.nodes docs.length)
  else do
    let (a, frontier) ← x.levels x.maxDepth roots (List.range docs.length)
    Plan.notes (if frontier.isEmpty then [] else [depthNote x.maxDepth])
    pure (assemble a.nodes docs.length)

end ContentQuery.Reference
