import ZipCache.SortedArray

/-!
# The large-object tree (`bplustree_lo.c`)

Nodes live in a heap indexed by `NodeId`; `sub_ptr[i]` and `parent` are ids into it, so two
slots may name one node, as the C pointers may. `tree->list[i]` is the list of ids linked on
that level, in link order. Each operation returns `Option`: `none` is a failed `assert`, an
id with nothing behind it, a write past `tree->list[BPLUS_MAX_LEVEL - 1]`, or a walk longer
than the heap.

`parent_node_build` and `non_leaf_insert` call each other once per level climbed. The model
cuts `non_leaf_insert` into the step it does on one node (`nonLeafInsertStep`) and lets
`parentNodeBuild` carry the climb, with fuel.
-/

namespace ZipCache.LoTier

/-- `BPLUS_MAX_ENTRIES`. -/
def bplusMaxEntries : Nat := 64

/-- `BPLUS_MAX_LEVEL`. -/
def bplusMaxLevel : Nat := 10

/-- `BPLUS_MIN_ORDER`. -/
def bplusMinOrder : Nat := 3

/-- `BPLUS_MAX_ORDER`. -/
def bplusMaxOrder : Nat := 64

/-- `struct object_pointer`. -/
structure ObjectPointer where
  lba : BitVec 64
  size : BitVec 32
  checksum : BitVec 32
deriving DecidableEq, Repr

/-- `INVALID_OBJECT_POINTER`. -/
def invalidObjectPointer : ObjectPointer := ⟨0#64, 0#32, 0#32⟩

/-- `object_pointer_is_valid`. -/
def objectPointerIsValid (p : ObjectPointer) : Bool :=
  p.lba != 0#64 || p.size != 0#32

/-- A node's address. -/
abbrev NodeId := Nat

/-- `struct bplus_leaf_lo`: `key[i]` and `data[i]` for `i < entries`, as pairs. -/
structure Leaf where
  parent : Option NodeId
  entries : List (Int × ObjectPointer)
deriving DecidableEq, Repr

/-- `struct bplus_non_leaf_lo`: `key[0 .. children - 1)` and `sub_ptr[0 .. children)`. -/
structure NonLeaf where
  parent : Option NodeId
  key : List Int
  subPtr : List NodeId
deriving DecidableEq, Repr

/-- A heap cell: the `type` tag and the record behind it. -/
inductive Node where
  | leaf (leaf : Leaf)
  | nonLeaf (node : NonLeaf)
deriving DecidableEq, Repr

namespace Node

/-- The `parent` field common to both records. -/
def parent : Node → Option NodeId
  | .leaf record => record.parent
  | .nonLeaf record => record.parent

/-- The node with its `parent` field overwritten. -/
def withParent (newParent : Option NodeId) : Node → Node
  | .leaf record => .leaf { record with parent := newParent }
  | .nonLeaf record => .nonLeaf { record with parent := newParent }

end Node

/-- `struct bplus_tree_lo`. `next_lba`, `total_objects` and `total_size` are read only by
`bplus_tree_lo_allocate_object` and the statistics printer, which are not modelled. -/
structure BplusTreeLo where
  order : Nat
  entries : Int
  level : Nat
  root : Option NodeId
  list : List (List NodeId)
  heap : List Node
deriving DecidableEq, Repr

/-- Insert `new` right after the first `anchor` of a list. -/
def insertAfter (anchor new : NodeId) : List NodeId → List NodeId
  | [] => []
  | x :: rest => if x = anchor then x :: new :: rest else x :: insertAfter anchor new rest

/-- Insert `new` right before the first `anchor` of a list. -/
def insertBefore (anchor new : NodeId) : List NodeId → List NodeId
  | [] => []
  | x :: rest => if x = anchor then new :: x :: rest else x :: insertBefore anchor new rest

namespace BplusTreeLo

/-- The node at an address. -/
def node? (tree : BplusTreeLo) (id : NodeId) : Option Node :=
  tree.heap[id]?

/-- Overwrite the node at an address. -/
def setNode (tree : BplusTreeLo) (id : NodeId) (node : Node) : BplusTreeLo :=
  { tree with heap := tree.heap.set id node }

/-- `calloc` a node: it takes the next free address. -/
def alloc (tree : BplusTreeLo) (node : Node) : BplusTreeLo × NodeId :=
  ({ tree with heap := tree.heap ++ [node] }, tree.heap.length)

/-- `child->parent = parent`. -/
def setParent (tree : BplusTreeLo) (id : NodeId) (parent : Option NodeId) :
    Option BplusTreeLo := do
  let node ← tree.node? id
  pure (tree.setNode id (node.withParent parent))

/-- `list_add(&new->link, &anchor->link)`: link `new` right after `anchor`. -/
def linkAfter (tree : BplusTreeLo) (anchor new : NodeId) : BplusTreeLo :=
  { tree with list := tree.list.map (insertAfter anchor new) }

/-- `__list_add(&new->link, anchor->link.prev, &anchor->link)`: link before `anchor`. -/
def linkBefore (tree : BplusTreeLo) (anchor new : NodeId) : BplusTreeLo :=
  { tree with list := tree.list.map (insertBefore anchor new) }

/-- `list_add(&new->link, &tree->list[level])`: link `new` first on a level. -/
def linkHead (tree : BplusTreeLo) (level : Nat) (new : NodeId) : Option BplusTreeLo :=
  if level < bplusMaxLevel then
    some { tree with list := tree.list.modify (new :: ·) level }
  else none

end BplusTreeLo

/-- The keys of a leaf, `key[0 .. entries)`. -/
def Leaf.keys (leaf : Leaf) : List Int :=
  leaf.entries.map Prod.fst

/-- `leaf_simple_insert`. -/
def leafSimpleInsert (entries : List (Int × ObjectPointer)) (key : Int) (p : ObjectPointer)
    (insert : Nat) : List (Int × ObjectPointer) :=
  insertAt entries insert (key, p)

/-- `leaf_split_left`, called with `insert < split`: the new left sibling takes
`key[0 .. split - 1)` with the new entry placed at `insert`, and the old leaf keeps the
rest. Returns (left sibling, old leaf). -/
def leafSplitLeft (entries : List (Int × ObjectPointer)) (key : Int) (p : ObjectPointer)
    (insert : Nat) : List (Int × ObjectPointer) × List (Int × ObjectPointer) :=
  let split := (entries.length + 1) / 2
  (insertAt (entries.take (split - 1)) insert (key, p), entries.drop (split - 1))

/-- `leaf_split_right`, called with `insert ≥ split`: the old leaf keeps `key[0 .. split)`
and the new right sibling takes the rest with the new entry at `insert - split`. Returns
(old leaf, right sibling). -/
def leafSplitRight (entries : List (Int × ObjectPointer)) (key : Int) (p : ObjectPointer)
    (insert : Nat) : List (Int × ObjectPointer) × List (Int × ObjectPointer) :=
  let split := (entries.length + 1) / 2
  (entries.take split, insertAt (entries.drop split) (insert - split) (key, p))

/-- `non_leaf_simple_insert`: shift `key[insert ..]` and `sub_ptr[insert + 1 ..]` up one
slot and store `key` and `r_ch`. The left child is only re-parented, never stored:
`sub_ptr[insert]` keeps whatever it held. -/
def nonLeafSimpleInsert (tree : BplusTreeLo) (id : NodeId) (node : NonLeaf)
    (lCh rCh : NodeId) (key : Int) (insert : Nat) : Option BplusTreeLo := do
  let tree := tree.setNode id (.nonLeaf
    { node with key := insertAt node.key insert key,
                subPtr := insertAt node.subPtr (insert + 1) rCh })
  let tree ← tree.setParent rCh (some id)
  tree.setParent lCh (some id)

/-- Re-parent every id of a list. -/
def setParents (parent : NodeId) : BplusTreeLo → List NodeId → Option BplusTreeLo
  | tree, [] => some tree
  | tree, child :: rest => do
      let tree ← tree.setParent child (some parent)
      setParents parent tree rest

/-- What one call of `non_leaf_insert` leaves: done, or a split whose halves and separator
`parent_node_build` must now link into the parent. -/
inductive ClimbStep where
  | done (tree : BplusTreeLo)
  | split (tree : BplusTreeLo) (left right : NodeId) (key : Int)

/-- `non_leaf_insert` on one node, up to its closing `parent_node_build` call. -/
def nonLeafInsertStep (tree : BplusTreeLo) (id : NodeId) (lCh rCh : NodeId) (key : Int) :
    Option ClimbStep := do
  let .nonLeaf node ← tree.node? id | none
  let children := node.subPtr.length
  let found := keyBinarySearch node.key (children - 1 : Nat) key
  if 0 ≤ found then none
  let insert := (-found - 1).toNat
  if children = tree.order then
    let split := children / 2
    let (tree, sibling) := tree.alloc (.nonLeaf ⟨none, [], []⟩)
    if insert < split then
      let splitKey := node.key.getD (split - 1) 0
      let sibSub := node.subPtr.drop split
      let tree := tree.setNode sibling (.nonLeaf ⟨none, node.key.drop split, sibSub⟩)
      let tree ← setParents sibling tree sibSub
      let tree ← nonLeafSimpleInsert tree id
        { node with key := node.key.take (split - 1), subPtr := node.subPtr.take split }
        lCh rCh key insert
      pure (.split (tree.linkAfter id sibling) id sibling splitKey)
    else
      let splitKey := node.key.getD split 0
      let newInsert := insert - (split + 1)
      let (sibKey, sibSub) :=
        if split + 1 ≤ insert then
          (insertAt (node.key.drop (split + 1)) newInsert key,
            insertAt (node.subPtr.drop (split + 1)) (newInsert + 1) rCh)
        else (node.key.drop (split + 1), node.subPtr.drop (split + 1))
      let tree := tree.setNode sibling (.nonLeaf ⟨none, sibKey, sibSub⟩)
      let tree ← setParents sibling tree sibSub
      let tree := tree.setNode id (.nonLeaf
        { node with key := node.key.take split, subPtr := node.subPtr.take (split + 1) })
      pure (.split (tree.linkAfter id sibling) id sibling splitKey)
  else
    let tree ← nonLeafSimpleInsert tree id node lCh rCh key insert
    pure (.done tree)

/-- `parent_node_build(tree, left, right, key, level)`: a new root over two parentless
nodes, else an insertion into the parent of the one that has one, climbing while
`non_leaf_insert` splits. `level` is only passed along by the C and is left out. -/
def parentNodeBuild : Nat → BplusTreeLo → NodeId → NodeId → Int → Option BplusTreeLo
  | 0, _, _, _, _ => none
  | fuel + 1, tree, left, right, key => do
      let leftNode ← tree.node? left
      let rightNode ← tree.node? right
      match leftNode.parent, rightNode.parent with
      | none, none =>
          let (tree, parent) := tree.alloc (.nonLeaf ⟨none, [key], [left, right]⟩)
          let tree ← tree.setParent left (some parent)
          let tree ← tree.setParent right (some parent)
          let tree ← tree.linkHead (tree.level + 1) parent
          pure { tree with root := some parent, level := tree.level + 1 }
      | some parent, none =>
          let tree ← tree.setParent right (some parent)
          match ← nonLeafInsertStep tree parent left right key with
          | .done tree => pure tree
          | .split tree left right key => parentNodeBuild fuel tree left right key
      | _, some parent =>
          let tree ← tree.setParent left (some parent)
          match ← nonLeafInsertStep tree parent left right key with
          | .done tree => pure tree
          | .split tree left right key => parentNodeBuild fuel tree left right key

/-- The descent shared by `bplus_tree_lo_get`, `leaf_locate` and `bplus_tree_lo_put`:
binary-search the separators, go to `sub_ptr[i + 1]` on a hit and `sub_ptr[-i - 1]` on a
miss. -/
def leafLocate (tree : BplusTreeLo) (key : Int) : Nat → NodeId → Option (NodeId × Leaf)
  | 0, _ => none
  | fuel + 1, id =>
      match tree.node? id with
      | some (.leaf leaf) => some (id, leaf)
      | some (.nonLeaf node) =>
          let i := keyBinarySearch node.key (node.subPtr.length - 1 : Nat) key
          let next := if 0 ≤ i then node.subPtr.getD (i + 1).toNat 0
            else node.subPtr.getD (-i - 1).toNat 0
          leafLocate tree key fuel next
      | none => none

/-- The leaf a key routes to, when the walk from the root ends. -/
def BplusTreeLo.locate (tree : BplusTreeLo) (key : Int) : Option (NodeId × Leaf) :=
  tree.root.bind (leafLocate tree key tree.heap.length)

/-- `leaf_insert`: update in place, insert, or split a full leaf and build its parent. -/
def leafInsert (tree : BplusTreeLo) (id : NodeId) (leaf : Leaf) (key : Int)
    (p : ObjectPointer) : Option BplusTreeLo :=
  let found := keyBinarySearch leaf.keys leaf.entries.length key
  if 0 ≤ found then
    some (tree.setNode id (.leaf { leaf with
      entries := leaf.entries.set found.toNat (key, p) }))
  else
    let insert := (-found - 1).toNat
    if leaf.entries.length = bplusMaxEntries then
      let split := (bplusMaxEntries + 1) / 2
      let (tree, sibling) := tree.alloc (.leaf ⟨none, []⟩)
      let fuel := tree.heap.length
      if insert < split then
        let (left, right) := leafSplitLeft leaf.entries key p insert
        let tree := (tree.setNode sibling (.leaf ⟨none, left⟩)).setNode id
          (.leaf { leaf with entries := right })
        let tree := { tree.linkBefore id sibling with entries := tree.entries + 1 }
        parentNodeBuild fuel tree sibling id (right.headD (0, invalidObjectPointer)).1
      else
        let (left, right) := leafSplitRight leaf.entries key p insert
        let tree := (tree.setNode id (.leaf { leaf with entries := left })).setNode sibling
          (.leaf ⟨none, right⟩)
        let tree := { tree.linkAfter id sibling with entries := tree.entries + 1 }
        parentNodeBuild fuel tree id sibling (right.headD (0, invalidObjectPointer)).1
    else
      some { tree.setNode id (.leaf { leaf with
          entries := leafSimpleInsert leaf.entries key p insert }) with
        entries := tree.entries + 1 }

/-- `bplus_tree_lo_put`: `-1` for an invalid pointer, else `0` and the updated tree. -/
def bplusTreeLoPut (tree : BplusTreeLo) (key : Int) (p : ObjectPointer) :
    Option (Int × BplusTreeLo) :=
  if !objectPointerIsValid p then some (-1, tree)
  else
    match tree.root with
    | some _ => do
        let (id, leaf) ← tree.locate key
        let tree ← leafInsert tree id leaf key p
        pure (0, tree)
    | none => do
        let (tree, root) := tree.alloc (.leaf ⟨none, [(key, p)]⟩)
        let tree ← tree.linkHead tree.level root
        pure (0, { tree with root := some root, entries := tree.entries + 1 })

/-- `bplus_tree_lo_get`: the pointer stored for a key, `INVALID_OBJECT_POINTER` if none. -/
def bplusTreeLoGet (tree : BplusTreeLo) (key : Int) : Option ObjectPointer :=
  match tree.root with
  | none => some invalidObjectPointer
  | some _ => do
      let (_, leaf) ← tree.locate key
      let i := keyBinarySearch leaf.keys leaf.entries.length key
      pure (if 0 ≤ i then (leaf.entries.getD i.toNat (0, invalidObjectPointer)).2
        else invalidObjectPointer)

/-- `leaf_remove`: close the gap left by the key, or `-1` when it is absent. -/
def leafRemove (tree : BplusTreeLo) (id : NodeId) (leaf : Leaf) (key : Int) :
    Int × BplusTreeLo :=
  let pos := keyBinarySearch leaf.keys leaf.entries.length key
  if pos < 0 then (-1, tree)
  else (0, { tree.setNode id (.leaf { leaf with entries := leaf.entries.eraseIdx pos.toNat })
    with entries := tree.entries - 1 })

/-- `bplus_tree_lo_delete`. -/
def bplusTreeLoDelete (tree : BplusTreeLo) (key : Int) : Option (Int × BplusTreeLo) :=
  match tree.root with
  | none => some (-1, tree)
  | some _ => do
      let (id, leaf) ← tree.locate key
      pure (leafRemove tree id leaf key)

/-- `bplus_tree_lo_init(order)`: one empty root leaf, linked on level 0. -/
def bplusTreeLoInit (order : Nat) : Option BplusTreeLo :=
  if order < bplusMinOrder ∨ order > bplusMaxOrder then none
  else some
    { order, entries := 0, level := 1, root := some 0,
      list := [0] :: List.replicate (bplusMaxLevel - 1) [], heap := [.leaf ⟨none, []⟩] }

end ZipCache.LoTier
