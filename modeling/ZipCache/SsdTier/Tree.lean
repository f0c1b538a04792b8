import ZipCache.SsdTier.Split

/-!
# The SSD tree (`bplus_tree_ssd_put`, `bplus_tree_ssd_get`)

The only non-leaf node the tree builds is its root, a leaf-parent whose children are
super-leaves. Search routes a key by `key_binary_search` over the root's keys. Insert
always goes to the first super-leaf; when that one signals a split, the median is
promoted into the root and the insert is retried.

The retry is a recursive call. After a split the first super-leaf holds at most half of
its entries, below the `-2` threshold, so the retry returns without a second split; the
model runs the call and one retry, and yields `none` past that.
-/

namespace ZipCache.SsdTier

/-- `BPLUS_MIN_ORDER` of the SSD tree. -/
def ssdMinOrder : Int := 3

/-- `BPLUS_MAX_ORDER`. -/
def ssdMaxOrder : Int := 64

/-- `BPLUS_MAX_ENTRIES`. -/
def ssdMaxEntries : Int := 64

/-- The root: a `struct bplus_non_leaf_ssd` with `is_leaf_parent` set, holding
`children - 1` keys and `children` super-leaves. -/
structure LeafParent where
  key : List Int
  subPtr : List SuperLeaf
deriving Repr

/-- `struct bplus_tree_ssd`. The level lists stay empty: no node is ever put on them. -/
structure BplusTreeSsd where
  order : Int
  entries : Int
  level : Int
  root : Option LeafParent
  diskMgr : DiskManager

/-- `bplus_tree_ssd_init`, for a storage file that opens, of `fileSize` bytes, whose
extension does or does not succeed. -/
def bplusTreeSsdInit (order entries : Int) (fileSize : Nat) (extended : Bool) :
    Option BplusTreeSsd :=
  if order < ssdMinOrder ∨ ssdMaxOrder < order then none
  else if entries ≤ 0 ∨ ssdMaxEntries < entries then none
  else some ⟨order, entries, 0, none, diskManagerInit fileSize extended⟩

/-- The child of the root that `bplus_tree_search` routes a key to. -/
def LeafParent.route (root : LeafParent) (key : Int) : Int :=
  let i := keyBinarySearch root.key (root.subPtr.length - 1) key
  if 0 ≤ i then i + 1 else -i - 1

/-- `bplus_tree_search`: the value found in the super-leaf the key is routed to, or `-1`.
The search may load a sub-page into that super-leaf's cache. -/
def bplusTreeSearch (tree : BplusTreeSsd) (key : Int) : Int × BplusTreeSsd :=
  match tree.root with
  | none => (-1, tree)
  | some root =>
      let idx := root.route key
      if idx < root.subPtr.length then
        match root.subPtr[idx.toNat]? with
        | some superLeaf =>
            let (value, dm, superLeaf) := superLeafSearchHashed tree.diskMgr superLeaf key
            (value, { tree with
              diskMgr := dm,
              root := some { root with subPtr := root.subPtr.set idx.toNat superLeaf } })
        | none => (-1, tree)
      else (-1, tree)

/-- `update_parent_with_promoted_key`: insert the median and the right sibling into the
root after the keys below the median; `none` (the `-1`) with no sibling or a full root. -/
def updateParentWithPromotedKey (tree : BplusTreeSsd) (promoted : PromotedKey) :
    Option BplusTreeSsd :=
  match promoted.rightSibling, tree.root with
  | some right, some root =>
      let insertPos :=
        ((root.key.take (root.subPtr.length - 1)).takeWhile (promoted.key > ·)).length
      if ssdMaxOrder ≤ root.subPtr.length then none
      else
        let root : LeafParent :=
          ⟨insertAt root.key insertPos promoted.key, insertAt root.subPtr (insertPos + 1) right⟩
        some { tree with root := some root }
  | _, _ => none

/-- `bplus_tree_insert`, with `rounds` calls left: the first call and its retries. -/
def bplusTreeInsert : Nat → BplusTreeSsd → Int → Int → Option (Int × BplusTreeSsd)
  | 0, _, _, _ => none
  | rounds + 1, tree, key, data =>
      match tree.root with
      | none =>
          let tree := { tree with root := some ⟨[], []⟩, level := 1 }
          let (result, dm, superLeaf) := superLeafInsertHashed tree.diskMgr superLeafCreate key data
          let tree := { tree with diskMgr := dm }
          if result ≠ 0 then some (-1, tree)
          else some (0, { tree with root := some ⟨[], [superLeaf]⟩ })
      | some root =>
          match root.subPtr with
          | [] => some (-1, tree)
          | superLeaf :: rest =>
              let (result, dm, superLeaf) := superLeafInsertHashed tree.diskMgr superLeaf key data
              let tree := { tree with diskMgr := dm, root := some ⟨root.key, superLeaf :: rest⟩ }
              if result = -2 then
                let (promoted, dm, superLeaf) := splitSuperLeaf tree.diskMgr superLeaf
                let tree := { tree with diskMgr := dm, root := some ⟨root.key, superLeaf :: rest⟩ }
                match promoted.rightSibling with
                | none => some (-1, tree)
                | some _ =>
                    match updateParentWithPromotedKey tree promoted with
                    | none => some (-1, tree)
                    | some tree => bplusTreeInsert rounds tree key data
              else some (result, tree)

/-- `bplus_tree_ssd_put`: a value of `0` is refused (deletion is not implemented). -/
def bplusTreeSsdPut (tree : BplusTreeSsd) (key data : Int) : Option (Int × BplusTreeSsd) :=
  if data = 0 then some (-1, tree) else bplusTreeInsert 2 tree key data

/-- `bplus_tree_ssd_get`. -/
def bplusTreeSsdGet (tree : BplusTreeSsd) (key : Int) : Int × BplusTreeSsd :=
  bplusTreeSearch tree key

end ZipCache.SsdTier
