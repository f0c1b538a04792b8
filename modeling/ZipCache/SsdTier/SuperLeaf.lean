import ZipCache.SsdTier.Disk

/-!
# Super-leaves of the SSD tree

A super-leaf groups `SUB_PAGES_PER_SUPER_LEAF` sub-pages, each in a block of its own, and
caches the ones it has touched. A key lives in the sub-page its hash names; loading that
sub-page allocates its block on first use. Inserts and deletes change only the cached copy
and mark it dirty; `super_leaf_flush_dirty` writes the dirty copies back.

`total_entries` is a counter kept beside the sub-pages: an insert adds one whether it
stored a new key or overwrote an old one.
-/

namespace ZipCache.SsdTier

/-- `struct bplus_super_leaf`. The three arrays have one slot per sub-page. The `type`
tag is read by no modelled function and is left out. -/
structure SuperLeaf where
  totalEntries : Int
  activeSubPages : Int
  nextSuperLeaf : Int
  prevSuperLeaf : Int
  subPageBlocks : List (BitVec 32)
  cachedSubPages : List (Option SubPage)
  dirtyFlags : List Bool
deriving DecidableEq, Repr

namespace SuperLeaf

/-- `sub_page_blocks[i]`. -/
def block (superLeaf : SuperLeaf) (i : Nat) : BitVec 32 :=
  superLeaf.subPageBlocks.getD i invalidBlockId

/-- `cached_sub_pages[i]`, `none` for `NULL`. -/
def cached (superLeaf : SuperLeaf) (i : Nat) : Option SubPage :=
  superLeaf.cachedSubPages.getD i none

/-- `dirty_flags[i]`. -/
def dirty (superLeaf : SuperLeaf) (i : Nat) : Bool :=
  superLeaf.dirtyFlags.getD i false

/-- `cached_sub_pages[i] = page`. -/
def setCached (superLeaf : SuperLeaf) (i : Nat) (page : Option SubPage) : SuperLeaf :=
  { superLeaf with cachedSubPages := superLeaf.cachedSubPages.set i page }

/-- `dirty_flags[i] = flag`. -/
def setDirty (superLeaf : SuperLeaf) (i : Nat) (flag : Bool) : SuperLeaf :=
  { superLeaf with dirtyFlags := superLeaf.dirtyFlags.set i flag }

@[simp]
theorem setCached_block (superLeaf : SuperLeaf) (i j : Nat) (page : Option SubPage) :
    (superLeaf.setCached i page).block j = superLeaf.block j := rfl

@[simp]
theorem setDirty_block (superLeaf : SuperLeaf) (i j : Nat) (flag : Bool) :
    (superLeaf.setDirty i flag).block j = superLeaf.block j := rfl

@[simp]
theorem setDirty_cached (superLeaf : SuperLeaf) (i j : Nat) (flag : Bool) :
    (superLeaf.setDirty i flag).cached j = superLeaf.cached j := rfl

@[simp]
theorem setCached_totalEntries (superLeaf : SuperLeaf) (i : Nat) (page : Option SubPage) :
    (superLeaf.setCached i page).totalEntries = superLeaf.totalEntries := rfl

@[simp]
theorem setDirty_totalEntries (superLeaf : SuperLeaf) (i : Nat) (flag : Bool) :
    (superLeaf.setDirty i flag).totalEntries = superLeaf.totalEntries := rfl

theorem setCached_cached (superLeaf : SuperLeaf) (i j : Nat) (page : Option SubPage) :
    (superLeaf.setCached i page).cached j =
      if i = j ∧ i < superLeaf.cachedSubPages.length then page else superLeaf.cached j := by
  simp only [cached, setCached, List.getD_eq_getElem?_getD, List.getElem?_set]
  split_ifs <;> simp_all [List.getElem?_eq_none]
  omega

theorem lt_length_of_cached {superLeaf : SuperLeaf} {i : Nat} {page : SubPage}
    (cachedPage : superLeaf.cached i = some page) : i < superLeaf.cachedSubPages.length := by
  by_contra outside
  simp [cached, List.getD_eq_getElem?_getD, List.getElem?_eq_none (Nat.le_of_not_lt outside)]
    at cachedPage

end SuperLeaf

/-- The sub-page a key belongs to: `hash_key_to_sub_page(key, SUB_PAGES_PER_SUPER_LEAF)`. -/
def subPageIndex (key : Int) : Nat :=
  hashKeyToSubPage key subPagesPerSuperLeaf

theorem subPageIndex_lt (key : Int) : subPageIndex key < subPagesPerSuperLeaf :=
  hashKeyToSubPage_lt key (by decide)

/-- `super_leaf_create`: no sub-page allocated or cached. -/
def superLeafCreate : SuperLeaf :=
  ⟨0, 0, -1, -1, List.replicate subPagesPerSuperLeaf invalidBlockId,
    List.replicate subPagesPerSuperLeaf none, List.replicate subPagesPerSuperLeaf false⟩

/-- `super_leaf_is_full`: `total_entries >= total_capacity * 0.9`. The double product
`5440 * 0.9` rounds to exactly `4896.0`, so the test is the exact comparison with nine
tenths of the capacity. -/
def superLeafIsFull (superLeaf : SuperLeaf) : Bool :=
  9 * (subPagesPerSuperLeaf * entriesPerSubPage : Int) ≤ 10 * superLeaf.totalEntries

/-- `super_leaf_load_sub_page_by_hash`: the cached sub-page of the key's slot; else a fresh
one in a newly allocated block, marked dirty; else the block's image read from disk. -/
def superLeafLoadSubPageByHash (dm : DiskManager) (superLeaf : SuperLeaf) (key : Int) :
    Option SubPage × DiskManager × SuperLeaf :=
  let idx := subPageIndex key
  match superLeaf.cached idx with
  | some subPage => (some subPage, dm, superLeaf)
  | none =>
      if superLeaf.block idx = invalidBlockId then
        let (blockId, allocator) := allocateBlock dm.allocator
        let dm := { dm with allocator := allocator }
        if blockId = invalidBlockId then (none, dm, superLeaf)
        else
          (some subPageCreate, dm,
            { (superLeaf.setCached idx (some subPageCreate)).setDirty idx true with
              subPageBlocks := superLeaf.subPageBlocks.set idx blockId,
              activeSubPages := if superLeaf.activeSubPages ≤ idx then idx + 1
                else superLeaf.activeSubPages })
      else
        let loaded := diskReadSubPage dm (superLeaf.block idx)
        (loaded, dm, superLeaf.setCached idx loaded)

/-- `super_leaf_insert_hashed`: `-2` when the key's sub-page is full and the super-leaf is
nine tenths full, `-1` when only the sub-page is full or it cannot be loaded. -/
def superLeafInsertHashed (dm : DiskManager) (superLeaf : SuperLeaf) (key data : Int) :
    Int × DiskManager × SuperLeaf :=
  let idx := subPageIndex key
  match superLeafLoadSubPageByHash dm superLeaf key with
  | (none, dm, superLeaf) => (-1, dm, superLeaf)
  | (some subPage, dm, superLeaf) =>
      if subPageIsFull subPage then
        (if superLeafIsFull superLeaf then -2 else -1, dm, superLeaf)
      else
        let (result, subPage) := subPageInsert subPage key data
        let superLeaf := superLeaf.setCached idx (some subPage)
        if result ≠ 0 then (-1, dm, superLeaf)
        else (0, dm, { superLeaf.setDirty idx true with
          totalEntries := superLeaf.totalEntries + 1 })

/-- `super_leaf_search_hashed`: the value, or `-1`. Loading the sub-page may cache it. -/
def superLeafSearchHashed (dm : DiskManager) (superLeaf : SuperLeaf) (key : Int) :
    Int × DiskManager × SuperLeaf :=
  if superLeaf.block (subPageIndex key) = invalidBlockId then (-1, dm, superLeaf)
  else
    match superLeafLoadSubPageByHash dm superLeaf key with
    | (none, dm, superLeaf) => (-1, dm, superLeaf)
    | (some subPage, dm, superLeaf) => (subPageSearch subPage key, dm, superLeaf)

/-- `super_leaf_delete_hashed`. -/
def superLeafDeleteHashed (dm : DiskManager) (superLeaf : SuperLeaf) (key : Int) :
    Int × DiskManager × SuperLeaf :=
  let idx := subPageIndex key
  if superLeaf.block idx = invalidBlockId then (-1, dm, superLeaf)
  else
    match superLeafLoadSubPageByHash dm superLeaf key with
    | (none, dm, superLeaf) => (-1, dm, superLeaf)
    | (some subPage, dm, superLeaf) =>
        let (result, subPage) := subPageDelete subPage key
        let superLeaf := superLeaf.setCached idx (some subPage)
        if result = 0 then
          (0, dm, { superLeaf.setDirty idx true with
            totalEntries := superLeaf.totalEntries - 1 })
        else (-1, dm, superLeaf)

/-- One round of `super_leaf_flush_dirty`: write slot `i` back if it is dirty and cached.
The write prepares the cached copy in place; a write that succeeds clears the flag. -/
def flushSlot (state : Int × DiskManager × SuperLeaf) (i : Nat) :
    Int × DiskManager × SuperLeaf :=
  let (flushed, dm, superLeaf) := state
  match superLeaf.dirty i, superLeaf.cached i with
  | true, some subPage =>
      let (result, dm, image) := diskWriteSubPage dm (superLeaf.block i) subPage
      let superLeaf := superLeaf.setCached i (some image)
      if result = 0 then (flushed + 1, dm, superLeaf.setDirty i false)
      else (flushed, dm, superLeaf)
  | _, _ => state

/-- `super_leaf_flush_dirty`: the number of sub-pages written. -/
def superLeafFlushDirty (dm : DiskManager) (superLeaf : SuperLeaf) :
    Int × DiskManager × SuperLeaf :=
  (List.range subPagesPerSuperLeaf).foldl flushSlot (0, dm, superLeaf)

end ZipCache.SsdTier
