import ZipCache.SsdTier.SuperLeaf

/-!
# Splitting a super-leaf (`split_super_leaf`)

The split reads every allocated sub-page, gathers and sorts all pairs, and deals them out
by the median key: keys below it stay in the old super-leaf, the others go to a new right
sibling, each into the sub-page of its hash. The right sibling's sub-pages get fresh
blocks; the old super-leaf keeps its blocks. Both are then flushed.

The old super-leaf's cache is emptied before the pairs are dealt out. A slot of it that
receives no pair keeps its block and its old image on disk.
-/

namespace ZipCache.SsdTier

/-- `PromotedKey`: the median and the new right sibling, `{0, NULL}` on failure. -/
structure PromotedKey where
  key : Int
  rightSibling : Option SuperLeaf
deriving Repr

/-- The result of a split that did not happen. -/
def PromotedKey.failed : PromotedKey := ⟨0, none⟩

/-- The pairs of a sub-page, `keys[j]` with `values[j]` for `j < entries`. -/
def SubPage.pairs (subPage : SubPage) : List (Int × Int) :=
  (subPage.keys.take subPage.entries).zip (subPage.values.take subPage.entries)

/-- One round of the insertion sort of `consolidate_and_sort`, on the sorted prefix kept
in reverse: the pair goes below every pair whose key is greater. -/
def sortStep : List (Int × Int) → Int × Int → List (Int × Int)
  | [], pair => [pair]
  | top :: rest, pair =>
      if top.1 > pair.1 then top :: sortStep rest pair else pair :: top :: rest

/-- `consolidate_and_sort`: all pairs of the buffers, sorted by key; `NULL` when the
buffers hold no entry. -/
def consolidateAndSort (subPages : List (Option SubPage)) : Option (List (Int × Int)) :=
  let count := (subPages.map fun page => (page.map SubPage.entries).getD 0).foldl (· + ·) 0
  if count = 0 then none
  else some ((subPages.flatMap fun page => (page.map SubPage.pairs).getD []).foldl
    sortStep []).reverse

/-- Empty a super-leaf's cache and counter before the pairs are dealt out. -/
def SuperLeaf.clearForRedistribution (superLeaf : SuperLeaf) : SuperLeaf :=
  { superLeaf with
    cachedSubPages := List.replicate subPagesPerSuperLeaf none, totalEntries := 0 }

/-- One pair of `redistribute_pairs_hashed` placed in its target super-leaf: create the
sub-page of its hash if it is not cached, insert, count the insert if it succeeds. -/
def placePair (superLeaf : SuperLeaf) (pair : Int × Int) : SuperLeaf :=
  let idx := subPageIndex pair.1
  let (superLeaf, subPage) := match superLeaf.cached idx with
    | some subPage => (superLeaf, subPage)
    | none => ((superLeaf.setCached idx (some subPageCreate)).setDirty idx true, subPageCreate)
  let (result, subPage) := subPageInsert subPage pair.1 pair.2
  let superLeaf := superLeaf.setCached idx (some subPage)
  if result = 0 then
    { superLeaf.setDirty idx true with totalEntries := superLeaf.totalEntries + 1 }
  else superLeaf

/-- The loop that recomputes `active_sub_pages`: one past the last cached slot. -/
def SuperLeaf.lastCachedSlot (superLeaf : SuperLeaf) : Int :=
  (List.range subPagesPerSuperLeaf).foldl
    (fun active i => if (superLeaf.cached i).isSome then i + 1 else active) 0

/-- One round of the dealing loop: a pair below the median goes to the left super-leaf,
any other to the right one. -/
def dealPair (median : Int) (leaves : SuperLeaf × SuperLeaf) (pair : Int × Int) :
    SuperLeaf × SuperLeaf :=
  if pair.1 < median then (placePair leaves.1 pair, leaves.2)
  else (leaves.1, placePair leaves.2 pair)

/-- `redistribute_pairs_hashed`: the median key `pairs[n / 2].key` and the two dealt-out
super-leaves; `none` (the `-1`) for no pairs. -/
def redistributePairsHashed (pairs : List (Int × Int)) (left right : SuperLeaf) :
    Option (Int × SuperLeaf × SuperLeaf) :=
  match pairs[pairs.length / 2]? with
  | none => none
  | some (median, _) =>
      let (left, right) := pairs.foldl (dealPair median)
        (left.clearForRedistribution, right.clearForRedistribution)
      some (median, { left with activeSubPages := left.lastCachedSlot },
        { right with activeSubPages := right.lastCachedSlot })

/-- Phase 1 of `split_super_leaf`: for each allocated slot, the cached sub-page or the
image read from its block. -/
def readPhase (dm : DiskManager) (superLeaf : SuperLeaf) : List (Option SubPage) :=
  (List.range subPagesPerSuperLeaf).map fun i =>
    if superLeaf.block i = invalidBlockId then none
    else match superLeaf.cached i with
      | some subPage => some subPage
      | none => diskReadSubPage dm (superLeaf.block i)

/-- One round of phase 3's allocation loop: a block for each cached slot of the right
sibling. The first failure abandons the sibling (`none`); the blocks it already got stay
allocated. -/
def allocateSlot (state : Option SuperLeaf × BlockAllocator) (i : Nat) :
    Option SuperLeaf × BlockAllocator :=
  match state with
  | (some right, allocator) =>
      if (right.cached i).isSome then
        let (blockId, allocator) := allocateBlock allocator
        if blockId = invalidBlockId then (none, allocator)
        else (some { right with subPageBlocks := right.subPageBlocks.set i blockId }, allocator)
      else state
  | (none, _) => state

/-- `split_super_leaf`: the promoted key, the disk manager, and the old super-leaf, which
the split changes even when it fails in phase 3. -/
def splitSuperLeaf (dm : DiskManager) (leaf : SuperLeaf) :
    PromotedKey × DiskManager × SuperLeaf :=
  let buffers := readPhase dm leaf
  if buffers.all Option.isNone then (PromotedKey.failed, dm, leaf)
  else
    match consolidateAndSort buffers with
    | none => (PromotedKey.failed, dm, leaf)
    | some pairs =>
        match redistributePairsHashed pairs leaf superLeafCreate with
        | none => (PromotedKey.failed, dm, leaf)
        | some (median, left, right) =>
            match (List.range subPagesPerSuperLeaf).foldl allocateSlot
                (some right, dm.allocator) with
            | (none, allocator) => (PromotedKey.failed, { dm with allocator := allocator }, left)
            | (some right, allocator) =>
                let dm := { dm with allocator := allocator }
                let (_, dm, left) := superLeafFlushDirty dm left
                let (_, dm, right) := superLeafFlushDirty dm right
                let right := { right with nextSuperLeaf := left.nextSuperLeaf, prevSuperLeaf := -1 }
                (⟨median, some right⟩, dm, { left with nextSuperLeaf := -1 })

end ZipCache.SsdTier
