import ZipCache.SsdTier.Tree

/-!
# The entry counter of a super-leaf

A super-leaf's stored entries are the `header.entries` of its allocated sub-pages, each
read the way phase 1 of a split reads it: the cached copy, else the image of its block.
`total_entries` is meant to equal that sum. It does not survive an update: inserting a key
that its sub-page already holds overwrites the value in place, and
`super_leaf_insert_hashed` still adds one to the counter.
-/

namespace ZipCache.SsdTier

/-- The entries a super-leaf stores, summed over its allocated sub-pages. -/
def SuperLeaf.storedEntries (dm : DiskManager) (superLeaf : SuperLeaf) : Nat :=
  ((readPhase dm superLeaf).map fun page => (page.map SubPage.entries).getD 0).foldl (· + ·) 0

theorem SuperLeaf.storedEntries_congr (dm : DiskManager) {superLeaf other : SuperLeaf}
    (sameBlocks : superLeaf.subPageBlocks = other.subPageBlocks)
    (sameCache : superLeaf.cachedSubPages = other.cachedSubPages) :
    superLeaf.storedEntries dm = other.storedEntries dm := by
  unfold SuperLeaf.storedEntries readPhase SuperLeaf.block SuperLeaf.cached
  rw [sameBlocks, sameCache]

theorem SuperLeaf.storedEntries_setCached (dm : DiskManager) {superLeaf : SuperLeaf}
    {i : Nat} {page : SubPage} (page' : SubPage) (cachedPage : superLeaf.cached i = some page)
    (sameEntries : page'.entries = page.entries) :
    (superLeaf.setCached i (some page')).storedEntries dm = superLeaf.storedEntries dm := by
  have inside := SuperLeaf.lt_length_of_cached cachedPage
  unfold SuperLeaf.storedEntries readPhase
  simp only [List.map_map]
  congr 1
  apply List.map_congr_left
  intro j _
  simp only [Function.comp_apply]
  by_cases same : i = j
  · subst same
    simp only [SuperLeaf.setCached_block, SuperLeaf.setCached_cached, inside, cachedPage,
      and_self, if_true]
    split <;> simp [sameEntries]
  · simp [SuperLeaf.setCached_cached, same]

theorem superLeafLoadSubPageByHash_cached (dm : DiskManager) {superLeaf : SuperLeaf}
    {key : Int} {page : SubPage} (cachedPage : superLeaf.cached (subPageIndex key) = some page) :
    superLeafLoadSubPageByHash dm superLeaf key = (some page, dm, superLeaf) := by
  simp [superLeafLoadSubPageByHash, cachedPage]

/-- An insert that finds its key in the cached sub-page overwrites the value in place and
succeeds; the counter goes up by one while the stored entries stay as they were. -/
theorem superLeafInsertHashed_update_overcounts (dm : DiskManager) {superLeaf : SuperLeaf}
    {key : Int} (data : Int) {page : SubPage}
    (cachedPage : superLeaf.cached (subPageIndex key) = some page)
    (roomy : subPageIsFull page = false) (present : 0 ≤ page.find key) :
    (superLeafInsertHashed dm superLeaf key data).1 = 0 ∧
    (superLeafInsertHashed dm superLeaf key data).2.2.totalEntries =
      superLeaf.totalEntries + 1 ∧
    (superLeafInsertHashed dm superLeaf key data).2.2.storedEntries
      (superLeafInsertHashed dm superLeaf key data).2.1 = superLeaf.storedEntries dm := by
  have updated : subPageInsert page key data =
      (0, { page with values := page.values.set (page.find key).toNat data }) := by
    unfold subPageInsert
    rw [if_neg (by simp [roomy]), if_pos present]
  simp only [superLeafInsertHashed, superLeafLoadSubPageByHash_cached dm cachedPage, roomy,
    updated]
  refine ⟨rfl, by simp, ?_⟩
  rw [← SuperLeaf.storedEntries_setCached dm
    { page with values := page.values.set (page.find key).toNat data } cachedPage rfl]
  exact SuperLeaf.storedEntries_congr dm rfl rfl

/-- A fresh super-leaf of a 1 GiB disk after `super_leaf_insert_hashed(7, 1)`. -/
def superLeafAfterOnePut : DiskManager × SuperLeaf :=
  (superLeafInsertHashed (diskManagerInit (1024 * 1024 * 1024) true) superLeafCreate 7 1).2

theorem superLeafInsertHashed_second_put_counts_two :
    superLeafAfterOnePut.2.totalEntries =
      superLeafAfterOnePut.2.storedEntries superLeafAfterOnePut.1 ∧
    (superLeafInsertHashed superLeafAfterOnePut.1 superLeafAfterOnePut.2 7 2).1 = 0 ∧
    (superLeafInsertHashed superLeafAfterOnePut.1 superLeafAfterOnePut.2 7 2).2.2.totalEntries =
      2 ∧
    (superLeafInsertHashed superLeafAfterOnePut.1 superLeafAfterOnePut.2 7 2).2.2.storedEntries
      (superLeafInsertHashed superLeafAfterOnePut.1 superLeafAfterOnePut.2 7 2).2.1 = 1 := by
  have counted : superLeafAfterOnePut.2.totalEntries = 1 := by decide
  have stored : superLeafAfterOnePut.2.storedEntries superLeafAfterOnePut.1 = 1 := by decide
  have cachedSlot : superLeafAfterOnePut.2.cached (subPageIndex 7) =
      some (subPageInsert subPageCreate 7 1).2 := rfl
  obtain ⟨succeeded, bumped, kept⟩ := superLeafInsertHashed_update_overcounts
    superLeafAfterOnePut.1 2 cachedSlot (by decide) (by decide)
  exact ⟨by rw [counted, stored]; rfl, succeeded, by rw [bumped, counted]; rfl,
    by rw [kept, stored]⟩

end ZipCache.SsdTier
