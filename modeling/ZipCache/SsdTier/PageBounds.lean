import ZipCache.SsdTier.FailedPut
import ZipCache.SsdTier.SubPageMap
import ZipCache.SsdTier.SplitView

/-!
# Pages within their slots

A sub-page has `ENTRIES_PER_SUB_PAGE` slots, and `sub_page_insert` refuses a page whose count
has reached them. The pages the SSD tier creates, inserts into, writes back and reads again
all keep their count within the slots; the file starts as zeros. The bound is stated for the
cache of a super-leaf and for the blocks of the file, and loading, inserting, searching and
flushing keep it.
-/

namespace ZipCache.SsdTier

/-- Every page a super-leaf caches holds at most `ENTRIES_PER_SUB_PAGE` entries. -/
def SuperLeaf.PagesBounded (superLeaf : SuperLeaf) : Prop :=
  ∀ i page, superLeaf.cached i = some page → page.entries ≤ entriesPerSubPage

/-- Every block image of the file holds at most `ENTRIES_PER_SUB_PAGE` entries. -/
def DiskManager.PagesBounded (dm : DiskManager) : Prop :=
  ∀ n, (dm.blocks n).entries ≤ entriesPerSubPage

theorem subPageInsert_entries_le {subPage : SubPage}
    (bounded : subPage.entries ≤ entriesPerSubPage) (key data : Int) :
    (subPageInsert subPage key data).2.entries ≤ entriesPerSubPage := by
  unfold subPageInsert
  split
  · exact bounded
  · next notFull =>
      simp only [subPageIsFull, decide_eq_true_eq, Nat.not_le] at notFull
      dsimp only
      split
      · exact bounded
      · exact notFull

theorem subPagePrepareForCompression_entries (subPage : SubPage) :
    (subPagePrepareForCompression subPage).entries = subPage.entries := by
  unfold subPagePrepareForCompression
  split <;> rfl

theorem diskReadSubPage_bounded {dm : DiskManager} (disk : dm.PagesBounded) (blockId : BitVec 32) :
    ∀ page ∈ diskReadSubPage dm blockId, page.entries ≤ entriesPerSubPage := by
  unfold diskReadSubPage
  split
  · rintro _ ⟨⟩
  · rintro _ ⟨⟩
    exact disk _

theorem diskWriteSubPage_bounded {dm : DiskManager} (disk : dm.PagesBounded) (blockId : BitVec 32)
    {subPage : SubPage} (bounded : subPage.entries ≤ entriesPerSubPage) :
    (diskWriteSubPage dm blockId subPage).2.1.PagesBounded ∧
      (diskWriteSubPage dm blockId subPage).2.2.entries = subPage.entries := by
  unfold diskWriteSubPage
  split
  · exact ⟨disk, rfl⟩
  · refine ⟨fun n => ?_, subPagePrepareForCompression_entries subPage⟩
    dsimp only
    rw [Function.update_apply]
    split
    · rw [subPagePrepareForCompression_entries]
      exact bounded
    · exact disk n

namespace SuperLeaf.PagesBounded

variable {superLeaf : SuperLeaf}

theorem setCached (bounded : superLeaf.PagesBounded) {page : Option SubPage}
    (pageBounded : ∀ p ∈ page, p.entries ≤ entriesPerSubPage) (i : Nat) :
    (superLeaf.setCached i page).PagesBounded := by
  intro j p cachedPage
  rw [SuperLeaf.setCached_cached] at cachedPage
  split_ifs at cachedPage
  · exact pageBounded p cachedPage
  · exact bounded j p cachedPage

theorem setDirty (bounded : superLeaf.PagesBounded) (i : Nat) (flag : Bool) :
    (superLeaf.setDirty i flag).PagesBounded :=
  bounded

end SuperLeaf.PagesBounded

theorem superLeafCreate_pagesBounded : superLeafCreate.PagesBounded := by
  intro i page cachedPage
  simp only [superLeafCreate, SuperLeaf.cached, List.getD_eq_getElem?_getD,
    List.getElem?_replicate] at cachedPage
  split at cachedPage <;> cases cachedPage

theorem superLeafLoadSubPageByHash_pagesBounded {dm : DiskManager} {superLeaf : SuperLeaf}
    (disk : dm.PagesBounded) (cache : superLeaf.PagesBounded) (key : Int) :
    (∀ page ∈ (superLeafLoadSubPageByHash dm superLeaf key).1,
        page.entries ≤ entriesPerSubPage) ∧
      (superLeafLoadSubPageByHash dm superLeaf key).2.1.PagesBounded ∧
      (superLeafLoadSubPageByHash dm superLeaf key).2.2.PagesBounded := by
  unfold superLeafLoadSubPageByHash
  dsimp only
  split
  · next cachedPage => exact ⟨by rintro _ ⟨⟩; exact cache _ _ cachedPage, disk, cache⟩
  · split
    · split
      · exact ⟨by rintro _ ⟨⟩, disk, cache⟩
      · have created : ∀ p ∈ some subPageCreate, p.entries ≤ entriesPerSubPage := by
          rintro _ ⟨⟩; exact Nat.zero_le _
        exact ⟨created, disk,
          (cache.setCached created (subPageIndex key)).setDirty (subPageIndex key) true⟩
    · have loaded := diskReadSubPage_bounded disk (superLeaf.block (subPageIndex key))
      exact ⟨loaded, disk, cache.setCached loaded _⟩

theorem superLeafLoadSubPageByHash_totalEntries (dm : DiskManager) (superLeaf : SuperLeaf)
    (key : Int) :
    (superLeafLoadSubPageByHash dm superLeaf key).2.2.totalEntries = superLeaf.totalEntries := by
  unfold superLeafLoadSubPageByHash
  dsimp only
  split
  · rfl
  · split
    · split <;> rfl
    · rfl

theorem superLeafInsertHashed_pagesBounded {dm : DiskManager} {superLeaf : SuperLeaf}
    (disk : dm.PagesBounded) (cache : superLeaf.PagesBounded) (key data : Int) :
    (superLeafInsertHashed dm superLeaf key data).2.1.PagesBounded ∧
      (superLeafInsertHashed dm superLeaf key data).2.2.PagesBounded := by
  have loaded := superLeafLoadSubPageByHash_pagesBounded disk cache key
  unfold superLeafInsertHashed
  revert loaded
  rcases superLeafLoadSubPageByHash dm superLeaf key with ⟨page, loadedDm, loadedLeaf⟩
  rintro ⟨pageBounded, dmBounded, leafBounded⟩
  cases page with
  | none => exact ⟨dmBounded, leafBounded⟩
  | some page =>
      have inserted := subPageInsert_entries_le (pageBounded page rfl) key data
      dsimp only
      revert inserted
      rcases subPageInsert page key data with ⟨result, newPage⟩
      intro inserted
      have newBounded : ∀ p ∈ some newPage, p.entries ≤ entriesPerSubPage := by
        rintro _ ⟨⟩
        exact inserted
      have placed := leafBounded.setCached newBounded (subPageIndex key)
      dsimp only
      split
      · exact ⟨dmBounded, leafBounded⟩
      · split
        · exact ⟨dmBounded, placed⟩
        · exact ⟨dmBounded, placed.setDirty (subPageIndex key) true⟩

theorem superLeafInsertHashed_ne_split {superLeaf : SuperLeaf}
    (notFull : superLeafIsFull superLeaf = false) (dm : DiskManager) (key data : Int) :
    (superLeafInsertHashed dm superLeaf key data).1 ≠ -2 := by
  have sameTotal := superLeafLoadSubPageByHash_totalEntries dm superLeaf key
  unfold superLeafInsertHashed
  revert sameTotal
  rcases superLeafLoadSubPageByHash dm superLeaf key with ⟨page, loadedDm, loadedLeaf⟩
  intro sameTotal
  cases page with
  | none => simp
  | some page =>
      have stillNotFull : superLeafIsFull loadedLeaf = false := by
        rw [← notFull]
        unfold superLeafIsFull
        rw [sameTotal]
      dsimp only
      split
      · simp [stillNotFull]
      · rcases subPageInsert page key data with ⟨result, newPage⟩
        dsimp only
        split <;> simp

theorem superLeafIsFull_of_half {superLeaf : SuperLeaf}
    (half : 2 * superLeaf.totalEntries ≤ (subPagesPerSuperLeaf * entriesPerSubPage : Nat)) :
    superLeafIsFull superLeaf = false := by
  rw [subPagesPerSuperLeaf_eq, entriesPerSubPage_eq] at half
  unfold superLeafIsFull
  rw [subPagesPerSuperLeaf_eq, entriesPerSubPage_eq]
  exact decide_eq_false (by omega)

theorem superLeafSearchHashed_pagesBounded {dm : DiskManager} {superLeaf : SuperLeaf}
    (disk : dm.PagesBounded) (cache : superLeaf.PagesBounded) (key : Int) :
    (superLeafSearchHashed dm superLeaf key).2.1.PagesBounded ∧
      (superLeafSearchHashed dm superLeaf key).2.2.PagesBounded := by
  have loaded := superLeafLoadSubPageByHash_pagesBounded disk cache key
  unfold superLeafSearchHashed
  split
  · exact ⟨disk, cache⟩
  · revert loaded
    rcases superLeafLoadSubPageByHash dm superLeaf key with ⟨page, loadedDm, loadedLeaf⟩
    rintro ⟨-, dmBounded, leafBounded⟩
    cases page <;> exact ⟨dmBounded, leafBounded⟩

theorem flushSlot_pagesBounded {state : Int × DiskManager × SuperLeaf}
    (disk : state.2.1.PagesBounded) (cache : state.2.2.PagesBounded) (i : Nat) :
    (flushSlot state i).2.1.PagesBounded ∧ (flushSlot state i).2.2.PagesBounded ∧
      (flushSlot state i).2.2.totalEntries = state.2.2.totalEntries := by
  obtain ⟨flushed, dm, superLeaf⟩ := state
  dsimp only [flushSlot]
  split
  · next page dirty cachedPage =>
      have written := diskWriteSubPage_bounded disk (superLeaf.block i) (cache i page cachedPage)
      revert written
      rcases diskWriteSubPage dm (superLeaf.block i) page with ⟨result, written, image⟩
      rintro ⟨writtenBounded, sameEntries⟩
      have imageBounded : ∀ p ∈ some image, p.entries ≤ entriesPerSubPage := by
        rintro _ ⟨⟩
        exact sameEntries ▸ cache i page cachedPage
      dsimp only
      split
      · exact ⟨writtenBounded, (cache.setCached imageBounded i).setDirty i false, rfl⟩
      · exact ⟨writtenBounded, cache.setCached imageBounded i, rfl⟩
  · exact ⟨disk, cache, rfl⟩

theorem superLeafFlushDirty_pagesBounded {dm : DiskManager} {superLeaf : SuperLeaf}
    (disk : dm.PagesBounded) (cache : superLeaf.PagesBounded) :
    (superLeafFlushDirty dm superLeaf).2.1.PagesBounded ∧
      (superLeafFlushDirty dm superLeaf).2.2.PagesBounded ∧
      (superLeafFlushDirty dm superLeaf).2.2.totalEntries = superLeaf.totalEntries := by
  have flushed : ∀ (slots : List Nat) (state : Int × DiskManager × SuperLeaf),
      state.2.1.PagesBounded → state.2.2.PagesBounded →
        (slots.foldl flushSlot state).2.1.PagesBounded ∧
          (slots.foldl flushSlot state).2.2.PagesBounded ∧
          (slots.foldl flushSlot state).2.2.totalEntries = state.2.2.totalEntries := by
    intro slots
    induction slots with
    | nil => intro state disk cache; exact ⟨disk, cache, rfl⟩
    | cons i rest inductionHypothesis =>
        intro state disk cache
        obtain ⟨slotDisk, slotCache, slotTotal⟩ := flushSlot_pagesBounded disk cache i
        obtain ⟨restDisk, restCache, restTotal⟩ := inductionHypothesis _ slotDisk slotCache
        exact ⟨restDisk, restCache, restTotal.trans slotTotal⟩
  unfold superLeafFlushDirty
  exact flushed (List.range subPagesPerSuperLeaf) (0, dm, superLeaf) disk cache

end ZipCache.SsdTier
