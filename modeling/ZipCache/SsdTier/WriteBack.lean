import ZipCache.SsdTier.HashedMap
import ZipCache.SsdTier.BlockOwnership
import Mathlib.Data.List.Nodup

/-!
# Write-back of a super-leaf

A super-leaf caches every sub-page it loads. Inserts and deletes change only the cached copy
and set the slot's dirty flag; `super_leaf_flush_dirty` writes each dirty copy to its block
and clears the flag. Run the hashed calls and flushes from `disk_manager_init` and
`super_leaf_create`, passing each call the disk manager that the previous call returned. The
super-leaf then keeps the write-back contract:

* a slot whose flag is clear holds on disk what its cache holds;
* a flush writes only to the blocks of dirty slots, and no two slots share a block;
* after `super_leaf_flush_dirty` every write has succeeded, no flag is set, and the images on
  disk hold the same map as the cache.
-/

namespace ZipCache.SsdTier

namespace SuperLeaf

theorem dirty_setDirty_self {superLeaf : SuperLeaf} {i : Nat}
    (inside : i < superLeaf.dirtyFlags.length) (flag : Bool) :
    (superLeaf.setDirty i flag).dirty i = flag := by
  simp [dirty, setDirty, List.getD_eq_getElem?_getD, List.getElem?_set, inside]

theorem dirty_setDirty_of_ne {superLeaf : SuperLeaf} {i j : Nat} (apart : i ≠ j) (flag : Bool) :
    (superLeaf.setDirty i flag).dirty j = superLeaf.dirty j := by
  simp [dirty, setDirty, List.getD_eq_getElem?_getD, List.getElem?_set, apart]

theorem mem_blocks {superLeaf : SuperLeaf}
    (sized : superLeaf.subPageBlocks.length = subPagesPerSuperLeaf) {i : Nat}
    (named : superLeaf.block i ≠ invalidBlockId) :
    i < subPagesPerSuperLeaf ∧ superLeaf.block i ∈ superLeaf.blocks := by
  have inside : i < subPagesPerSuperLeaf := by
    by_contra outside
    apply named
    simp [block, List.getD_eq_getElem?_getD, List.getElem?_eq_none (sized ▸ Nat.le_of_not_lt
      outside)]
  exact ⟨inside, List.mem_filter.mpr ⟨List.mem_map.mpr ⟨i, List.mem_range.mpr inside, rfl⟩,
    by simpa using named⟩⟩

/-- The bindings the disk holds for a slot: those of the image on its block, none without a
block. -/
def diskPageAt (superLeaf : SuperLeaf) (dm : DiskManager) (i : Nat) : List (Int × Int) :=
  if superLeaf.block i = invalidBlockId then []
  else ((diskReadSubPage dm (superLeaf.block i)).map SubPage.pairs).getD []

/-- The binding of a key as the disk holds it: in the image on its slot's block. -/
def diskLookup (superLeaf : SuperLeaf) (dm : DiskManager) (key : Int) : Option Int :=
  (superLeaf.diskPageAt dm (subPageIndex key)).lookup key

theorem diskPageAt_congr {before after : SuperLeaf} {dm dm' : DiskManager} {i : Nat}
    (sameBlock : after.block i = before.block i) (disk : dm'.blocks = dm.blocks)
    (total : dm'.total4kbBlocks = dm.total4kbBlocks) :
    after.diskPageAt dm' i = before.diskPageAt dm i := by
  simp only [diskPageAt, diskReadSubPage, sameBlock, disk, total]

end SuperLeaf

theorem BlockAllocator.Owns.block_ne {allocator : BlockAllocator} {superLeaf : SuperLeaf}
    (owns : allocator.Owns superLeaf.blocks)
    (sized : superLeaf.subPageBlocks.length = subPagesPerSuperLeaf) {i j : Nat} (apart : i ≠ j)
    (named : superLeaf.block i ≠ invalidBlockId) : superLeaf.block i ≠ superLeaf.block j := by
  intro same
  obtain ⟨insideI, -⟩ := SuperLeaf.mem_blocks sized named
  obtain ⟨insideJ, -⟩ := SuperLeaf.mem_blocks sized (same ▸ named)
  have distinct := owns.distinct
  rw [SuperLeaf.blocks, List.filter_map] at distinct
  exact apart (List.inj_on_of_nodup_map distinct
    (List.mem_filter.mpr ⟨List.mem_range.mpr insideI, by simpa using named⟩)
    (List.mem_filter.mpr ⟨List.mem_range.mpr insideJ, by simpa [← same] using named⟩) same)

theorem allocateBlock_totalBlocks {allocator : BlockAllocator} (wf : allocator.Wf) :
    (allocateBlock allocator).2.totalBlocks = allocator.totalBlocks := by
  rcases BlockAllocator.allocateBlock_spec wf with ⟨j, -, -, -, issued⟩ | ⟨-, failed⟩
  · rw [issued]
    rfl
  · rw [failed]

theorem diskWriteSubPage_of_lt {dm : DiskManager} {blockId : BitVec 32}
    (inFile : blockId.toNat < dm.total4kbBlocks.toNat) (page : SubPage) :
    diskWriteSubPage dm blockId page =
      (0, { dm with blocks := (Function.update dm.blocks blockId.toNat
        (subPagePrepareForCompression page)) }, subPagePrepareForCompression page) := by
  rw [diskWriteSubPage, if_neg (by rw [BitVec.le_def]; omega)]

/-- What a super-leaf and its disk manager keep along a run: the hashed invariant; the
allocator owns the super-leaf's blocks and counts the file's blocks; a dirty slot is cached;
and a clean slot holds on disk what its cache holds. -/
structure SuperLeaf.Coherent (superLeaf : SuperLeaf) (dm : DiskManager) : Prop where
  wf : superLeaf.HashedWf
  owned : dm.allocator.Owns superLeaf.blocks
  sized : dm.allocator.totalBlocks = dm.total4kbBlocks
  dirtyCached : ∀ i, superLeaf.dirty i = true → (superLeaf.cached i).isSome
  synced : ∀ i, superLeaf.dirty i = false → superLeaf.diskPageAt dm i = superLeaf.pageAt i

/-- What a hashed insert or delete may change: the key's slot, which it leaves dirty and cached
or as it was, and the allocator, whose total it keeps; never the file. -/
structure TouchesSlot (i : Nat) (dm dm' : DiskManager) (before after : SuperLeaf) : Prop where
  disk : dm'.blocks = dm.blocks
  total : dm'.total4kbBlocks = dm.total4kbBlocks
  allocatorTotal : dm'.allocator.totalBlocks = dm.allocator.totalBlocks
  others : ∀ j, j ≠ i → after.block j = before.block j ∧ after.dirty j = before.dirty j ∧
    after.cached j = before.cached j
  slot : after.dirty i = true ∧ (after.cached i).isSome ∨
    after.block i = before.block i ∧ after.dirty i = before.dirty i ∧
      (after.cached i).isSome = (before.cached i).isSome ∧ after.pageAt i = before.pageAt i

theorem TouchesSlot.rfl {i : Nat} {dm : DiskManager} {superLeaf : SuperLeaf} :
    TouchesSlot i dm dm superLeaf superLeaf :=
  ⟨Eq.refl _, Eq.refl _, Eq.refl _, fun _ _ => ⟨Eq.refl _, Eq.refl _, Eq.refl _⟩,
    .inr ⟨Eq.refl _, Eq.refl _, Eq.refl _, Eq.refl _⟩⟩

theorem SuperLeaf.Coherent.touch {before after : SuperLeaf} {dm dm' : DiskManager} {i : Nat}
    (coherent : before.Coherent dm) (touched : TouchesSlot i dm dm' before after)
    (wf : after.HashedWf) (owned : dm'.allocator.Owns after.blocks) : after.Coherent dm' := by
  refine ⟨wf, owned, by rw [touched.allocatorTotal, touched.total, coherent.sized],
    fun j flagged => ?_, fun j clean => ?_⟩
  · by_cases here : j = i
    · subst here
      rcases touched.slot with ⟨-, cachedNow⟩ | ⟨-, sameFlag, sameCached, -⟩
      · exact cachedNow
      · rw [sameCached]
        exact coherent.dirtyCached j (sameFlag ▸ flagged)
    · obtain ⟨-, sameFlag, sameCached⟩ := touched.others j here
      rw [sameCached]
      exact coherent.dirtyCached j (sameFlag ▸ flagged)
  · by_cases here : j = i
    · subst here
      rcases touched.slot with ⟨flagged, -⟩ | ⟨sameBlock, sameFlag, -, samePage⟩
      · rw [flagged] at clean
        cases clean
      · rw [SuperLeaf.diskPageAt_congr sameBlock touched.disk touched.total, samePage]
        exact coherent.synced j (sameFlag ▸ clean)
    · obtain ⟨sameBlock, sameFlag, sameCached⟩ := touched.others j here
      rw [SuperLeaf.diskPageAt_congr sameBlock touched.disk touched.total, SuperLeaf.pageAt,
        sameCached]
      exact coherent.synced j (sameFlag ▸ clean)

section Touches

variable {superLeaf : SuperLeaf} (dm : DiskManager) (key : Int)

theorem touchesSlot_write {base : SuperLeaf} (wf : base.SlotsWf) (dm' : DiskManager)
    (disk : dm'.blocks = dm.blocks) (total : dm'.total4kbBlocks = dm.total4kbBlocks)
    (allocatorTotal : dm'.allocator.totalBlocks = dm.allocator.totalBlocks)
    (frame : ∀ j, j ≠ subPageIndex key → base.block j = superLeaf.block j ∧
      base.dirty j = superLeaf.dirty j ∧ base.cached j = superLeaf.cached j)
    (page : SubPage) (entries : Int) :
    TouchesSlot (subPageIndex key) dm dm' superLeaf
      { (base.setCached (subPageIndex key) (some page)).setDirty (subPageIndex key) true with
        totalEntries := entries } := by
  have inside := subPageIndex_lt key
  refine ⟨disk, total, allocatorTotal, fun j apart => ?_, .inl ⟨?_, ?_⟩⟩
  · obtain ⟨sameBlock, sameFlag, sameCached⟩ := frame j apart
    exact ⟨sameBlock, (SuperLeaf.dirty_setDirty_of_ne (Ne.symm apart) true).trans sameFlag,
      (SuperLeaf.cached_setCached_of_ne (Ne.symm apart) _).trans sameCached⟩
  · exact SuperLeaf.dirty_setDirty_self (by simpa [SuperLeaf.setCached, wf.dirtySized]) true
  · show ((base.setCached _ _).cached _).isSome
    rw [SuperLeaf.cached_setCached_self (wf.cachedSized ▸ inside)]
    rfl

theorem superLeafInsertHashed_touches (wf : superLeaf.SlotsWf)
    (allocatorWf : dm.allocator.Wf) (data : Int) :
    TouchesSlot (subPageIndex key) dm (superLeafInsertHashed dm superLeaf key data).2.1
      superLeaf (superLeafInsertHashed dm superLeaf key data).2.2 := by
  have same : ∀ j, j ≠ subPageIndex key → superLeaf.block j = superLeaf.block j ∧
      superLeaf.dirty j = superLeaf.dirty j ∧ superLeaf.cached j = superLeaf.cached j :=
    fun _ _ => ⟨Eq.refl _, Eq.refl _, Eq.refl _⟩
  cases cachedSlot : superLeaf.cached (subPageIndex key) with
  | some page =>
      have sorted := wf.sorted _ page cachedSlot
      have loaded := superLeafLoadSubPageByHash_cached dm cachedSlot
      by_cases room : page.entries < entriesPerSubPage
      · rw [superLeafInsertHashed_of_room dm key data loaded sorted room]
        exact touchesSlot_write dm key wf dm rfl rfl rfl same _ _
      · rw [superLeafInsertHashed_of_full dm key data loaded (Nat.not_lt.mp room)]
        exact TouchesSlot.rfl
  | none =>
      by_cases refused : (allocateBlock dm.allocator).1 = invalidBlockId
      · rw [superLeafInsertHashed_of_none dm key data
          (superLeafLoadSubPageByHash_of_failed wf dm cachedSlot refused)]
        exact TouchesSlot.rfl
      · rw [superLeafInsertHashed_of_room _ key data (superLeafLoadSubPageByHash_of_allocated
          wf dm cachedSlot refused) subPageCreate_sorted (by decide)]
        refine touchesSlot_write dm key (wf.allocate (subPageIndex_lt key) refused _)
          { dm with allocator := (allocateBlock dm.allocator).2 } rfl rfl
          (allocateBlock_totalBlocks allocatorWf) (fun j apart => ⟨?_, ?_, ?_⟩) _ _
        · show ({ superLeaf with subPageBlocks := _ } : SuperLeaf).block j = _
          rw [SuperLeaf.block_set, if_neg fun both => apart both.1.symm]
        · exact SuperLeaf.dirty_setDirty_of_ne (Ne.symm apart) true
        · exact SuperLeaf.cached_setCached_of_ne (Ne.symm apart) _

theorem superLeafDeleteHashed_touches (wf : superLeaf.SlotsWf) :
    TouchesSlot (subPageIndex key) dm (superLeafDeleteHashed dm superLeaf key).2.1
      superLeaf (superLeafDeleteHashed dm superLeaf key).2.2 := by
  by_cases blocked : superLeaf.block (subPageIndex key) = invalidBlockId
  · rw [superLeafDeleteHashed, if_pos blocked]
    exact TouchesSlot.rfl
  · obtain ⟨page, cachedPage, sorted⟩ := wf.cached_of_block blocked
    obtain ⟨deleted, -, pairsAfter⟩ := sorted.subPageDelete_eq key
    have inside := wf.cachedSized ▸ subPageIndex_lt key
    rw [superLeafDeleteHashed_of_cached dm key blocked cachedPage]
    by_cases present : key ∈ page.pairs.map Prod.fst
    · rw [if_pos present] at deleted
      rw [if_pos deleted]
      exact touchesSlot_write dm key wf dm rfl rfl rfl
        (fun _ _ => ⟨Eq.refl _, Eq.refl _, Eq.refl _⟩) _ _
    · rw [if_neg present] at deleted
      rw [if_neg (by rw [deleted]; decide)]
      refine ⟨rfl, rfl, rfl, fun j apart => ⟨rfl, rfl,
        SuperLeaf.cached_setCached_of_ne (Ne.symm apart) _⟩, .inr ⟨rfl, rfl, ?_, ?_⟩⟩
      · rw [SuperLeaf.cached_setCached_self inside, cachedPage]
        rfl
      · rw [SuperLeaf.pageAt_of_cached (SuperLeaf.cached_setCached_self inside _), pairsAfter,
          SuperLeaf.pageAt_of_cached cachedPage]
        exact List.filter_eq_self.mpr fun pair member => by
          simpa using fun same => present (List.mem_map.mpr ⟨pair, member, same⟩)

theorem superLeafDeleteHashed_frame (wf : superLeaf.SlotsWf) :
    (superLeafDeleteHashed dm superLeaf key).2.1 = dm ∧
      (superLeafDeleteHashed dm superLeaf key).2.2.subPageBlocks = superLeaf.subPageBlocks := by
  by_cases blocked : superLeaf.block (subPageIndex key) = invalidBlockId
  · rw [superLeafDeleteHashed, if_pos blocked]
    exact ⟨rfl, rfl⟩
  · obtain ⟨page, cachedPage, -⟩ := wf.cached_of_block blocked
    rw [superLeafDeleteHashed_of_cached dm key blocked cachedPage]
    split <;> exact ⟨rfl, rfl⟩

end Touches

theorem flushSlot_of_clean {superLeaf : SuperLeaf} {i : Nat} (clean : superLeaf.dirty i = false)
    (count : Int) (dm : DiskManager) :
    flushSlot (count, dm, superLeaf) i = (count, dm, superLeaf) := by
  simp only [flushSlot, clean]

section Flush

variable {superLeaf : SuperLeaf} {dm : DiskManager} (coherent : superLeaf.Coherent dm)
  (count : Int) {i : Nat}
include coherent

theorem flushSlot_of_dirty (flagged : superLeaf.dirty i = true) :
    ∃ page, superLeaf.cached i = some page ∧
      (superLeaf.block i).toNat < dm.total4kbBlocks.toNat ∧
      flushSlot (count, dm, superLeaf) i =
        (count + 1, { dm with blocks := (Function.update dm.blocks (superLeaf.block i).toNat
            (subPagePrepareForCompression page)) },
          (superLeaf.setCached i (some (subPagePrepareForCompression page))).setDirty i false) := by
  obtain ⟨page, cachedPage⟩ := Option.isSome_iff_exists.mp (coherent.dirtyCached i flagged)
  have inFile : (superLeaf.block i).toNat < dm.total4kbBlocks.toNat := by
    rw [← coherent.sized]
    exact (coherent.owned.inUse _
      (SuperLeaf.mem_blocks coherent.wf.blocksSized
        (coherent.wf.block_ne_of_cached cachedPage)).2).1
  refine ⟨page, cachedPage, inFile, ?_⟩
  simp only [flushSlot, flagged, cachedPage, diskWriteSubPage_of_lt inFile, if_true]

theorem flushSlot_coherent (i : Nat) :
    (flushSlot (count, dm, superLeaf) i).2.2.Coherent (flushSlot (count, dm, superLeaf) i).2.1 ∧
      (flushSlot (count, dm, superLeaf) i).1 = count + (if superLeaf.dirty i then 1 else 0) ∧
      ∀ j, (flushSlot (count, dm, superLeaf) i).2.2.dirty j =
        if j = i then false else superLeaf.dirty j := by
  have keeps := flushSlot_keeps (count, dm, superLeaf) coherent.wf.toSlotsWf i
  cases flag : superLeaf.dirty i with
  | false =>
      rw [flushSlot_of_clean flag count dm]
      refine ⟨coherent, by simp, fun j => ?_⟩
      split_ifs with here
      · rw [here, flag]
      · rfl
  | true =>
      obtain ⟨page, cachedPage, inFile, value⟩ := flushSlot_of_dirty coherent count flag
      rw [value] at keeps ⊢
      have inside := SuperLeaf.lt_length_of_cached cachedPage
      have dirtyInside : i < superLeaf.dirtyFlags.length := by
        rw [coherent.wf.dirtySized, ← coherent.wf.cachedSized]
        exact inside
      have flags : ∀ j, ((superLeaf.setCached i
          (some (subPagePrepareForCompression page))).setDirty i false).dirty j =
            if j = i then false else superLeaf.dirty j := fun j => by
        split_ifs with here
        · rw [here]
          exact SuperLeaf.dirty_setDirty_self dirtyInside false
        · exact SuperLeaf.dirty_setDirty_of_ne (Ne.symm here) false
      refine ⟨⟨⟨keeps.wf, fun j pair member => coherent.wf.placed j pair
        (keeps.pages j ▸ member)⟩, coherent.owned, coherent.sized, fun j flagged => ?_,
        fun j clean => ?_⟩, by simp, flags⟩
      · rw [flags] at flagged
        split_ifs at flagged with here
        rw [keeps.cachedSlots]
        exact coherent.dirtyCached j flagged
      · rw [keeps.pages]
        by_cases here : j = i
        · subst here
          have image := (coherent.wf.sorted j page cachedPage).prepare.2
          simp only [SuperLeaf.diskPageAt, diskReadSubPage, SuperLeaf.setDirty_block,
            SuperLeaf.setCached_block, if_neg (coherent.wf.block_ne_of_cached cachedPage),
            Function.update_same,
            if_neg (show ¬ dm.total4kbBlocks ≤ superLeaf.block j by rw [BitVec.le_def]; omega),
            Option.map_some', Option.getD_some, image, SuperLeaf.pageAt_of_cached cachedPage]
        · rw [flags, if_neg here] at clean
          rw [← coherent.synced j clean]
          by_cases invalid : superLeaf.block j = invalidBlockId
          · simp only [SuperLeaf.diskPageAt, SuperLeaf.setDirty_block, SuperLeaf.setCached_block,
              invalid, if_true]
          · have apart : (superLeaf.block j).toNat ≠ (superLeaf.block i).toNat := fun same =>
              coherent.owned.block_ne coherent.wf.blocksSized here invalid
                (BitVec.eq_of_toNat_eq same)
            simp only [SuperLeaf.diskPageAt, diskReadSubPage, SuperLeaf.setDirty_block,
              SuperLeaf.setCached_block, Function.update_noteq apart]

end Flush

theorem foldl_flushSlot_coherent :
    ∀ (slots : List Nat) (count : Int) {dm : DiskManager} {superLeaf : SuperLeaf},
      slots.Nodup → superLeaf.Coherent dm →
      (slots.foldl flushSlot (count, dm, superLeaf)).2.2.Coherent
          (slots.foldl flushSlot (count, dm, superLeaf)).2.1 ∧
        (slots.foldl flushSlot (count, dm, superLeaf)).1 =
          count + ((slots.filter superLeaf.dirty).length : Int) ∧
        ∀ j, (slots.foldl flushSlot (count, dm, superLeaf)).2.2.dirty j =
          if j ∈ slots then false else superLeaf.dirty j
  | [], count, _, _, _, coherent => ⟨coherent, by simp, fun _ => rfl⟩
  | i :: rest, count, dm, superLeaf, distinct, coherent => by
      obtain ⟨fresh, restDistinct⟩ := List.nodup_cons.mp distinct
      obtain ⟨stepCoherent, stepCount, stepFlags⟩ := flushSlot_coherent coherent count i
      rw [List.foldl_cons]
      generalize flushSlot (count, dm, superLeaf) i = state at stepCoherent stepCount stepFlags
      obtain ⟨count', dm', superLeaf'⟩ := state
      dsimp only at stepCoherent stepCount stepFlags
      obtain ⟨restCoherent, restCount, restFlags⟩ :=
        foldl_flushSlot_coherent rest count' restDistinct stepCoherent
      have sameRest : rest.filter superLeaf'.dirty = rest.filter superLeaf.dirty :=
        List.filter_congr fun j member => by
          rw [stepFlags, if_neg fun same : j = i => fresh (same ▸ member)]
      refine ⟨restCoherent, ?_, fun j => ?_⟩
      · rw [restCount, sameRest, stepCount, List.filter_cons]
        cases superLeaf.dirty i <;> simp
        omega
      · rw [restFlags, stepFlags]
        by_cases later : j ∈ rest
        · simp [later]
        · by_cases here : j = i <;> simp [later, here]


/-- The disk managers and super-leaves that `disk_manager_init` and `super_leaf_create`, then
hashed inserts, searches and deletes and flushes reach, each call given the disk manager the
previous one returned. -/
inductive WriteBackRun : DiskManager → SuperLeaf → Prop
  | init (fileSize : Nat) (extended : Bool) :
      WriteBackRun (diskManagerInit fileSize extended) superLeafCreate
  | insert {dm : DiskManager} {superLeaf : SuperLeaf} (key data : Int) :
      WriteBackRun dm superLeaf →
      WriteBackRun (superLeafInsertHashed dm superLeaf key data).2.1
        (superLeafInsertHashed dm superLeaf key data).2.2
  | search {dm : DiskManager} {superLeaf : SuperLeaf} (key : Int) :
      WriteBackRun dm superLeaf →
      WriteBackRun (superLeafSearchHashed dm superLeaf key).2.1
        (superLeafSearchHashed dm superLeaf key).2.2
  | delete {dm : DiskManager} {superLeaf : SuperLeaf} (key : Int) :
      WriteBackRun dm superLeaf →
      WriteBackRun (superLeafDeleteHashed dm superLeaf key).2.1
        (superLeafDeleteHashed dm superLeaf key).2.2
  | flush {dm : DiskManager} {superLeaf : SuperLeaf} :
      WriteBackRun dm superLeaf →
      WriteBackRun (superLeafFlushDirty dm superLeaf).2.1 (superLeafFlushDirty dm superLeaf).2.2

theorem superLeafCreate_coherent (fileSize : Nat) (extended : Bool) :
    superLeafCreate.Coherent (diskManagerInit fileSize extended) := by
  have clean : ∀ i, superLeafCreate.dirty i = false
    | 0 => rfl
    | i + 1 => by rw [superLeafCreate_eq_slotZeroLeaf, slotZeroLeaf_dirty_succ]
  refine ⟨superLeafCreate_hashedWf, ?_, rfl, fun i flagged => ?_, fun i _ => ?_⟩
  · rw [SuperLeaf.blocks_eq_nil superLeafCreate_block]
    exact ⟨(diskManagerInit_allocator_reachable fileSize extended).wf, nofun, List.nodup_nil⟩
  · rw [clean i] at flagged
    cases flagged
  · rw [SuperLeaf.diskPageAt, if_pos (superLeafCreate_block i),
      SuperLeaf.pageAt_of_uncached (superLeafCreate_uncached i)]

theorem superLeafFlushDirty_coherent {dm : DiskManager} {superLeaf : SuperLeaf}
    (coherent : superLeaf.Coherent dm) :
    (superLeafFlushDirty dm superLeaf).2.2.Coherent (superLeafFlushDirty dm superLeaf).2.1 ∧
      (superLeafFlushDirty dm superLeaf).1 =
        (((List.range subPagesPerSuperLeaf).filter superLeaf.dirty).length : Int) ∧
      ∀ j, (superLeafFlushDirty dm superLeaf).2.2.dirty j = false := by
  obtain ⟨flushedCoherent, flushedCount, flushedFlags⟩ :=
    foldl_flushSlot_coherent (List.range subPagesPerSuperLeaf) 0 (List.nodup_range _) coherent
  unfold superLeafFlushDirty
  refine ⟨flushedCoherent, by rw [flushedCount, Int.zero_add], fun j => ?_⟩
  rw [flushedFlags]
  split_ifs with inside
  · rfl
  · cases flagged : superLeaf.dirty j
    · rfl
    · exact absurd (List.mem_range.mpr (coherent.wf.lt_of_cached (Option.get_mem
        (coherent.dirtyCached j flagged)))) inside

theorem WriteBackRun.coherent {dm : DiskManager} {superLeaf : SuperLeaf}
    (run : WriteBackRun dm superLeaf) : superLeaf.Coherent dm := by
  induction run with
  | init fileSize extended => exact superLeafCreate_coherent fileSize extended
  | @insert dm superLeaf key data _ coherent =>
      have owned : dm.allocator.Owns (superLeaf.blocks ++ []) := by
        rw [List.append_nil]
        exact coherent.owned
      have inserted := superLeafInsertHashed_owns owned key data
      rw [List.append_nil] at inserted
      exact coherent.touch (superLeafInsertHashed_touches dm key coherent.wf.toSlotsWf
        coherent.owned.wf data) (superLeafInsertHashed_spec dm key coherent.wf data).1 inserted
  | @search dm superLeaf key _ coherent =>
      rw [superLeafSearchHashed_eq dm key coherent.wf.toSlotsWf]
      exact coherent
  | @delete dm superLeaf key _ coherent =>
      obtain ⟨sameDm, sameBlocks⟩ := superLeafDeleteHashed_frame dm key coherent.wf.toSlotsWf
      refine coherent.touch (superLeafDeleteHashed_touches dm key coherent.wf.toSlotsWf)
        (superLeafDeleteHashed_spec dm key coherent.wf).1 ?_
      rw [sameDm, SuperLeaf.blocks_congr sameBlocks]
      exact coherent.owned
  | flush _ coherent => exact (superLeafFlushDirty_coherent coherent).1

/-- On every super-leaf and disk manager that a run from `disk_manager_init` and
`super_leaf_create` reaches, with each call given the disk manager the previous one returned,
a slot whose dirty flag is clear holds on disk the bindings its cache holds.
`super_leaf_flush_dirty` then returns the number of dirty slots, so every write succeeds. It
leaves no flag set, and the images on disk hold the map the super-leaf held before the flush:
a super-leaf that reloaded its sub-pages from the disk would find every key's binding. -/
theorem superLeafFlushDirty_writes_back {dm : DiskManager} {superLeaf : SuperLeaf}
    (run : WriteBackRun dm superLeaf) :
    (∀ i, superLeaf.dirty i = false → superLeaf.diskPageAt dm i = superLeaf.pageAt i) ∧
      (superLeafFlushDirty dm superLeaf).1 =
        (((List.range subPagesPerSuperLeaf).filter superLeaf.dirty).length : Int) ∧
      (∀ i, (superLeafFlushDirty dm superLeaf).2.2.dirty i = false) ∧
      ∀ key, (superLeafFlushDirty dm superLeaf).2.2.diskLookup
        (superLeafFlushDirty dm superLeaf).2.1 key = superLeaf.lookup key := by
  have coherent := run.coherent
  obtain ⟨flushed, counted, clean⟩ := superLeafFlushDirty_coherent coherent
  refine ⟨coherent.synced, counted, clean, fun key => ?_⟩
  rw [SuperLeaf.diskLookup, flushed.synced _ (clean _), SuperLeaf.lookup,
    (superLeafFlushDirty_hashed dm coherent.wf).2]

theorem superLeafFlushDirty_writes_back_after_one_insert :
    let inserted := superLeafInsertHashed (diskManagerInit 8192 false) superLeafCreate 5 50
    let flushed := superLeafFlushDirty inserted.2.1 inserted.2.2
    WriteBackRun inserted.2.1 inserted.2.2 ∧ flushed.1 = 1 ∧
      flushed.2.2.diskLookup flushed.2.1 5 = some 50 :=
  have run := WriteBackRun.insert 5 50 (.init 8192 false)
  have written := superLeafFlushDirty_writes_back run
  ⟨run, by rw [written.2.1]; decide, by rw [written.2.2.2]; decide⟩

end ZipCache.SsdTier
