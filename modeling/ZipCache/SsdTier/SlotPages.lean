import ZipCache.SsdTier.SubPageMap

/-!
# What the slots of a super-leaf hold

A super-leaf has two interfaces: the hashed calls that the SSD tree makes and the legacy calls
kept beside them. Both load a slot's sub-page into `cached_sub_pages` and keep it there. So
what a super-leaf holds is read off its cached sub-pages: the bindings of slot `i` are those of
its cached sub-page, and an empty slot holds none.

`SlotsWf` is the invariant that runs of either interface keep. The three arrays have sixteen
slots, a slot has a block exactly when a sub-page is cached there, and every cached sub-page
is sorted. Each interface adds its own fact about which slots are filled. `allocate_block`
fails without changing the allocator, and `super_leaf_flush_dirty` keeps the invariant and
every slot's bindings.
-/

namespace ZipCache.SsdTier

theorem allocateBlockScan_of_invalid {allocator : BlockAllocator}
    (positive : 0 < allocator.totalBlocks.toNat) :
    ∀ (remaining : Nat) (i : BitVec 32),
      (allocateBlockScan allocator remaining i).1 = invalidBlockId →
        (allocateBlockScan allocator remaining i).2 = allocator
  | 0, _, _ => rfl
  | remaining + 1, i, failed => by
      by_cases used : allocator.isSet ((allocator.nextSearchHint + i) % allocator.totalBlocks)
      · simp only [allocateBlockScan, used, if_true] at failed ⊢
        exact allocateBlockScan_of_invalid positive remaining _ failed
      · simp only [allocateBlockScan, used, Bool.false_eq_true, if_false] at failed
        have below := congrArg BitVec.toNat failed
        rw [BitVec.toNat_umod] at below
        have := Nat.mod_lt (allocator.nextSearchHint + i).toNat positive
        have := allocator.totalBlocks.isLt
        simp only [invalidBlockId, BitVec.toNat_ofNat] at below
        omega

theorem allocateBlock_of_invalid {allocator : BlockAllocator}
    (failed : (allocateBlock allocator).1 = invalidBlockId) :
    (allocateBlock allocator).2 = allocator := by
  unfold allocateBlock at failed ⊢
  split_ifs at failed ⊢ with full
  · rfl
  · have positive : 0 < allocator.totalBlocks.toNat := by
      rw [BitVec.le_def] at full
      omega
    exact allocateBlockScan_of_invalid positive _ _ failed

/-- The bindings of a slot's cached sub-page; an empty slot has none. -/
def SuperLeaf.pageAt (superLeaf : SuperLeaf) (i : Nat) : List (Int × Int) :=
  ((superLeaf.cached i).map SubPage.pairs).getD []

/-- The bindings of the sixteen slots, in slot order. -/
def SuperLeaf.pageMaps (superLeaf : SuperLeaf) : List (List (Int × Int)) :=
  (List.range subPagesPerSuperLeaf).map superLeaf.pageAt

namespace SuperLeaf

theorem pageAt_of_cached {superLeaf : SuperLeaf} {i : Nat} {page : SubPage}
    (cachedPage : superLeaf.cached i = some page) : superLeaf.pageAt i = page.pairs := by
  simp [pageAt, cachedPage]

theorem pageAt_of_uncached {superLeaf : SuperLeaf} {i : Nat} (empty : superLeaf.cached i = none) :
    superLeaf.pageAt i = [] := by
  simp [pageAt, empty]

theorem cached_setCached_inside {superLeaf : SuperLeaf} {i : Nat}
    (inside : i < superLeaf.cachedSubPages.length) (page : Option SubPage) (j : Nat) :
    (superLeaf.setCached i page).cached j = if i = j then page else superLeaf.cached j := by
  rw [setCached_cached]
  by_cases here : i = j
  · rw [if_pos ⟨here, inside⟩, if_pos here]
  · rw [if_neg fun both => here both.1, if_neg here]

theorem cached_setCached_self {superLeaf : SuperLeaf} {i : Nat}
    (inside : i < superLeaf.cachedSubPages.length) (page : Option SubPage) :
    (superLeaf.setCached i page).cached i = page := by
  rw [cached_setCached_inside inside, if_pos rfl]

theorem cached_setCached_of_ne {superLeaf : SuperLeaf} {i j : Nat} (apart : i ≠ j)
    (page : Option SubPage) : (superLeaf.setCached i page).cached j = superLeaf.cached j := by
  rw [setCached_cached, if_neg fun both => apart both.1]

theorem pageAt_setCached_of_ne {superLeaf : SuperLeaf} {i j : Nat} (apart : i ≠ j)
    (page : Option SubPage) : (superLeaf.setCached i page).pageAt j = superLeaf.pageAt j := by
  simp only [pageAt, cached_setCached_of_ne apart]

theorem isSome_setCached_of_cached {superLeaf : SuperLeaf} {i : Nat} {old : SubPage}
    (cachedOld : superLeaf.cached i = some old) (page : SubPage) (j : Nat) :
    ((superLeaf.setCached i (some page)).cached j).isSome = (superLeaf.cached j).isSome := by
  rw [cached_setCached_inside (lt_length_of_cached cachedOld)]
  split_ifs with here
  · rw [← here, cachedOld]
    rfl
  · rfl

theorem block_set {superLeaf : SuperLeaf} {i j : Nat} (blockId : BitVec 32) :
    ({ superLeaf with subPageBlocks := superLeaf.subPageBlocks.set i blockId } :
      SuperLeaf).block j =
        if i = j ∧ i < superLeaf.subPageBlocks.length then blockId else superLeaf.block j := by
  simp only [block, List.getD_eq_getElem?_getD, List.getElem?_set]
  split_ifs <;> simp_all [List.getElem?_eq_none]
  omega

end SuperLeaf

/-- The three arrays at sixteen slots, a block exactly where a sub-page is cached, and every
cached sub-page sorted. -/
structure SuperLeaf.SlotsWf (superLeaf : SuperLeaf) : Prop where
  blocksSized : superLeaf.subPageBlocks.length = subPagesPerSuperLeaf
  cachedSized : superLeaf.cachedSubPages.length = subPagesPerSuperLeaf
  dirtySized : superLeaf.dirtyFlags.length = subPagesPerSuperLeaf
  backed : ∀ i, superLeaf.block i = invalidBlockId ↔ superLeaf.cached i = none
  sorted : ∀ i page, superLeaf.cached i = some page → page.Sorted

theorem subPageCreate_sorted : subPageCreate.Sorted :=
  subPageCreate_eq_pageOf_nil ▸ pageOf_sorted List.Pairwise.nil (Nat.zero_le _)

namespace SuperLeaf.SlotsWf

variable {superLeaf : SuperLeaf} (wf : superLeaf.SlotsWf)
include wf

theorem lt_of_cached {i : Nat} {page : SubPage} (cachedPage : superLeaf.cached i = some page) :
    i < subPagesPerSuperLeaf :=
  wf.cachedSized ▸ SuperLeaf.lt_length_of_cached cachedPage

theorem block_ne_of_cached {i : Nat} {page : SubPage}
    (cachedPage : superLeaf.cached i = some page) : superLeaf.block i ≠ invalidBlockId :=
  fun invalid => Option.some_ne_none page (cachedPage.symm.trans ((wf.backed i).mp invalid))

theorem cached_of_block {i : Nat} (blocked : superLeaf.block i ≠ invalidBlockId) :
    ∃ page, superLeaf.cached i = some page ∧ page.Sorted := by
  obtain ⟨page, cachedPage⟩ := Option.ne_none_iff_exists'.mp fun empty =>
    blocked ((wf.backed i).mpr empty)
  exact ⟨page, cachedPage, wf.sorted i page cachedPage⟩

theorem setDirty (i : Nat) (flag : Bool) : (superLeaf.setDirty i flag).SlotsWf :=
  ⟨wf.blocksSized, wf.cachedSized, by simp [SuperLeaf.setDirty, wf.dirtySized], wf.backed,
    wf.sorted⟩

theorem withTotal (total : Int) : { superLeaf with totalEntries := total }.SlotsWf :=
  ⟨wf.blocksSized, wf.cachedSized, wf.dirtySized, wf.backed, wf.sorted⟩

theorem setCachedPage {i : Nat} {old page : SubPage} (cachedOld : superLeaf.cached i = some old)
    (sorted : page.Sorted) : (superLeaf.setCached i (some page)).SlotsWf := by
  have inside : i < superLeaf.cachedSubPages.length := SuperLeaf.lt_length_of_cached cachedOld
  refine ⟨wf.blocksSized, by simp [SuperLeaf.setCached, wf.cachedSized], wf.dirtySized,
    fun j => ?_, fun j page' cachedPage => ?_⟩
  · rw [SuperLeaf.setCached_block, wf.backed j, ← Option.not_isSome_iff_eq_none,
      ← Option.not_isSome_iff_eq_none, SuperLeaf.isSome_setCached_of_cached cachedOld]
  · rw [SuperLeaf.cached_setCached_inside inside] at cachedPage
    split_ifs at cachedPage
    · cases cachedPage
      exact sorted
    · exact wf.sorted j page' cachedPage

theorem setPage {i : Nat} {old page : SubPage} (cachedOld : superLeaf.cached i = some old)
    (sorted : page.Sorted) (flag : Bool) (total : Int) :
    { (superLeaf.setCached i (some page)).setDirty i flag with totalEntries := total }.SlotsWf :=
  ((wf.setCachedPage cachedOld sorted).setDirty i flag).withTotal total

theorem allocate {i : Nat} (inside : i < subPagesPerSuperLeaf) {blockId : BitVec 32}
    (issued : blockId ≠ invalidBlockId) (active : Int) :
    { (superLeaf.setCached i (some subPageCreate)).setDirty i true with
      subPageBlocks := superLeaf.subPageBlocks.set i blockId,
      activeSubPages := active }.SlotsWf := by
  have cachedAfter := SuperLeaf.cached_setCached_inside (wf.cachedSized ▸ inside)
    (some subPageCreate)
  refine ⟨by simp [wf.blocksSized], by simp [SuperLeaf.setCached, SuperLeaf.setDirty,
    wf.cachedSized], by simp [SuperLeaf.setCached, SuperLeaf.setDirty, wf.dirtySized],
    fun j => ?_, fun j page cachedPage => ?_⟩
  · show ({ superLeaf with subPageBlocks := superLeaf.subPageBlocks.set i blockId } :
      SuperLeaf).block j = invalidBlockId ↔
        (superLeaf.setCached i (some subPageCreate)).cached j = none
    rw [SuperLeaf.block_set, cachedAfter]
    by_cases here : i = j
    · subst here
      simp [wf.blocksSized, inside, issued]
    · simp only [here, false_and, if_false]
      exact wf.backed j
  · change (superLeaf.setCached i (some subPageCreate)).cached j = some page at cachedPage
    rw [cachedAfter] at cachedPage
    split_ifs at cachedPage
    · cases cachedPage
      exact subPageCreate_sorted
    · exact wf.sorted j page cachedPage

end SuperLeaf.SlotsWf

theorem superLeafCreate_uncached : ∀ i, superLeafCreate.cached i = none
  | 0 => rfl
  | i + 1 => by rw [superLeafCreate_eq_slotZeroLeaf, slotZeroLeaf_cached_succ]

theorem superLeafCreate_unbacked : ∀ i, superLeafCreate.block i = invalidBlockId
  | 0 => rfl
  | i + 1 => by rw [superLeafCreate_eq_slotZeroLeaf, slotZeroLeaf_block_succ]

theorem superLeafCreate_slotsWf : superLeafCreate.SlotsWf :=
  ⟨rfl, rfl, rfl, fun i => iff_of_true (superLeafCreate_unbacked i) (superLeafCreate_uncached i),
    fun i page cachedPage => by
      rw [superLeafCreate_uncached i] at cachedPage
      cases cachedPage⟩

theorem SubPage.Sorted.prepare {page : SubPage} (sorted : page.Sorted) :
    (subPagePrepareForCompression page).Sorted ∧
      (subPagePrepareForCompression page).pairs = page.pairs := by
  unfold subPagePrepareForCompression
  split_ifs with short
  · have kept : ∀ xs : List Int, xs.length = entriesPerSubPage →
        (xs.take page.entries ++ List.replicate (entriesPerSubPage - page.entries) 0).take
          page.entries = xs.take page.entries ∧
        (xs.take page.entries ++ List.replicate (entriesPerSubPage - page.entries) 0).length =
          entriesPerSubPage := fun xs sized =>
      ⟨List.take_left' (by simp [sized]; omega), by simp [sized]; omega⟩
    have samePairs : SubPage.pairs { page with
        keys := page.keys.take page.entries ++
          List.replicate (entriesPerSubPage - page.entries) 0,
        values := page.values.take page.entries ++
          List.replicate (entriesPerSubPage - page.entries) 0 } = page.pairs := by
      simp only [SubPage.pairs, (kept _ sorted.keysSized).1, (kept _ sorted.valuesSized).1]
    exact ⟨⟨(kept _ sorted.keysSized).2, (kept _ sorted.valuesSized).2, sorted.bounded,
      samePairs ▸ sorted.ascending⟩, samePairs⟩
  · exact ⟨sorted, rfl⟩

/-- What one slot of `super_leaf_flush_dirty` keeps: the invariant, which slots are cached,
`active_sub_pages`, and every slot's bindings. The write stores the cached copy, prepared in
place. -/
structure FlushKeeps (before after : SuperLeaf) : Prop where
  wf : after.SlotsWf
  cachedSlots : ∀ j, (after.cached j).isSome = (before.cached j).isSome
  active : after.activeSubPages = before.activeSubPages
  pages : ∀ j, after.pageAt j = before.pageAt j

theorem FlushKeeps.trans {first second third : SuperLeaf} (early : FlushKeeps first second)
    (late : FlushKeeps second third) : FlushKeeps first third :=
  ⟨late.wf, fun j => (late.cachedSlots j).trans (early.cachedSlots j),
    late.active.trans early.active, fun j => (late.pages j).trans (early.pages j)⟩

theorem flushSlot_keeps (state : Int × DiskManager × SuperLeaf) (wf : state.2.2.SlotsWf)
    (i : Nat) : FlushKeeps state.2.2 (flushSlot state i).2.2 := by
  obtain ⟨flushed, dm, superLeaf⟩ := state
  dsimp only [flushSlot]
  split
  · next page _ cachedPage =>
      have sorted := wf.sorted i page cachedPage
      have image : (diskWriteSubPage dm (superLeaf.block i) page).2.2.Sorted ∧
          (diskWriteSubPage dm (superLeaf.block i) page).2.2.pairs = page.pairs := by
        unfold diskWriteSubPage
        split
        · exact ⟨sorted, rfl⟩
        · exact sorted.prepare
      have pages : ∀ j, (superLeaf.setCached i
          (some (diskWriteSubPage dm (superLeaf.block i) page).2.2)).pageAt j =
            superLeaf.pageAt j := fun j => by
        by_cases here : i = j
        · subst here
          rw [SuperLeaf.pageAt_of_cached (SuperLeaf.cached_setCached_self
            (SuperLeaf.lt_length_of_cached cachedPage) _),
            SuperLeaf.pageAt_of_cached cachedPage, image.2]
        · exact SuperLeaf.pageAt_setCached_of_ne here _
      have written := wf.setCachedPage cachedPage image.1
      have cachedSlots := SuperLeaf.isSome_setCached_of_cached cachedPage
        (diskWriteSubPage dm (superLeaf.block i) page).2.2
      split
      · exact ⟨written.setDirty i false, cachedSlots, rfl, pages⟩
      · exact ⟨written, cachedSlots, rfl, pages⟩
  · exact ⟨wf, fun _ => rfl, rfl, fun _ => rfl⟩

theorem superLeafFlushDirty_keeps {superLeaf : SuperLeaf} (wf : superLeaf.SlotsWf)
    (dm : DiskManager) : FlushKeeps superLeaf (superLeafFlushDirty dm superLeaf).2.2 := by
  have flushed : ∀ (slots : List Nat) (state : Int × DiskManager × SuperLeaf),
      state.2.2.SlotsWf → FlushKeeps state.2.2 (slots.foldl flushSlot state).2.2 := by
    intro slots
    induction slots with
    | nil => intro state wf; exact ⟨wf, fun _ => rfl, rfl, fun _ => rfl⟩
    | cons i rest inductionHypothesis =>
        intro state wf
        have step := flushSlot_keeps state wf i
        exact step.trans (inductionHypothesis _ step.wf)
  unfold superLeafFlushDirty
  exact flushed _ (0, dm, superLeaf) wf

end ZipCache.SsdTier
