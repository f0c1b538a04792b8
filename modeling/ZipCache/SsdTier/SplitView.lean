import ZipCache.SsdTier.Split

/-!
# The old super-leaf after a split

`redistribute_pairs_hashed` frees every cached sub-page of the old super-leaf before it deals
the pairs out, and the split never frees or rewrites a block. A sub-page that receives no pair
below the median is therefore left uncached with its old block, and the next load of it reads
whatever image that block holds (`splitSuperLeaf_left_reads_old_block`). The lemmas below
follow one slot through the three phases: dealing, flushing, and the final update.
-/

namespace ZipCache.SsdTier

@[simp]
theorem SuperLeaf.cached_totalEntries (superLeaf : SuperLeaf) (total : Int) (i : Nat) :
    { superLeaf with totalEntries := total }.cached i = superLeaf.cached i := rfl

@[simp]
theorem SuperLeaf.cached_nextSuperLeaf (superLeaf : SuperLeaf) (next : Int) (i : Nat) :
    { superLeaf with nextSuperLeaf := next }.cached i = superLeaf.cached i := rfl

@[simp]
theorem SuperLeaf.block_nextSuperLeaf (superLeaf : SuperLeaf) (next : Int) (i : Nat) :
    { superLeaf with nextSuperLeaf := next }.block i = superLeaf.block i := rfl

theorem placePair_block (superLeaf : SuperLeaf) (pair : Int × Int) (j : Nat) :
    (placePair superLeaf pair).block j = superLeaf.block j := by
  unfold placePair
  dsimp only
  split <;> split <;> rfl

theorem placePair_cached_of_ne (superLeaf : SuperLeaf) {pair : Int × Int} {i : Nat}
    (elsewhere : subPageIndex pair.1 ≠ i) :
    (placePair superLeaf pair).cached i = superLeaf.cached i := by
  unfold placePair
  dsimp only
  split <;> split <;> simp [SuperLeaf.setCached_cached, elsewhere]

theorem foldl_dealPair_block (median : Int) (pairs : List (Int × Int)) (j : Nat) :
    ∀ leaves : SuperLeaf × SuperLeaf,
      (pairs.foldl (dealPair median) leaves).1.block j = leaves.1.block j := by
  induction pairs with
  | nil => intro leaves; rfl
  | cons pair rest inductionHypothesis =>
      intro leaves
      rw [List.foldl_cons, inductionHypothesis]
      unfold dealPair
      split
      · exact placePair_block _ _ _
      · rfl

theorem foldl_dealPair_cached (median : Int) (pairs : List (Int × Int)) {i : Nat}
    (noLeftPair : ∀ pair ∈ pairs, pair.1 < median → subPageIndex pair.1 ≠ i) :
    ∀ leaves : SuperLeaf × SuperLeaf, leaves.1.cached i = none →
      (pairs.foldl (dealPair median) leaves).1.cached i = none := by
  induction pairs with
  | nil => intro leaves empty; exact empty
  | cons pair rest inductionHypothesis =>
      intro leaves empty
      rw [List.foldl_cons]
      refine inductionHypothesis
        (fun later member => noLeftPair later (List.mem_cons_of_mem _ member)) _ ?_
      unfold dealPair
      split
      · next below =>
          rw [placePair_cached_of_ne _ (noLeftPair pair (List.mem_cons_self _ _) below)]
          exact empty
      · exact empty

theorem flushSlot_block (state : Int × DiskManager × SuperLeaf) (i j : Nat) :
    (flushSlot state i).2.2.block j = state.2.2.block j := by
  obtain ⟨flushed, dm, superLeaf⟩ := state
  dsimp only [flushSlot]
  split
  · split <;> rfl
  · rfl

theorem flushSlot_cached_none (state : Int × DiskManager × SuperLeaf) (i : Nat) {j : Nat}
    (empty : state.2.2.cached j = none) : (flushSlot state i).2.2.cached j = none := by
  obtain ⟨flushed, dm, superLeaf⟩ := state
  dsimp only [flushSlot]
  split
  · next page held =>
      have elsewhere : i ≠ j := by
        rintro rfl
        rw [empty] at held
        cases held
      split <;> simp [SuperLeaf.setCached_cached, elsewhere, empty]
  · exact empty

theorem superLeafFlushDirty_frame (dm : DiskManager) (superLeaf : SuperLeaf) (j : Nat) :
    (superLeafFlushDirty dm superLeaf).2.2.block j = superLeaf.block j ∧
      (superLeaf.cached j = none → (superLeafFlushDirty dm superLeaf).2.2.cached j = none) := by
  have frame : ∀ (slots : List Nat) (state : Int × DiskManager × SuperLeaf),
      (slots.foldl flushSlot state).2.2.block j = state.2.2.block j ∧
        (state.2.2.cached j = none → (slots.foldl flushSlot state).2.2.cached j = none) := by
    intro slots
    induction slots with
    | nil => intro state; exact ⟨rfl, id⟩
    | cons i rest inductionHypothesis =>
        intro state
        rw [List.foldl_cons]
        obtain ⟨block, cached⟩ := inductionHypothesis (flushSlot state i)
        exact ⟨block.trans (flushSlot_block state i j),
          fun empty => cached (flushSlot_cached_none state i empty)⟩
  unfold superLeafFlushDirty
  exact frame _ _

theorem clearForRedistribution_cached (superLeaf : SuperLeaf) (i : Nat) :
    superLeaf.clearForRedistribution.cached i = none := by
  simp only [SuperLeaf.cached, SuperLeaf.clearForRedistribution, List.getD_eq_getElem?_getD,
    List.getElem?_replicate]
  split <;> rfl

theorem redistributePairsHashed_left {pairs : List (Int × Int)}
    {left right left' right' : SuperLeaf} {median : Int}
    (dealt : redistributePairsHashed pairs left right = some (median, left', right')) (i : Nat) :
    (∀ j, left'.block j = left.block j) ∧
      ((∀ pair ∈ pairs, pair.1 < median → subPageIndex pair.1 ≠ i) → left'.cached i = none) := by
  unfold redistributePairsHashed at dealt
  split at dealt
  · cases dealt
  · next median' _ _ =>
      simp only [Option.some.injEq, Prod.mk.injEq] at dealt
      obtain ⟨rfl, rfl, -⟩ := dealt
      exact ⟨fun j => foldl_dealPair_block median' pairs j _,
        fun noLeftPair => foldl_dealPair_cached median' pairs noLeftPair _
          (clearForRedistribution_cached left i)⟩

theorem splitSuperLeaf_left_uncached {dm dm' : DiskManager} {leaf leaf' : SuperLeaf}
    {promoted : PromotedKey} (split : splitSuperLeaf dm leaf = (promoted, dm', leaf'))
    (succeeded : promoted.rightSibling.isSome) {i : Nat}
    (noLeftPair : ∀ pair ∈ (consolidateAndSort (readPhase dm leaf)).getD [],
      pair.1 < promoted.key → subPageIndex pair.1 ≠ i) :
    leaf'.cached i = none ∧ leaf'.block i = leaf.block i := by
  unfold splitSuperLeaf at split
  dsimp only at split
  split at split
  · cases split; cases succeeded
  · split at split
    · cases split; cases succeeded
    · next pairs sorted =>
        rw [sorted] at noLeftPair
        split at split
        · cases split; cases succeeded
        · next median left right dealt =>
            split at split
            · cases split; cases succeeded
            · next allocator _ =>
                obtain ⟨rfl, -, rfl⟩ := Prod.mk.inj_iff.mp split |>.imp_right Prod.mk.inj_iff.mp
                obtain ⟨blocks, empty⟩ := redistributePairsHashed_left dealt i
                obtain ⟨sameBlock, stillEmpty⟩ := superLeafFlushDirty_frame
                  { dm with allocator := allocator } left i
                have leftEmpty : left.cached i = none := empty noLeftPair
                simp only [SuperLeaf.cached_nextSuperLeaf, SuperLeaf.block_nextSuperLeaf]
                rw [stillEmpty leftEmpty, sameBlock, blocks]
                exact ⟨rfl, rfl⟩

/-- After a split that returns a right sibling, the old super-leaf looks up a key whose
sub-page received no pair below the promoted key in the block that sub-page had before the
split: whatever image that block holds, on any later disk, is what the super-leaf holds for
that sub-page. -/
theorem splitSuperLeaf_left_reads_old_block {dm dm' : DiskManager} {leaf leaf' : SuperLeaf}
    {promoted : PromotedKey} (split : splitSuperLeaf dm leaf = (promoted, dm', leaf'))
    (succeeded : promoted.rightSibling.isSome) {key : Int}
    (noLeftPair : ∀ pair ∈ (consolidateAndSort (readPhase dm leaf)).getD [],
      pair.1 < promoted.key → subPageIndex pair.1 ≠ subPageIndex key)
    (allocated : leaf.block (subPageIndex key) ≠ invalidBlockId) (later : DiskManager) :
    (superLeafLoadSubPageByHash later leaf' key).1 =
      diskReadSubPage later (leaf.block (subPageIndex key)) := by
  obtain ⟨empty, sameBlock⟩ := splitSuperLeaf_left_uncached split succeeded noLeftPair
  unfold superLeafLoadSubPageByHash
  dsimp only
  rw [empty]
  dsimp only
  rw [sameBlock, if_neg allocated]

theorem splitSuperLeaf_left_reads_old_block_after_two_puts :
    let dm := diskManagerInit (32 * 4096) false
    let first := superLeafInsertHashed dm superLeafCreate 1 10
    let second := superLeafInsertHashed first.2.1 first.2.2 2 20
    let flushed := superLeafFlushDirty second.2.1 second.2.2
    let split := splitSuperLeaf flushed.2.1 flushed.2.2
    split.1.key = 2 ∧
      (superLeafLoadSubPageByHash split.2.1 split.2.2 2).1 =
        diskReadSubPage split.2.1 (flushed.2.2.block (subPageIndex 2)) ∧
      (superLeafSearchHashed split.2.1 split.2.2 2).1 = 20 ∧ split.2.2.totalEntries = 1 := by
  intro dm first second flushed split
  have splitEq : splitSuperLeaf flushed.2.1 flushed.2.2 = (split.1, split.2.1, split.2.2) := by
    rw [Prod.mk.eta]
  exact ⟨by decide,
    splitSuperLeaf_left_reads_old_block splitEq (by decide) (by decide) (by decide) _,
    by decide, by decide⟩

end ZipCache.SsdTier
