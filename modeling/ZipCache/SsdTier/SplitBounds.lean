import ZipCache.SsdTier.PageBounds

/-!
# What a split leaves in the old super-leaf

`consolidate_and_sort` gathers the pairs of pages within their slots, at most
`SUB_PAGES_PER_SUPER_LEAF * ENTRIES_PER_SUB_PAGE` of them, and sorts them by key.
`redistribute_pairs_hashed` keeps in the old super-leaf only the pairs below the key at index
`n / 2`, which all come before it, and counts only those. A split that returns a right sibling
leaves the old super-leaf's `total_entries` at most half of what a super-leaf holds.
-/

namespace ZipCache.SsdTier

theorem placePair_totalEntries_le (superLeaf : SuperLeaf) (pair : Int × Int) :
    (placePair superLeaf pair).totalEntries ≤ superLeaf.totalEntries + 1 := by
  unfold placePair
  dsimp only
  split <;> split <;>
    simp only [SuperLeaf.setCached_totalEntries, SuperLeaf.setDirty_totalEntries] <;> omega

theorem placePair_pagesBounded {superLeaf : SuperLeaf} (cache : superLeaf.PagesBounded)
    (pair : Int × Int) : (placePair superLeaf pair).PagesBounded := by
  have inserted : ∀ {page : SubPage}, page.entries ≤ entriesPerSubPage →
      ∀ p ∈ some (subPageInsert page pair.1 pair.2).2, p.entries ≤ entriesPerSubPage := by
    rintro page bounded _ ⟨⟩
    exact subPageInsert_entries_le bounded _ _
  have created : ∀ p ∈ some subPageCreate, p.entries ≤ entriesPerSubPage := by
    rintro _ ⟨⟩
    exact Nat.zero_le _
  have opened := (cache.setCached created (subPageIndex pair.1)).setDirty (subPageIndex pair.1) true
  unfold placePair
  dsimp only
  split <;> split
  · exact (cache.setCached (inserted (cache _ _ ‹_›)) (subPageIndex pair.1)).setDirty
      (subPageIndex pair.1) true
  · exact (opened.setCached (inserted (Nat.zero_le _)) (subPageIndex pair.1)).setDirty
      (subPageIndex pair.1) true
  · exact cache.setCached (inserted (cache _ _ ‹_›)) (subPageIndex pair.1)
  · exact opened.setCached (inserted (Nat.zero_le _)) (subPageIndex pair.1)

theorem foldl_dealPair_pagesBounded (median : Int) (pairs : List (Int × Int)) :
    ∀ leaves : SuperLeaf × SuperLeaf, leaves.1.PagesBounded → leaves.2.PagesBounded →
      (pairs.foldl (dealPair median) leaves).1.PagesBounded ∧
        (pairs.foldl (dealPair median) leaves).2.PagesBounded ∧
        (pairs.foldl (dealPair median) leaves).1.totalEntries ≤
          leaves.1.totalEntries + (pairs.filter fun pair => pair.1 < median).length := by
  induction pairs with
  | nil => intro leaves left right; exact ⟨left, right, by simp⟩
  | cons pair rest inductionHypothesis =>
      intro leaves left right
      rw [List.foldl_cons]
      by_cases below : pair.1 < median
      · obtain ⟨dealtLeft, dealtRight, counted⟩ :=
          inductionHypothesis (placePair leaves.1 pair, leaves.2) (placePair_pagesBounded left pair)
            right
        have placed := placePair_totalEntries_le leaves.1 pair
        rw [dealPair, if_pos below, List.filter_cons_of_pos (by simpa using below)]
        refine ⟨dealtLeft, dealtRight, ?_⟩
        rw [List.length_cons]
        dsimp only at counted
        omega
      · rw [dealPair, if_neg below, List.filter_cons_of_neg (by simpa using below)]
        exact inductionHypothesis (leaves.1, placePair leaves.2 pair) left
          (placePair_pagesBounded right pair)

theorem mem_sortStep {pair member : Int × Int} :
    ∀ {sorted : List (Int × Int)},
      member ∈ sortStep sorted pair ↔ member = pair ∨ member ∈ sorted
  | [] => by simp [sortStep]
  | top :: rest => by
      unfold sortStep
      split
      · rw [List.mem_cons, mem_sortStep, List.mem_cons]
        exact or_left_comm
      · rw [List.mem_cons]

theorem sortStep_sorted (pair : Int × Int) :
    ∀ {sorted : List (Int × Int)}, sorted.Pairwise (fun a b => b.1 ≤ a.1) →
      (sortStep sorted pair).Pairwise (fun a b => b.1 ≤ a.1) ∧
        (sortStep sorted pair).length = sorted.length + 1
  | [], _ => ⟨List.pairwise_singleton _ _, rfl⟩
  | top :: rest, descending => by
      obtain ⟨belowTop, restDescending⟩ := List.pairwise_cons.mp descending
      unfold sortStep
      split
      · next above =>
          obtain ⟨inserted, counted⟩ := sortStep_sorted pair restDescending
          refine ⟨List.pairwise_cons.mpr ⟨fun member placed => ?_, inserted⟩, by
            rw [List.length_cons, counted, List.length_cons]⟩
          rcases mem_sortStep.mp placed with rfl | older
          · exact Int.le_of_lt above
          · exact belowTop member older
      · next notAbove =>
          refine ⟨List.pairwise_cons.mpr ⟨fun member placed => ?_, descending⟩, rfl⟩
          rcases List.mem_cons.mp placed with rfl | older
          · exact Int.not_lt.mp notAbove
          · exact Int.le_trans (belowTop member older) (Int.not_lt.mp notAbove)

theorem consolidateAndSort_sorted {buffers : List (Option SubPage)} {pairs : List (Int × Int)}
    (sorted : consolidateAndSort buffers = some pairs) :
    pairs.Pairwise (fun a b => a.1 ≤ b.1) ∧
      pairs.length = (buffers.flatMap fun page => (page.map SubPage.pairs).getD []).length := by
  have insertion : ∀ (gathered acc : List (Int × Int)), acc.Pairwise (fun a b => b.1 ≤ a.1) →
      (gathered.foldl sortStep acc).Pairwise (fun a b => b.1 ≤ a.1) ∧
        (gathered.foldl sortStep acc).length = acc.length + gathered.length := by
    intro gathered
    induction gathered with
    | nil => intro acc descending; exact ⟨descending, rfl⟩
    | cons pair rest inductionHypothesis =>
        intro acc descending
        obtain ⟨inserted, counted⟩ := sortStep_sorted pair descending
        obtain ⟨sortedRest, countedRest⟩ := inductionHypothesis _ inserted
        rw [List.foldl_cons, countedRest, counted, List.length_cons]
        exact ⟨sortedRest, by omega⟩
  unfold consolidateAndSort at sorted
  dsimp only at sorted
  split at sorted
  · cases sorted
  · obtain ⟨descending, counted⟩ := insertion
      (buffers.flatMap fun page => (page.map SubPage.pairs).getD []) [] List.Pairwise.nil
    cases sorted
    exact ⟨List.pairwise_reverse.mpr descending,
      by rw [List.length_reverse, counted, List.length_nil, Nat.zero_add]⟩

theorem SubPage.length_pairs_le (subPage : SubPage) : subPage.pairs.length ≤ subPage.entries := by
  simp only [SubPage.pairs, List.length_zip, List.length_take]
  omega

theorem length_flatMap_pairs_le :
    ∀ {buffers : List (Option SubPage)}, (∀ buffer ∈ buffers, ∀ page ∈ buffer,
      page.entries ≤ entriesPerSubPage) →
      (buffers.flatMap fun page => (page.map SubPage.pairs).getD []).length ≤
        buffers.length * entriesPerSubPage
  | [], _ => Nat.zero_le _
  | buffer :: rest, bounded => by
      have first : ((buffer.map SubPage.pairs).getD []).length ≤ entriesPerSubPage := by
        cases buffer with
        | none => exact Nat.zero_le _
        | some page =>
            exact Nat.le_trans (SubPage.length_pairs_le page)
              (bounded _ (List.mem_cons_self _ _) page rfl)
      have later := length_flatMap_pairs_le fun buffer member => bounded buffer
        (List.mem_cons_of_mem _ member)
      rw [List.flatMap_cons, List.length_append, List.length_cons, Nat.succ_mul]
      omega

theorem length_filter_lt_median {pairs : List (Int × Int)}
    (sorted : pairs.Pairwise (fun a b => a.1 ≤ b.1)) {median value : Int}
    (found : pairs[pairs.length / 2]? = some (median, value)) :
    (pairs.filter fun pair => pair.1 < median).length ≤ pairs.length / 2 := by
  have upper : pairs.drop (pairs.length / 2) = (median, value) ::
      (pairs.drop (pairs.length / 2)).tail :=
    List.eq_cons_of_mem_head? (by rw [List.head?_drop, found]; rfl)
  have notBelow : ∀ pair ∈ pairs.drop (pairs.length / 2), ¬ decide (pair.1 < median) := by
    have ascending := sorted.sublist (List.drop_sublist (pairs.length / 2) pairs)
    rw [upper] at ascending ⊢
    intro pair member
    rcases List.mem_cons.mp member with rfl | later
    · simp
    · simpa using Int.not_lt.mpr ((List.pairwise_cons.mp ascending).1 pair later)
  calc (pairs.filter fun pair => pair.1 < median).length
      = ((pairs.take (pairs.length / 2)).filter fun pair => pair.1 < median).length := by
        conv_lhs => rw [← List.take_append_drop (pairs.length / 2) pairs]
        rw [List.filter_append, List.filter_eq_nil_iff.mpr notBelow, List.append_nil]
    _ ≤ (pairs.take (pairs.length / 2)).length := List.length_filter_le _ _
    _ ≤ pairs.length / 2 := List.length_take_le _ _

theorem readPhase_pagesBounded {dm : DiskManager} {superLeaf : SuperLeaf} (disk : dm.PagesBounded)
    (cache : superLeaf.PagesBounded) :
    ∀ buffer ∈ readPhase dm superLeaf, ∀ page ∈ buffer,
      page.entries ≤ entriesPerSubPage := by
  intro buffer member
  obtain ⟨i, -, rfl⟩ := List.mem_map.mp member
  split
  · rintro _ ⟨⟩
  · split
    · next cachedPage => rintro _ ⟨⟩; exact cache _ _ cachedPage
    · exact diskReadSubPage_bounded disk _

theorem redistributePairsHashed_pagesBounded {pairs : List (Int × Int)}
    {left right left' right' : SuperLeaf} {median : Int}
    (sorted : pairs.Pairwise (fun a b => a.1 ≤ b.1))
    (dealt : redistributePairsHashed pairs left right = some (median, left', right')) :
    left'.PagesBounded ∧ right'.PagesBounded ∧ 2 * left'.totalEntries ≤ pairs.length := by
  have cleared : ∀ superLeaf : SuperLeaf, superLeaf.clearForRedistribution.PagesBounded := by
    intro superLeaf i page cachedPage
    rw [clearForRedistribution_cached] at cachedPage
    cases cachedPage
  unfold redistributePairsHashed at dealt
  split at dealt
  · cases dealt
  · next median' value found =>
      obtain ⟨dealtLeft, dealtRight, counted⟩ :=
        foldl_dealPair_pagesBounded median' pairs
          (left.clearForRedistribution, right.clearForRedistribution) (cleared left) (cleared right)
      have half := length_filter_lt_median sorted found
      simp only [Option.some.injEq, Prod.mk.injEq] at dealt
      obtain ⟨rfl, rfl, rfl⟩ := dealt
      refine ⟨dealtLeft, dealtRight, ?_⟩
      have emptied : left.clearForRedistribution.totalEntries = 0 := rfl
      dsimp only at counted ⊢
      omega

theorem foldl_allocateSlot_pagesBounded (slots : List Nat) :
    ∀ state : Option SuperLeaf × BlockAllocator, (∀ right ∈ state.1, right.PagesBounded) →
      ∀ right ∈ (slots.foldl allocateSlot state).1, right.PagesBounded := by
  induction slots with
  | nil => intro state bounded; exact bounded
  | cons i rest inductionHypothesis =>
      intro state bounded
      rw [List.foldl_cons]
      refine inductionHypothesis _ ?_
      unfold allocateSlot
      split
      · next right allocator =>
          split
          · dsimp only
            split
            · rintro _ ⟨⟩
            · rintro _ ⟨⟩
              exact bounded right rfl
          · exact bounded
      · exact bounded

theorem splitSuperLeaf_pagesBounded {dm : DiskManager} {leaf : SuperLeaf}
    (disk : dm.PagesBounded) (cache : leaf.PagesBounded) :
    (splitSuperLeaf dm leaf).2.1.PagesBounded ∧ (splitSuperLeaf dm leaf).2.2.PagesBounded ∧
      ∀ right ∈ (splitSuperLeaf dm leaf).1.rightSibling, right.PagesBounded ∧
        2 * (splitSuperLeaf dm leaf).2.2.totalEntries ≤
          (subPagesPerSuperLeaf * entriesPerSubPage : Nat) := by
  have gathered := length_flatMap_pairs_le (readPhase_pagesBounded disk cache)
  rw [readPhase, List.length_map, List.length_range] at gathered
  unfold splitSuperLeaf
  dsimp only
  split
  · exact ⟨disk, cache, by rintro _ ⟨⟩⟩
  split
  · exact ⟨disk, cache, by rintro _ ⟨⟩⟩
  next pairs consolidated =>
  obtain ⟨sorted, counted⟩ := consolidateAndSort_sorted consolidated
  split
  · exact ⟨disk, cache, by rintro _ ⟨⟩⟩
  next median left right dealt =>
  obtain ⟨leftBounded, rightBounded, half⟩ := redistributePairsHashed_pagesBounded sorted dealt
  split
  · exact ⟨disk, leftBounded, by rintro _ ⟨⟩⟩
  next right' allocator allocated =>
  have allocatedBounded := foldl_allocateSlot_pagesBounded _ (some right, dm.allocator)
    (by rintro _ ⟨⟩; exact rightBounded) right' (by rw [allocated]; rfl)
  obtain ⟨leftDisk, leftCache, leftTotal⟩ :=
    superLeafFlushDirty_pagesBounded
      (show DiskManager.PagesBounded { dm with allocator } from disk) leftBounded
  obtain ⟨rightDisk, rightCache, -⟩ :=
    superLeafFlushDirty_pagesBounded leftDisk allocatedBounded
  revert leftDisk leftCache leftTotal rightDisk rightCache
  generalize superLeafFlushDirty { dm with allocator := allocator } left = flushedLeft
  generalize superLeafFlushDirty flushedLeft.2.1 right' = flushedRight
  intro leftDisk leftCache leftTotal rightDisk rightCache
  refine ⟨rightDisk, leftCache, ?_⟩
  rintro _ ⟨⟩
  refine ⟨rightCache, ?_⟩
  dsimp only
  rw [leftTotal]
  rw [readPhase] at counted
  omega

end ZipCache.SsdTier
