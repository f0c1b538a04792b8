import ZipCache.SsdTier.Counters

/-!
# Inserts in ascending key order into sub-page slot 0

Sub-page inserts in ascending key order build a page of a simple shape (`pageOf`): the pairs
in their first slots and zeros after them. A super-leaf whose keys all hash to slot 0 has one
allocated sub-page (`slotZeroLeaf`). This module proves, once for every length, what each
operation of a run of puts does to those shapes: the insert that appends, the insert that
meets a full page and returns the split signal, and `split_super_leaf`, which deals the
sorted pairs out by their median into two such super-leaves.
-/


namespace ZipCache.SsdTier

/-- The sub-page holding `pairs` in its first slots and zeros after them: what
`sub_page_create` and inserts in ascending key order build. -/
def pageOf (pairs : List (Int × Int)) : SubPage :=
  ⟨pairs.length, -1,
    pairs.map Prod.fst ++ List.replicate (entriesPerSubPage - pairs.length) 0,
    pairs.map Prod.snd ++ List.replicate (entriesPerSubPage - pairs.length) 0⟩

theorem subPageCreate_eq_pageOf_nil : subPageCreate = pageOf [] := rfl

theorem subPageIsFull_pageOf (pairs : List (Int × Int)) :
    subPageIsFull (pageOf pairs) = decide (entriesPerSubPage ≤ pairs.length) := rfl

theorem find_pageOf_of_lt {pairs : List (Int × Int)} {key : Int}
    (below : ∀ pair ∈ pairs, pair.1 < key) :
    (pageOf pairs).find key = -pairs.length - 1 := by
  have cut := @keyBinarySearch_cut (pairs.map Prod.fst) [] (List.replicate
    (entriesPerSubPage - pairs.length) 0) key (by simpa using below) (by simp)
  simpa [SubPage.find, pageOf] using cut

theorem shiftUp_end {xs : List Int} {n : Nat} (zeros : Nat) (x : Int) (sized : xs.length = n) :
    shiftUp (xs ++ List.replicate zeros 0) n n x = (xs ++ [x]) ++ List.replicate (zeros - 1) 0 := by
  subst sized
  simp [shiftUp, List.drop_append_eq_append_drop]

theorem subPageInsert_pageOf_append {pairs : List (Int × Int)} {key : Int} (data : Int)
    (below : ∀ pair ∈ pairs, pair.1 < key) (room : pairs.length < entriesPerSubPage) :
    subPageInsert (pageOf pairs) key data = (0, pageOf (pairs ++ [(key, data)])) := by
  have position : (-(-(pairs.length : Int) - 1) - 1).toNat = pairs.length := by omega
  unfold subPageInsert
  rw [subPageIsFull_pageOf, decide_eq_false (Nat.not_le.mpr room), find_pageOf_of_lt below]
  simp only [Bool.false_eq_true, if_false, show ¬ (0 : Int) ≤ -(pairs.length : Int) - 1 by omega]
  simp only [pageOf, position]
  rw [shiftUp_end _ _ (List.length_map _ _), shiftUp_end _ _ (List.length_map _ _)]
  simp [Nat.sub_sub]

theorem find_pageOf_last {pairs : List (Int × Int)} {key : Int} (data : Int)
    (below : ∀ pair ∈ pairs, pair.1 < key) :
    (pageOf (pairs ++ [(key, data)])).find key = pairs.length := by
  have slots : (pageOf (pairs ++ [(key, data)])).keys =
      pairs.map Prod.fst ++ key :: List.replicate (entriesPerSubPage - (pairs.length + 1)) 0 := by
    simp [pageOf]
  have lower : ∀ i : Int, 0 ≤ i → i < pairs.length →
      (pageOf (pairs ++ [(key, data)])).keys.getD i.toNat 0 < key := by
    intro i _ inside
    rw [slots, List.getD_eq_getElem?_getD, List.getElem?_append_left (by simp; omega)]
    simpa [List.getElem?_map, List.getElem?_eq_getElem (show i.toNat < pairs.length by omega)]
      using below _ (List.getElem_mem (show i.toNat < pairs.length by omega))
  have atKey : (pageOf (pairs ++ [(key, data)])).keys.getD pairs.length 0 = key := by
    rw [slots, List.getD_eq_getElem?_getD, List.getElem?_append_right (by simp)]
    simp
  have entries : (pageOf (pairs ++ [(key, data)])).entries = pairs.length + 1 := by simp [pageOf]
  unfold SubPage.find
  rw [keyBinarySearch_eq_of_parted pairs.length (by omega) (by omega) lower]
  · rw [if_pos ⟨by omega, by rw [Int.toNat_ofNat, atKey]⟩]
  · intro i lowest inside
    obtain rfl : i = pairs.length := by omega
    simp only [Int.toNat_ofNat, atKey, Int.le_refl]

theorem subPageSearch_pageOf_of_lt {pairs : List (Int × Int)} {key : Int}
    (below : ∀ pair ∈ pairs, pair.1 < key) : subPageSearch (pageOf pairs) key = -1 := by
  simp only [subPageSearch, find_pageOf_of_lt below]
  rw [if_neg (by omega)]

theorem subPageSearch_pageOf_last {pairs : List (Int × Int)} {key : Int} (data : Int)
    (below : ∀ pair ∈ pairs, pair.1 < key) :
    subPageSearch (pageOf (pairs ++ [(key, data)])) key = data := by
  have slots : (pageOf (pairs ++ [(key, data)])).values =
      pairs.map Prod.snd ++ data :: List.replicate (entriesPerSubPage - (pairs.length + 1)) 0 := by
    simp [pageOf]
  simp only [subPageSearch, find_pageOf_last data below]
  rw [if_pos (by omega), Int.toNat_ofNat, List.getD_eq_getElem?_getD, slots,
    List.getElem?_append_right (by simp)]
  simp

theorem subPageSearch_pageOf_of_mem {pairs : List (Int × Int)} {key value : Int}
    (ascending : pairs.Pairwise (fun first second => first.1 < second.1))
    (member : (key, value) ∈ pairs) : subPageSearch (pageOf pairs) key = value := by
  obtain ⟨front, back, rfl⟩ := List.append_of_mem member
  obtain ⟨-, backAscending, across⟩ := List.pairwise_append.mp ascending
  have below : ∀ k ∈ front.map Prod.fst, k < key := by
    simpa using fun earlier member => across earlier member (key, value) (List.mem_cons_self _ _)
  have notBelow : ∀ k ∈ key :: back.map Prod.fst, key ≤ k := by
    simp only [List.mem_cons, List.mem_map]
    rintro k (rfl | ⟨later, member, rfl⟩)
    · exact Int.le_refl _
    · exact Int.le_of_lt ((List.pairwise_cons.mp backAscending).1 later member)
  have found := @keyBinarySearch_at_cut (front.map Prod.fst) (key :: back.map Prod.fst)
    (List.replicate (entriesPerSubPage - (front ++ (key, value) :: back).length) 0) key below
    notBelow
  simp only [List.head?_cons, if_true, List.length_map, List.length_cons, List.length_append]
    at found
  simp only [subPageSearch, SubPage.find, pageOf, List.map_append, List.map_cons,
    List.length_append, List.length_cons]
  rw [show ((front.length + (back.length + 1) : Nat) : Int) =
      front.length + ((back.length + 1 : Nat) : Int) by simp, found, if_pos (Int.ofNat_nonneg _),
    Int.toNat_ofNat, List.append_assoc, List.cons_append,
    show front.length = (front.map Prod.snd).length from (List.length_map _ _).symm,
    getD_append_length]

theorem subPageInsert_pageOf_single (key data : Int) :
    subPageInsert (pageOf [(key, data)]) key data = (0, pageOf [(key, data)]) := by
  have found : (pageOf [(key, data)]).find key = 0 := by
    simpa using @find_pageOf_last [] key data (by simp)
  unfold subPageInsert
  rw [subPageIsFull_pageOf, decide_eq_false (by simp [entriesPerSubPage_eq])]
  simp only [Bool.false_eq_true, if_false, found, Int.le_refl, if_true]
  rfl

theorem pairs_pageOf (pairs : List (Int × Int)) : (pageOf pairs).pairs = pairs := by
  simp [SubPage.pairs, pageOf, List.take_append_eq_append_take]
  rw [← List.unzip_fst, ← List.unzip_snd, List.zip_unzip]

theorem subPagePrepareForCompression_pageOf (pairs : List (Int × Int)) :
    subPagePrepareForCompression (pageOf pairs) = pageOf pairs := by
  unfold subPagePrepareForCompression
  split <;> simp [pageOf]

/-- A super-leaf whose only allocated sub-page is slot 0, with that slot's block, cached copy
and dirty flag; the other fifteen slots are as `super_leaf_create` left them. -/
def slotZeroLeaf (total active : Int) (block : BitVec 32) (page : Option SubPage) (dirty : Bool) :
    SuperLeaf :=
  ⟨total, active, -1, -1, block :: List.replicate 15 invalidBlockId,
    page :: List.replicate 15 none, dirty :: List.replicate 15 false⟩

theorem superLeafCreate_eq_slotZeroLeaf :
    superLeafCreate = slotZeroLeaf 0 0 invalidBlockId none false := rfl

section SlotZero

variable {total active : Int} {block : BitVec 32} {dirty : Bool} {key : Int}

@[simp]
theorem slotZeroLeaf_cached_zero (page : Option SubPage) :
    (slotZeroLeaf total active block page dirty).cached 0 = page := rfl

@[simp]
theorem slotZeroLeaf_dirty_zero (page : Option SubPage) :
    (slotZeroLeaf total active block page dirty).dirty 0 = dirty := rfl

@[simp]
theorem slotZeroLeaf_block_zero (page : Option SubPage) :
    (slotZeroLeaf total active block page dirty).block 0 = block := rfl

@[simp]
theorem slotZeroLeaf_setCached_zero (page page' : Option SubPage) :
    (slotZeroLeaf total active block page dirty).setCached 0 page' =
      slotZeroLeaf total active block page' dirty := rfl

@[simp]
theorem slotZeroLeaf_setDirty_zero (page : Option SubPage) (dirty' : Bool) :
    (slotZeroLeaf total active block page dirty).setDirty 0 dirty' =
      slotZeroLeaf total active block page dirty' := rfl

@[simp]
theorem slotZeroLeaf_block_succ (page : Option SubPage) (i : Nat) :
    (slotZeroLeaf total active block page dirty).block (i + 1) = invalidBlockId := by
  simp only [SuperLeaf.block, slotZeroLeaf, List.getD_eq_getElem?_getD, List.getElem?_cons_succ,
    List.getElem?_replicate]
  split <;> rfl

@[simp]
theorem slotZeroLeaf_cached_succ (page : Option SubPage) (i : Nat) :
    (slotZeroLeaf total active block page dirty).cached (i + 1) = none := by
  simp only [SuperLeaf.cached, slotZeroLeaf, List.getD_eq_getElem?_getD, List.getElem?_cons_succ,
    List.getElem?_replicate]
  split <;> rfl

@[simp]
theorem slotZeroLeaf_dirty_succ (page : Option SubPage) (i : Nat) :
    (slotZeroLeaf total active block page dirty).dirty (i + 1) = false := by
  simp only [SuperLeaf.dirty, slotZeroLeaf, List.getD_eq_getElem?_getD, List.getElem?_cons_succ,
    List.getElem?_replicate]
  split <;> rfl

theorem superLeafInsertHashed_append (dm : DiskManager) {pairs : List (Int × Int)} (data : Int)
    (slot : subPageIndex key = 0) (below : ∀ pair ∈ pairs, pair.1 < key)
    (room : pairs.length < entriesPerSubPage) :
    superLeafInsertHashed dm (slotZeroLeaf total active block (some (pageOf pairs)) dirty)
        key data =
      (0, dm, slotZeroLeaf (total + 1) active block
        (some (pageOf (pairs ++ [(key, data)]))) true) := by
  have cachedPage : (slotZeroLeaf total active block (some (pageOf pairs)) dirty).cached
      (subPageIndex key) = some (pageOf pairs) := by rw [slot]; rfl
  simp only [superLeafInsertHashed, superLeafLoadSubPageByHash_cached dm cachedPage,
    subPageIsFull_pageOf, decide_eq_false (Nat.not_le.mpr room), Bool.false_eq_true, if_false,
    subPageInsert_pageOf_append data below room, ne_eq, not_true_eq_false, slot]
  rfl

theorem superLeafInsertHashed_single (dm : DiskManager) (data : Int) (slot : subPageIndex key = 0) :
    superLeafInsertHashed dm (slotZeroLeaf total active block (some (pageOf [(key, data)])) dirty)
      key data =
      (0, dm, slotZeroLeaf (total + 1) active block (some (pageOf [(key, data)])) true) := by
  have cachedPage : (slotZeroLeaf total active block (some (pageOf [(key, data)])) dirty).cached
      (subPageIndex key) = some (pageOf [(key, data)]) := by rw [slot]; rfl
  simp only [superLeafInsertHashed, superLeafLoadSubPageByHash_cached dm cachedPage,
    subPageIsFull_pageOf, decide_eq_false (show ¬ entriesPerSubPage ≤ 1 by decide),
    Bool.false_eq_true, if_false, subPageInsert_pageOf_single, ne_eq, not_true_eq_false, slot]
  rfl

theorem superLeafInsertHashed_full (dm : DiskManager) {pairs : List (Int × Int)} (data : Int)
    (slot : subPageIndex key = 0) (full : pairs.length = entriesPerSubPage)
    (counted : 4896 ≤ total) :
    superLeafInsertHashed dm (slotZeroLeaf total active block (some (pageOf pairs)) dirty)
        key data =
      (-2, dm, slotZeroLeaf total active block (some (pageOf pairs)) dirty) := by
  have cachedPage : (slotZeroLeaf total active block (some (pageOf pairs)) dirty).cached
      (subPageIndex key) = some (pageOf pairs) := by rw [slot]; rfl
  have nineTenths : superLeafIsFull (slotZeroLeaf total active block (some (pageOf pairs)) dirty) =
      true := by
    simp only [superLeafIsFull, subPagesPerSuperLeaf_eq, entriesPerSubPage_eq, decide_eq_true_eq]
    show (9 * (16 * 340) : Int) ≤ 10 * total
    omega
  simp only [superLeafInsertHashed, superLeafLoadSubPageByHash_cached dm cachedPage,
    subPageIsFull_pageOf, full, le_refl, decide_True, if_true, nineTenths]

end SlotZero

theorem superLeafInsertHashed_create {dm : DiskManager} {key : Int} (data : Int)
    {block : BitVec 32} {allocator : BlockAllocator} (slot : subPageIndex key = 0)
    (allocated : allocateBlock dm.allocator = (block, allocator)) (fresh : block ≠ invalidBlockId) :
    superLeafInsertHashed dm superLeafCreate key data =
      (0, { dm with allocator := allocator },
        slotZeroLeaf 1 1 block (some (pageOf [(key, data)])) true) := by
  have created := @subPageInsert_pageOf_append [] key data (by simp) (by decide)
  rw [← subPageCreate_eq_pageOf_nil, List.nil_append] at created
  simp only [superLeafInsertHashed, superLeafLoadSubPageByHash, slot,
    superLeafCreate_eq_slotZeroLeaf, slotZeroLeaf_cached_zero, slotZeroLeaf_block_zero, if_true,
    allocated, fresh, if_false, subPageIsFull, created]
  rfl

section Split

variable {total active : Int} {block : BitVec 32} {dirty : Bool}

theorem placePair_slotZeroLeaf {cachedPage : Option SubPage} {pairs : List (Int × Int)}
    {pair : Int × Int} (fresh : cachedPage.getD subPageCreate = pageOf pairs)
    (slot : subPageIndex pair.1 = 0) (below : ∀ earlier ∈ pairs, earlier.1 < pair.1)
    (room : pairs.length < entriesPerSubPage) :
    placePair (slotZeroLeaf total active block cachedPage dirty) pair =
      slotZeroLeaf (total + 1) active block (some (pageOf (pairs ++ [pair]))) true := by
  have inserted := subPageInsert_pageOf_append pair.2 below room
  cases cachedPage <;> simp only [Option.getD_none, Option.getD_some] at fresh <;>
    simp only [placePair, slot, slotZeroLeaf_cached_zero, fresh, inserted] <;> rfl

theorem foldl_placePair_slotZeroLeaf (later : List (Int × Int)) :
    ∀ {total : Int} {pairs : List (Int × Int)},
      (∀ placed ∈ later, subPageIndex placed.1 = 0) →
      (pairs ++ later).Pairwise (fun first second => first.1 < second.1) →
      (pairs ++ later).length ≤ entriesPerSubPage →
      later.foldl placePair (slotZeroLeaf total active block (some (pageOf pairs)) true) =
        slotZeroLeaf (total + later.length) active block (some (pageOf (pairs ++ later))) true := by
  induction later with
  | nil => intro total pairs _ _ _; simp
  | cons pair rest inductionHypothesis =>
      intro total pairs slots ascending fits
      have below : ∀ earlier ∈ pairs, earlier.1 < pair.1 := fun earlier member =>
        List.pairwise_append.mp ascending |>.2.2 earlier member pair (List.mem_cons_self _ _)
      have regrouped : pairs ++ pair :: rest = (pairs ++ [pair]) ++ rest := by simp
      rw [List.foldl_cons, placePair_slotZeroLeaf
        (rfl : (some (pageOf pairs)).getD subPageCreate = pageOf pairs)
        (slots pair (List.mem_cons_self _ _)) below (by simp at fits; omega),
        inductionHypothesis (fun placed member =>
          slots placed (List.mem_cons_of_mem _ member)) (regrouped ▸ ascending) (regrouped ▸ fits),
        ← regrouped]
      congr 1
      simp only [List.length_cons]
      omega

theorem foldl_placePair_uncached {pair : Int × Int} {rest : List (Int × Int)}
    (slots : ∀ placed ∈ pair :: rest, subPageIndex placed.1 = 0)
    (ascending : (pair :: rest).Pairwise (fun first second => first.1 < second.1))
    (fits : (pair :: rest).length ≤ entriesPerSubPage) :
    (pair :: rest).foldl placePair (slotZeroLeaf total active block none dirty) =
      slotZeroLeaf (total + (rest.length + 1)) active block
        (some (pageOf (pair :: rest))) true := by
  rw [List.foldl_cons, @placePair_slotZeroLeaf total active block dirty none [] pair rfl
      (slots pair (List.mem_cons_self _ _)) (by simp) (by decide),
    foldl_placePair_slotZeroLeaf rest (fun placed member =>
      slots placed (List.mem_cons_of_mem _ member)) (by simpa using ascending)
      (by simpa using fits)]
  congr 1
  omega

theorem foldl_dealPair_below {median : Int} (pairs : List (Int × Int))
    (below : ∀ pair ∈ pairs, pair.1 < median) (left right : SuperLeaf) :
    pairs.foldl (dealPair median) (left, right) = (pairs.foldl placePair left, right) := by
  induction pairs generalizing left with
  | nil => rfl
  | cons pair rest inductionHypothesis =>
      rw [List.foldl_cons, dealPair, if_pos (below pair (List.mem_cons_self _ _))]
      exact inductionHypothesis (fun later member => below later (List.mem_cons_of_mem _ member)) _

theorem foldl_dealPair_above {median : Int} (pairs : List (Int × Int))
    (above : ∀ pair ∈ pairs, ¬ pair.1 < median) (left right : SuperLeaf) :
    pairs.foldl (dealPair median) (left, right) = (left, pairs.foldl placePair right) := by
  induction pairs generalizing right with
  | nil => rfl
  | cons pair rest inductionHypothesis =>
      rw [List.foldl_cons, dealPair, if_neg (above pair (List.mem_cons_self _ _))]
      exact inductionHypothesis (fun later member => above later (List.mem_cons_of_mem _ member)) _

theorem foldl_sortStep_ascending (pairs : List (Int × Int)) :
    ∀ {sorted : List (Int × Int)}, pairs.Pairwise (fun first second => first.1 < second.1) →
      (∀ earlier ∈ sorted, ∀ pair ∈ pairs, earlier.1 < pair.1) →
      pairs.foldl sortStep sorted = pairs.reverse ++ sorted := by
  induction pairs with
  | nil => intro sorted _ _; rfl
  | cons pair rest inductionHypothesis =>
      intro sorted ascending above
      have onTop : sortStep sorted pair = pair :: sorted := by
        cases sorted with
        | nil => rfl
        | cons top below =>
            have lower := above top (List.mem_cons_self _ _) pair (List.mem_cons_self _ _)
            simp [sortStep, Int.not_lt.mpr (Int.le_of_lt lower)]
      rw [List.foldl_cons, onTop, inductionHypothesis (List.pairwise_cons.mp ascending).2]
      · simp
      · intro earlier member later laterMember
        rcases List.mem_cons.mp member with rfl | older
        · exact (List.pairwise_cons.mp ascending).1 later laterMember
        · exact above earlier older later (List.mem_cons_of_mem _ laterMember)

theorem readPhase_slotZeroLeaf (dm : DiskManager) {page : SubPage}
    (allocated : block ≠ invalidBlockId) :
    readPhase dm (slotZeroLeaf total active block (some page) dirty) =
      some page :: List.replicate 15 none := by
  simp [readPhase, subPagesPerSuperLeaf_eq, List.range_succ_eq_map 15, allocated, Function.comp_def]

theorem consolidateAndSort_single {page : SubPage} (stored : page.entries ≠ 0) :
    consolidateAndSort (some page :: List.replicate 15 none) =
      some (page.pairs.foldl sortStep []).reverse := by
  simp [consolidateAndSort, stored]

theorem consolidateAndSort_pageOf {pairs : List (Int × Int)}
    (ascending : pairs.Pairwise (fun first second => first.1 < second.1)) (nonempty : pairs ≠ []) :
    consolidateAndSort (some (pageOf pairs) :: List.replicate 15 none) = some pairs := by
  rw [consolidateAndSort_single (by simpa [pageOf] using nonempty), pairs_pageOf,
    foldl_sortStep_ascending _ ascending (by simp), List.append_nil, List.reverse_reverse]

theorem foldl_allocateSlot_slotZeroLeaf {allocator allocator' : BlockAllocator} {page : SubPage}
    {fresh : BitVec 32} (allocated : allocateBlock allocator = (fresh, allocator'))
    (valid : fresh ≠ invalidBlockId) :
    (List.range subPagesPerSuperLeaf).foldl allocateSlot
        (some (slotZeroLeaf total active invalidBlockId (some page) dirty), allocator) =
      (some (slotZeroLeaf total active fresh (some page) dirty), allocator') := by
  have untouched : ∀ (allocator : BlockAllocator) (i : Nat), allocateSlot
      (some (slotZeroLeaf total active fresh (some page) dirty), allocator) (i + 1) =
        (some (slotZeroLeaf total active fresh (some page) dirty), allocator) := by
    intro allocator i
    simp [allocateSlot]
  simp only [subPagesPerSuperLeaf_eq, List.range_succ_eq_map 15, List.foldl_cons, allocateSlot,
    slotZeroLeaf_cached_zero, Option.isSome_some, if_true, allocated, valid, if_false,
    List.foldl_map]
  exact List.foldl_fixed' (fun i => untouched allocator' i) _

theorem foldl_allocateSlot_slotZeroLeaf_exhausted {allocator allocator' : BlockAllocator}
    {page : SubPage} (exhausted : allocateBlock allocator = (invalidBlockId, allocator')) :
    (List.range subPagesPerSuperLeaf).foldl allocateSlot
        (some (slotZeroLeaf total active invalidBlockId (some page) dirty), allocator) =
      (none, allocator') := by
  simp only [subPagesPerSuperLeaf_eq, List.range_succ_eq_map 15, List.foldl_cons, allocateSlot,
    slotZeroLeaf_cached_zero, Option.isSome_some, if_true, exhausted, List.foldl_map]
  exact List.foldl_fixed' (fun i => rfl) _

theorem superLeafFlushDirty_slotZeroLeaf (dm : DiskManager) (pairs : List (Int × Int))
    (onDisk : block < dm.total4kbBlocks) :
    superLeafFlushDirty dm (slotZeroLeaf total active block (some (pageOf pairs)) true) =
      (1, { dm with blocks := Function.update dm.blocks block.toNat (pageOf pairs) },
        slotZeroLeaf total active block (some (pageOf pairs)) false) := by
  have untouched : ∀ (state : Int × DiskManager) (i : Nat), flushSlot (state.1, state.2,
      slotZeroLeaf total active block (some (pageOf pairs)) false) (i + 1) =
        (state.1, state.2, slotZeroLeaf total active block (some (pageOf pairs)) false) := by
    intro state i
    simp only [flushSlot, slotZeroLeaf_dirty_succ]
  simp only [superLeafFlushDirty, subPagesPerSuperLeaf_eq, List.range_succ_eq_map 15,
    List.foldl_cons, flushSlot, slotZeroLeaf_dirty_zero, slotZeroLeaf_cached_zero,
    slotZeroLeaf_block_zero, diskWriteSubPage, BitVec.not_le.mpr onDisk, if_false,
    subPagePrepareForCompression_pageOf, if_true, slotZeroLeaf_setCached_zero,
    slotZeroLeaf_setDirty_zero, List.foldl_map]
  exact List.foldl_fixed' (fun i => untouched (1, _) i) _

theorem redistributePairsHashed_slotZeroLeaf {page : Option SubPage} {low : Int × Int}
    {lower upper : List (Int × Int)} {median value : Int}
    (slots : ∀ pair ∈ (low :: lower) ++ (median, value) :: upper, subPageIndex pair.1 = 0)
    (ascending : ((low :: lower) ++ (median, value) :: upper).Pairwise
      (fun first second => first.1 < second.1))
    (halves : lower.length = upper.length) (fits : upper.length < entriesPerSubPage) :
    redistributePairsHashed ((low :: lower) ++ (median, value) :: upper)
        (slotZeroLeaf total active block page dirty) superLeafCreate =
      some (median, slotZeroLeaf (lower.length + 1) 1 block (some (pageOf (low :: lower))) true,
        slotZeroLeaf (upper.length + 1) 1 invalidBlockId
          (some (pageOf ((median, value) :: upper))) true) := by
  obtain ⟨lowerAscending, upperAscending, across⟩ := List.pairwise_append.mp ascending
  have middle : ((low :: lower) ++ (median, value) :: upper)[
      ((low :: lower) ++ (median, value) :: upper).length / 2]? = some (median, value) := by
    rw [show ((low :: lower) ++ (median, value) :: upper).length / 2 = (low :: lower).length by
      simp only [List.length_append, List.length_cons]; omega,
      List.getElem?_append_right (Nat.le_refl _), Nat.sub_self, List.getElem?_cons_zero]
  have below : ∀ pair ∈ low :: lower, pair.1 < median := fun pair member =>
    across pair member (median, value) (List.mem_cons_self _ _)
  have above : ∀ pair ∈ (median, value) :: upper, ¬ pair.1 < median := by
    intro pair member
    rcases List.mem_cons.mp member with rfl | later
    · exact Int.lt_irrefl _
    · exact Int.not_lt.mpr (Int.le_of_lt ((List.pairwise_cons.mp upperAscending).1 pair later))
  unfold redistributePairsHashed
  rw [middle]
  simp only [List.foldl_append, foldl_dealPair_below _ below, foldl_dealPair_above _ above]
  rw [show (slotZeroLeaf total active block page dirty).clearForRedistribution =
      slotZeroLeaf 0 active block none dirty from rfl,
    show superLeafCreate.clearForRedistribution =
      slotZeroLeaf 0 0 invalidBlockId none false from rfl,
    foldl_placePair_uncached (fun pair member => slots pair (List.mem_append_left _ member))
      lowerAscending (by simp only [List.length_cons]; omega),
    foldl_placePair_uncached (fun pair member => slots pair (List.mem_append_right _ member))
      upperAscending (by simp only [List.length_cons]; omega)]
  simp only [Int.zero_add]
  rfl

theorem splitSuperLeaf_slotZeroLeaf (dm : DiskManager) {low : Int × Int}
    {lower upper : List (Int × Int)} {median value : Int} {fresh : BitVec 32}
    {allocator : BlockAllocator}
    (slots : ∀ pair ∈ (low :: lower) ++ (median, value) :: upper, subPageIndex pair.1 = 0)
    (ascending : ((low :: lower) ++ (median, value) :: upper).Pairwise
      (fun first second => first.1 < second.1))
    (halves : lower.length = upper.length) (fits : upper.length < entriesPerSubPage)
    (allocatedBefore : block ≠ invalidBlockId) (onDisk : block < dm.total4kbBlocks)
    (issued : allocateBlock dm.allocator = (fresh, allocator)) (valid : fresh ≠ invalidBlockId)
    (freshOnDisk : fresh < dm.total4kbBlocks) :
    splitSuperLeaf dm (slotZeroLeaf total active block
        (some (pageOf ((low :: lower) ++ (median, value) :: upper))) true) =
      (⟨median, some (slotZeroLeaf (upper.length + 1) 1 fresh
          (some (pageOf ((median, value) :: upper))) false)⟩,
        { dm with
          allocator := allocator
          blocks := Function.update (Function.update dm.blocks block.toNat (pageOf (low :: lower)))
            fresh.toNat (pageOf ((median, value) :: upper)) },
        slotZeroLeaf (lower.length + 1) 1 block (some (pageOf (low :: lower))) false) := by
  unfold splitSuperLeaf
  rw [readPhase_slotZeroLeaf dm allocatedBefore]
  dsimp only
  rw [if_neg (by simp), consolidateAndSort_pageOf ascending (by simp)]
  dsimp only
  rw [redistributePairsHashed_slotZeroLeaf slots ascending halves fits]
  dsimp only
  rw [foldl_allocateSlot_slotZeroLeaf issued valid]
  dsimp only
  rw [superLeafFlushDirty_slotZeroLeaf { dm with allocator := allocator } _ onDisk]
  dsimp only
  rw [superLeafFlushDirty_slotZeroLeaf]
  · rfl
  · exact freshOnDisk

theorem splitSuperLeaf_slotZeroLeaf_exhausted (dm : DiskManager) {low : Int × Int}
    {lower upper : List (Int × Int)} {median value : Int} {allocator : BlockAllocator}
    (slots : ∀ pair ∈ (low :: lower) ++ (median, value) :: upper, subPageIndex pair.1 = 0)
    (ascending : ((low :: lower) ++ (median, value) :: upper).Pairwise
      (fun first second => first.1 < second.1))
    (halves : lower.length = upper.length) (fits : upper.length < entriesPerSubPage)
    (allocatedBefore : block ≠ invalidBlockId)
    (exhausted : allocateBlock dm.allocator = (invalidBlockId, allocator)) :
    splitSuperLeaf dm (slotZeroLeaf total active block
        (some (pageOf ((low :: lower) ++ (median, value) :: upper))) true) =
      (PromotedKey.failed, { dm with allocator := allocator },
        slotZeroLeaf (lower.length + 1) 1 block (some (pageOf (low :: lower))) true) := by
  unfold splitSuperLeaf
  rw [readPhase_slotZeroLeaf dm allocatedBefore]
  dsimp only
  rw [if_neg (by simp), consolidateAndSort_pageOf ascending (by simp)]
  dsimp only
  rw [redistributePairsHashed_slotZeroLeaf slots ascending halves fits]
  dsimp only
  rw [foldl_allocateSlot_slotZeroLeaf_exhausted exhausted]

end Split

end ZipCache.SsdTier
