import ZipCache.SsdTier.Retry
import ZipCache.SsdTier.Allocator

/-!
# No block in two slots

A super-leaf's `sub_page_blocks` name the disk blocks its sub-pages are written back to. On
every tree that `bplus_tree_ssd_init`, `bplus_tree_ssd_put` and `bplus_tree_ssd_get` reach,
no block is named by two slots, of one super-leaf or of two, and every named block is marked
in use in the allocator's bitmap. A write-back of one sub-page therefore never overwrites
another's image, and `allocate_block` never hands out a block that a slot still names.

Slots only ever gain blocks: a sub-page loaded for the first time, or a cached sub-page of the
right sibling of a split, takes a fresh block from `allocate_block`. A split whose allocations
fail part-way drops its right sibling and leaves the blocks it took marked in use.
-/

namespace ZipCache.SsdTier

/-- The blocks a super-leaf's slots name: `sub_page_blocks[i]` for
`i < SUB_PAGES_PER_SUPER_LEAF`, other than `INVALID_BLOCK_ID`. -/
def SuperLeaf.blocks (superLeaf : SuperLeaf) : List (BitVec 32) :=
  ((List.range subPagesPerSuperLeaf).map superLeaf.block).filter (· ≠ invalidBlockId)

/-- The blocks the tree's super-leaves name, super-leaf by super-leaf. -/
def BplusTreeSsd.blocks (tree : BplusTreeSsd) : List (BitVec 32) :=
  match tree.root with
  | none => []
  | some root => root.subPtr.flatMap SuperLeaf.blocks

namespace BlockAllocator

/-- The allocator owns a list of blocks: each is below the total and marked in use, and none
is listed twice. -/
structure Owns (allocator : BlockAllocator) (blocks : List (BitVec 32)) : Prop where
  wf : allocator.Wf
  inUse : ∀ b ∈ blocks, b.toNat < allocator.totalBlocks.toNat ∧ allocator.used b.toNat = true
  distinct : blocks.Nodup

end BlockAllocator

/-- The tree's allocator owns every block its super-leaves name. -/
def BplusTreeSsd.OwnsBlocks (tree : BplusTreeSsd) : Prop :=
  tree.diskMgr.allocator.Owns tree.blocks

theorem SuperLeaf.blocks_congr {superLeaf superLeaf' : SuperLeaf}
    (same : superLeaf'.subPageBlocks = superLeaf.subPageBlocks) :
    superLeaf'.blocks = superLeaf.blocks := by
  have named : superLeaf'.block = superLeaf.block := funext fun i => by simp only [block, same]
  rw [blocks, blocks, named]

theorem filter_set_perm {l : List (BitVec 32)} {p : BitVec 32 → Bool} {i : Nat} {x : BitVec 32}
    (inRange : i < l.length) (dropped : p l[i] = false) (kept : p x = true) :
    ((l.set i x).filter p).Perm (x :: l.filter p) := by
  have split : l = l.take i ++ l[i] :: l.drop (i + 1) := by
    rw [← List.drop_eq_getElem_cons inRange, List.take_append_drop]
  rw [List.set_eq_take_append_cons_drop, if_pos inRange]
  conv => rhs; rw [split]
  simp only [List.filter_append, List.filter_cons, dropped, kept, if_true, Bool.false_eq_true,
    if_false]
  exact List.perm_middle

theorem SuperLeaf.blocks_set {superLeaf superLeaf' : SuperLeaf} {i : Nat} {blockId : BitVec 32}
    (inRange : i < subPagesPerSuperLeaf) (empty : superLeaf.block i = invalidBlockId)
    (valid : blockId ≠ invalidBlockId)
    (set : superLeaf'.subPageBlocks = superLeaf.subPageBlocks.set i blockId) :
    superLeaf'.blocks.Perm (blockId :: superLeaf.blocks) ∨
      superLeaf'.blocks = superLeaf.blocks := by
  by_cases inside : i < superLeaf.subPageBlocks.length
  · refine .inl ?_
    have mapped : (List.range subPagesPerSuperLeaf).map superLeaf'.block =
        ((List.range subPagesPerSuperLeaf).map superLeaf.block).set i blockId := by
      apply List.ext_getElem (by simp)
      intro j _ _
      simp only [List.getElem_map, List.getElem_range, List.getElem_set, block, set,
        List.getD_eq_getElem?_getD, List.getElem?_set]
      split_ifs <;> simp_all
    unfold blocks
    rw [mapped]
    exact filter_set_perm (by simpa using inRange) (by simpa using empty) (by simpa using valid)
  · refine .inr (blocks_congr ?_)
    rw [set, List.set_eq_take_append_cons_drop, if_neg inside]

namespace BlockAllocator

theorem Owns.perm {allocator : BlockAllocator} {blocks blocks' : List (BitVec 32)}
    (owns : allocator.Owns blocks) (perm : blocks.Perm blocks') : allocator.Owns blocks' :=
  ⟨owns.wf, fun b member => owns.inUse b (perm.mem_iff.mpr member),
    perm.nodup_iff.mp owns.distinct⟩

theorem Owns.sublist {allocator : BlockAllocator} {blocks blocks' : List (BitVec 32)}
    (owns : allocator.Owns blocks) (sub : blocks'.Sublist blocks) : allocator.Owns blocks' :=
  ⟨owns.wf, fun b member => owns.inUse b (sub.subset member), sub.nodup owns.distinct⟩

theorem Owns.ne_invalid {allocator : BlockAllocator} {blocks : List (BitVec 32)}
    (owns : allocator.Owns blocks) {b : BitVec 32} (member : b ∈ blocks) :
    b ≠ invalidBlockId := by
  rintro rfl
  have below := (owns.inUse _ member).1
  have small := owns.wf.small
  simp only [invalidBlockId, BitVec.toNat_ofNat] at below
  omega

theorem Owns.allocateBlock {allocator : BlockAllocator} {blocks : List (BitVec 32)}
    (owns : allocator.Owns blocks) :
    ((SsdTier.allocateBlock allocator).1 = invalidBlockId ∧
        (SsdTier.allocateBlock allocator).2 = allocator) ∨
      (SsdTier.allocateBlock allocator).2.Owns ((SsdTier.allocateBlock allocator).1 :: blocks) := by
  rcases allocateBlock_spec owns.wf with ⟨j, below, -, free, issued⟩ | ⟨-, failed⟩
  · have nonEmpty : 0 < allocator.totalBlocks.toNat := by omega
    have probed := toNat_ofNat_probe owns.wf (j := j) nonEmpty
    have inside := word_inside owns.wf.covered (probe_lt allocator (j := j) nonEmpty)
    rw [← probed] at inside
    refine .inr ?_
    rw [issued]
    refine ⟨owns.wf.take (by rw [probed]; exact probe_lt _ nonEmpty) (by rw [probed]; exact free),
      fun b member => ?_, List.nodup_cons.mpr ⟨fun member => ?_, owns.distinct⟩⟩
    · rw [take_totalBlocks, used_take _ inside]
      rcases List.mem_cons.mp member with rfl | old
      · exact ⟨by rw [probed]; exact probe_lt _ nonEmpty, by simp⟩
      · have held := owns.inUse b old
        exact ⟨held.1, by simp [held.2]⟩
    · have held := (owns.inUse _ member).2
      rw [probed, free] at held
      cases held
  · exact .inl ⟨by rw [failed], by rw [failed]⟩

theorem Owns.setSlot {allocator : BlockAllocator} {superLeaf superLeaf' : SuperLeaf}
    {others : List (BitVec 32)} {i : Nat} {blockId : BitVec 32}
    (owns : allocator.Owns (blockId :: (superLeaf.blocks ++ others)))
    (inRange : i < subPagesPerSuperLeaf) (empty : superLeaf.block i = invalidBlockId)
    (set : superLeaf'.subPageBlocks = superLeaf.subPageBlocks.set i blockId) :
    allocator.Owns (superLeaf'.blocks ++ others) := by
  rcases SuperLeaf.blocks_set inRange empty (owns.ne_invalid (List.mem_cons_self _ _)) set with
    grown | same
  · exact owns.perm (grown.append_right others).symm
  · rw [same]
    exact owns.sublist (List.sublist_cons_self _ _)

end BlockAllocator

section SuperLeafOperations

variable {dm : DiskManager} {superLeaf : SuperLeaf} {others : List (BitVec 32)}

theorem superLeafLoadSubPageByHash_owns (owns : dm.allocator.Owns (superLeaf.blocks ++ others))
    (key : Int) :
    (superLeafLoadSubPageByHash dm superLeaf key).2.1.allocator.Owns
      ((superLeafLoadSubPageByHash dm superLeaf key).2.2.blocks ++ others) := by
  unfold superLeafLoadSubPageByHash
  dsimp only
  split
  · exact owns
  · split
    · next empty =>
        rcases owns.allocateBlock with ⟨failed, same⟩ | taken
        · rw [if_pos failed]
          show DiskManager.allocator { dm with allocator := _ } |>.Owns _
          rw [same]
          exact owns
        · rw [if_neg (taken.ne_invalid (List.mem_cons_self _ _))]
          exact taken.setSlot (subPageIndex_lt key) empty rfl
    · exact owns

theorem superLeafInsertHashed_owns (owns : dm.allocator.Owns (superLeaf.blocks ++ others))
    (key data : Int) :
    (superLeafInsertHashed dm superLeaf key data).2.1.allocator.Owns
      ((superLeafInsertHashed dm superLeaf key data).2.2.blocks ++ others) := by
  have loaded := superLeafLoadSubPageByHash_owns owns key
  unfold superLeafInsertHashed
  revert loaded
  rcases superLeafLoadSubPageByHash dm superLeaf key with ⟨page, loadedDm, loadedLeaf⟩
  intro loaded
  cases page with
  | none => exact loaded
  | some page =>
      dsimp only
      split
      · exact loaded
      · split <;> exact loaded

theorem superLeafSearchHashed_owns (owns : dm.allocator.Owns (superLeaf.blocks ++ others))
    (key : Int) :
    (superLeafSearchHashed dm superLeaf key).2.1.allocator.Owns
      ((superLeafSearchHashed dm superLeaf key).2.2.blocks ++ others) := by
  have loaded := superLeafLoadSubPageByHash_owns owns key
  unfold superLeafSearchHashed
  split
  · exact owns
  · revert loaded
    rcases superLeafLoadSubPageByHash dm superLeaf key with ⟨page, loadedDm, loadedLeaf⟩
    intro loaded
    cases page <;> exact loaded

theorem superLeafFlushDirty_allocator (dm : DiskManager) (superLeaf : SuperLeaf) :
    (superLeafFlushDirty dm superLeaf).2.1.allocator = dm.allocator ∧
      (superLeafFlushDirty dm superLeaf).2.2.blocks = superLeaf.blocks := by
  have kept : ∀ (slots : List Nat) (state : Int × DiskManager × SuperLeaf),
      (slots.foldl flushSlot state).2.1.allocator = state.2.1.allocator := by
    intro slots
    induction slots with
    | nil => intro state; rfl
    | cons i rest inductionHypothesis =>
        intro state
        rw [List.foldl_cons, inductionHypothesis]
        obtain ⟨flushed, dm, superLeaf⟩ := state
        dsimp only [flushSlot]
        split
        · unfold diskWriteSubPage
          split <;> dsimp only <;> split <;> rfl
        · rfl
  have named : (superLeafFlushDirty dm superLeaf).2.2.block = superLeaf.block :=
    funext fun j => (superLeafFlushDirty_frame dm superLeaf j).1
  refine ⟨?_, by rw [SuperLeaf.blocks, SuperLeaf.blocks, named]⟩
  unfold superLeafFlushDirty
  exact kept (List.range subPagesPerSuperLeaf) (0, dm, superLeaf)

end SuperLeafOperations

theorem SuperLeaf.blocks_eq_of_block {superLeaf superLeaf' : SuperLeaf}
    (same : ∀ j, superLeaf'.block j = superLeaf.block j) :
    superLeaf'.blocks = superLeaf.blocks := by
  rw [blocks, blocks, funext same]

theorem SuperLeaf.blocks_eq_nil {superLeaf : SuperLeaf}
    (empty : ∀ j, superLeaf.block j = invalidBlockId) : superLeaf.blocks = [] := by
  simp [blocks, empty]

theorem superLeafCreate_block (j : Nat) : superLeafCreate.block j = invalidBlockId := by
  simp only [SuperLeaf.block, superLeafCreate, List.getD_eq_getElem?_getD,
    List.getElem?_replicate]
  split <;> rfl

theorem foldl_dealPair_block_right (median : Int) (pairs : List (Int × Int)) (j : Nat) :
    ∀ leaves : SuperLeaf × SuperLeaf,
      (pairs.foldl (dealPair median) leaves).2.block j = leaves.2.block j := by
  induction pairs with
  | nil => intro leaves; rfl
  | cons pair rest inductionHypothesis =>
      intro leaves
      rw [List.foldl_cons, inductionHypothesis]
      unfold dealPair
      split
      · rfl
      · exact placePair_block _ _ _

theorem redistributePairsHashed_right_block {pairs : List (Int × Int)}
    {left right left' right' : SuperLeaf} {median : Int}
    (dealt : redistributePairsHashed pairs left right = some (median, left', right')) (j : Nat) :
    right'.block j = right.block j := by
  unfold redistributePairsHashed at dealt
  split at dealt
  · cases dealt
  · next median' _ _ =>
      simp only [Option.some.injEq, Prod.mk.injEq] at dealt
      obtain ⟨rfl, -, rfl⟩ := dealt
      exact foldl_dealPair_block_right median' pairs j _

theorem foldl_allocateSlot_none (allocator : BlockAllocator) :
    ∀ slots : List Nat, slots.foldl allocateSlot (none, allocator) = (none, allocator)
  | [] => rfl
  | _ :: rest => foldl_allocateSlot_none allocator rest

theorem allocateSlot_owns {others : List (BitVec 32)} {right : SuperLeaf}
    {allocator : BlockAllocator} {i : Nat} (inRange : i < subPagesPerSuperLeaf)
    (empty : right.block i = invalidBlockId) (owns : allocator.Owns (right.blocks ++ others)) :
    (allocateSlot (some right, allocator) i).2.Owns
        ((((allocateSlot (some right, allocator) i).1.map SuperLeaf.blocks).getD []) ++ others) ∧
      ∀ right' ∈ (allocateSlot (some right, allocator) i).1, ∀ j ≠ i,
        right'.block j = right.block j := by
  unfold allocateSlot
  dsimp only
  split
  · rcases owns.allocateBlock with ⟨failed, same⟩ | taken
    · rw [if_pos failed, same]
      exact ⟨owns.sublist (List.sublist_append_right _ _), by rintro _ ⟨⟩⟩
    · rw [if_neg (taken.ne_invalid (List.mem_cons_self _ _))]
      refine ⟨taken.setSlot inRange empty rfl, ?_⟩
      rintro _ ⟨⟩ j other
      simp only [SuperLeaf.block, List.getD_eq_getElem?_getD, List.getElem?_set, Ne.symm other,
        if_false]
  · exact ⟨owns, fun _ kept _ _ => by cases kept; rfl⟩

theorem foldl_allocateSlot_owns {others : List (BitVec 32)} :
    ∀ (slots : List Nat) (right : SuperLeaf) (allocator : BlockAllocator), slots.Nodup →
      (∀ i ∈ slots, i < subPagesPerSuperLeaf ∧ right.block i = invalidBlockId) →
      allocator.Owns (right.blocks ++ others) →
      (slots.foldl allocateSlot (some right, allocator)).2.Owns
        ((((slots.foldl allocateSlot (some right, allocator)).1.map SuperLeaf.blocks).getD []) ++
          others)
  | [], _, _, _, _, owns => owns
  | i :: rest, right, allocator, distinct, empty, owns => by
      obtain ⟨notInRest, restDistinct⟩ := List.nodup_cons.mp distinct
      obtain ⟨inRange, emptySlot⟩ := empty i (List.mem_cons_self _ _)
      obtain ⟨stepOwns, stepFrame⟩ := allocateSlot_owns inRange emptySlot owns
      rw [List.foldl_cons]
      revert stepOwns stepFrame
      rcases allocateSlot (some right, allocator) i with ⟨_ | right', allocator'⟩
      · intro stepOwns _
        rw [foldl_allocateSlot_none]
        exact stepOwns
      · intro stepOwns stepFrame
        refine foldl_allocateSlot_owns rest right' allocator' restDistinct (fun j member => ?_)
          stepOwns
        obtain ⟨jRange, jEmpty⟩ := empty j (List.mem_cons_of_mem _ member)
        exact ⟨jRange, (stepFrame right' rfl j fun same => notInRest (same ▸ member)).trans jEmpty⟩

theorem splitSuperLeaf_owns {dm : DiskManager} {leaf : SuperLeaf} {others : List (BitVec 32)}
    (owns : dm.allocator.Owns (leaf.blocks ++ others)) :
    (splitSuperLeaf dm leaf).2.1.allocator.Owns ((splitSuperLeaf dm leaf).2.2.blocks ++ others) ∧
      ∀ right ∈ (splitSuperLeaf dm leaf).1.rightSibling,
        (splitSuperLeaf dm leaf).2.1.allocator.Owns
          (right.blocks ++ ((splitSuperLeaf dm leaf).2.2.blocks ++ others)) := by
  unfold splitSuperLeaf
  dsimp only
  split
  · exact ⟨owns, by rintro _ ⟨⟩⟩
  split
  · exact ⟨owns, by rintro _ ⟨⟩⟩
  next pairs consolidated =>
  split
  · exact ⟨owns, by rintro _ ⟨⟩⟩
  next median left right dealt =>
  have leftBlocks := SuperLeaf.blocks_eq_of_block (redistributePairsHashed_left dealt 0).1
  have rightEmpty : ∀ i, right.block i = invalidBlockId := fun i =>
    (redistributePairsHashed_right_block dealt i).trans (superLeafCreate_block i)
  have rightBlocks := SuperLeaf.blocks_eq_nil rightEmpty
  have allocated := foldl_allocateSlot_owns (List.range subPagesPerSuperLeaf) right dm.allocator
    (List.nodup_range _) (fun i member => ⟨List.mem_range.mp member, rightEmpty i⟩)
    (show dm.allocator.Owns (right.blocks ++ (left.blocks ++ others)) by
      rw [rightBlocks, leftBlocks]; exact owns)
  split
  · next allocator failed =>
      rw [failed] at allocated
      exact ⟨by simpa using allocated, by rintro _ ⟨⟩⟩
  next right' allocator succeeded =>
  rw [succeeded] at allocated
  obtain ⟨leftAllocator, leftFlushed⟩ :=
    superLeafFlushDirty_allocator { dm with allocator := allocator } left
  obtain ⟨rightAllocator, rightFlushed⟩ :=
    superLeafFlushDirty_allocator (superLeafFlushDirty { dm with allocator } left).2.1 right'
  revert leftAllocator leftFlushed rightAllocator rightFlushed
  generalize superLeafFlushDirty { dm with allocator := allocator } left = flushedLeft
  generalize superLeafFlushDirty flushedLeft.2.1 right' = flushedRight
  intro leftAllocator leftFlushed rightAllocator rightFlushed
  have owned : flushedRight.2.1.allocator.Owns
      (flushedRight.2.2.blocks ++ (flushedLeft.2.2.blocks ++ others)) := by
    rw [rightAllocator, leftAllocator, rightFlushed, leftFlushed]
    simpa using allocated
  refine ⟨owned.sublist (List.sublist_append_right _ _), ?_⟩
  rintro _ ⟨⟩
  exact owned

theorem perm_append_middle (front middle back : List (BitVec 32)) :
    (front ++ (middle ++ back)).Perm (middle ++ (front ++ back)) := by
  rw [← List.append_assoc, ← List.append_assoc]
  exact List.perm_append_comm.append_right back

theorem flatMap_blocks_set {leaves : List SuperLeaf} {i : Nat} {superLeaf : SuperLeaf}
    (found : leaves[i]? = some superLeaf) (superLeaf' : SuperLeaf) :
    (leaves.flatMap SuperLeaf.blocks).Perm
        (superLeaf.blocks ++ (leaves.take i ++ leaves.drop (i + 1)).flatMap SuperLeaf.blocks) ∧
      ((leaves.set i superLeaf').flatMap SuperLeaf.blocks).Perm
        (superLeaf'.blocks ++ (leaves.take i ++ leaves.drop (i + 1)).flatMap SuperLeaf.blocks) := by
  obtain ⟨inRange, rfl⟩ := List.getElem?_eq_some_iff.mp found
  have split : leaves = leaves.take i ++ leaves[i] :: leaves.drop (i + 1) := by
    rw [← List.drop_eq_getElem_cons inRange, List.take_append_drop]
  rw [List.set_eq_take_append_cons_drop, if_pos inRange]
  constructor
  · conv => lhs; rw [split]
    simpa only [List.flatMap_append, List.flatMap_cons] using perm_append_middle _ _ _
  · simpa only [List.flatMap_append, List.flatMap_cons] using perm_append_middle _ _ _

theorem flatMap_blocks_insertAt (leaves : List SuperLeaf) (i : Nat) (superLeaf : SuperLeaf) :
    ((insertAt leaves i superLeaf).flatMap SuperLeaf.blocks).Perm
      (superLeaf.blocks ++ leaves.flatMap SuperLeaf.blocks) := by
  conv => rhs; rw [← List.take_append_drop i leaves]
  simpa only [insertAt, List.flatMap_append, List.flatMap_cons] using perm_append_middle _ _ _

theorem BplusTreeSsd.ownsBlocks_iff {tree : BplusTreeSsd} {root : LeafParent}
    (rooted : tree.root = some root) :
    tree.OwnsBlocks ↔ tree.diskMgr.allocator.Owns (root.subPtr.flatMap SuperLeaf.blocks) := by
  rw [OwnsBlocks, blocks, rooted]

theorem bplusTreeSearch_ownsBlocks {tree : BplusTreeSsd} (owned : tree.OwnsBlocks) (key : Int) :
    (bplusTreeSearch tree key).2.OwnsBlocks := by
  unfold bplusTreeSearch
  split
  · exact owned
  · next root rooted =>
      dsimp only
      split
      · split
        · next superLeaf found =>
            obtain ⟨before, after⟩ :=
              flatMap_blocks_set found (superLeafSearchHashed tree.diskMgr superLeaf key).2.2
            have searched := superLeafSearchHashed_owns
              (((BplusTreeSsd.ownsBlocks_iff rooted).mp owned).perm before) key
            exact (BplusTreeSsd.ownsBlocks_iff rfl).mpr (searched.perm after.symm)
        · exact owned
      · exact owned

theorem bplusTreeInsert_ownsBlocks {key data : Int} :
    ∀ {rounds : Nat} {tree tree' : BplusTreeSsd} {result : Int}, tree.OwnsBlocks →
      bplusTreeInsert rounds tree key data = some (result, tree') → tree'.OwnsBlocks
  | 0, _, _, _, _, inserted => by cases inserted
  | rounds + 1, tree, tree', result, owned, inserted => by
      cases rooted : tree.root with
      | none =>
          have empty : tree.diskMgr.allocator.Owns (superLeafCreate.blocks ++ []) := by
            rw [SuperLeaf.blocks_eq_nil superLeafCreate_block]
            simpa [BplusTreeSsd.OwnsBlocks, BplusTreeSsd.blocks, rooted] using owned
          have created := superLeafInsertHashed_owns empty key data
          simp only [bplusTreeInsert, rooted] at inserted
          split at inserted <;> simp only [Option.some.injEq, Prod.mk.injEq] at inserted <;>
            obtain ⟨-, rfl⟩ := inserted <;> rw [BplusTreeSsd.ownsBlocks_iff rfl]
          · exact created.sublist (List.sublist_append_right _ _)
          · simpa using created
      | some root =>
          obtain ⟨keys, leaves⟩ := root
          cases leaves with
          | nil =>
              simp only [bplusTreeInsert, rooted, Option.some.injEq, Prod.mk.injEq] at inserted
              obtain ⟨-, rfl⟩ := inserted
              exact owned
          | cons first rest =>
              have firstOwned := superLeafInsertHashed_owns
                (by simpa using (BplusTreeSsd.ownsBlocks_iff rooted).mp owned) key data
              rcases insertedEq : superLeafInsertHashed tree.diskMgr first key data with
                ⟨status, dm, first'⟩
              rw [insertedEq] at firstOwned
              by_cases signal : status = -2
              · subst signal
                have splitOwned := splitSuperLeaf_owns firstOwned
                rcases splitEq : splitSuperLeaf dm first' with ⟨⟨median, sibling⟩, dm', left⟩
                rw [splitEq] at splitOwned
                obtain ⟨leftOwned, rightOwned⟩ := splitOwned
                cases sibling with
                | none =>
                    rw [bplusTreeInsert_of_failed_split rooted insertedEq splitEq rfl,
                      Option.some.injEq, Prod.mk.injEq] at inserted
                    obtain ⟨-, rfl⟩ := inserted
                    exact (BplusTreeSsd.ownsBlocks_iff rfl).mpr (by simpa using leftOwned)
                | some right =>
                    cases promotedEq : updateParentWithPromotedKey
                        { tree with diskMgr := dm', root := some ⟨keys, left :: rest⟩ }
                        ⟨median, some right⟩ with
                    | none =>
                        rw [bplusTreeInsert_of_refused_promotion rooted insertedEq splitEq
                          promotedEq,
                          Option.some.injEq, Prod.mk.injEq] at inserted
                        obtain ⟨-, rfl⟩ := inserted
                        exact (BplusTreeSsd.ownsBlocks_iff rfl).mpr (by simpa using leftOwned)
                    | some promotedTree =>
                        rw [bplusTreeInsert_of_split rooted insertedEq splitEq promotedEq]
                          at inserted
                        refine bplusTreeInsert_ownsBlocks ?_ inserted
                        obtain ⟨right', root', pos, sibling, promotedRoot, rfl⟩ :=
                          updateParentWithPromotedKey_cases promotedEq
                        cases sibling
                        cases promotedRoot
                        refine (BplusTreeSsd.ownsBlocks_iff rfl).mpr ?_
                        exact (rightOwned right rfl).perm (by
                          simpa only [List.flatMap_cons] using
                            (flatMap_blocks_insertAt (left :: rest) (pos + 1) right).symm)
              · rw [bplusTreeInsert_of_no_split rooted insertedEq signal, Option.some.injEq,
                  Prod.mk.injEq] at inserted
                obtain ⟨-, rfl⟩ := inserted
                exact (BplusTreeSsd.ownsBlocks_iff rfl).mpr (by simpa using firstOwned)

theorem BplusTreeSsd.Reachable.ownsBlocks {tree : BplusTreeSsd} (reachable : tree.Reachable) :
    tree.OwnsBlocks := by
  induction reachable with
  | init opened =>
      unfold bplusTreeSsdInit at opened
      split_ifs at opened
      cases opened
      exact ⟨(diskManagerInit_allocator_reachable _ _).wf, by rintro _ ⟨⟩, List.nodup_nil⟩
  | put _ put owned =>
      unfold bplusTreeSsdPut at put
      split at put
      · cases put
        exact owned
      · exact bplusTreeInsert_ownsBlocks owned put
  | get key _ owned => exact bplusTreeSearch_ownsBlocks owned key

/-- On every tree a program reaches, no disk block is named by two slots of its super-leaves;
every block a slot names is below the allocator's total and marked in use; and the next
`allocate_block` hands out none of them. -/
theorem bplusTreeSsd_blocks_never_shared {tree : BplusTreeSsd} (reachable : tree.Reachable) :
    tree.blocks.Nodup ∧
      (∀ b ∈ tree.blocks, b.toNat < tree.diskMgr.allocator.totalBlocks.toNat ∧
        tree.diskMgr.allocator.used b.toNat = true) ∧
      (allocateBlock tree.diskMgr.allocator).1 ∉ tree.blocks := by
  have owned := reachable.ownsBlocks
  refine ⟨owned.distinct, owned.inUse, ?_⟩
  rcases owned.allocateBlock with ⟨failed, -⟩ | taken
  · rw [failed]
    exact fun member => owned.ne_invalid member rfl
  · exact (List.nodup_cons.mp taken.distinct).1

theorem bplusTreeSsd_blocks_never_shared_after_one_put :
    ∃ tree, bplusTreeSsdPut ⟨16, 64, 0, none, diskManagerInit 8192 false⟩ 1 10 = some (0, tree) ∧
      tree.Reachable ∧ tree.blocks.Nodup :=
  have put : bplusTreeSsdPut ⟨16, 64, 0, none, diskManagerInit 8192 false⟩ 1 10 =
      some (0, _) := rfl
  have reachable :=
    BplusTreeSsd.Reachable.put (@BplusTreeSsd.Reachable.init 16 64 8192 false _ rfl) put
  ⟨_, put, reachable, (bplusTreeSsd_blocks_never_shared reachable).1⟩

end ZipCache.SsdTier
