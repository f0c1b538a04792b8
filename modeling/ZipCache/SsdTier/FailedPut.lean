import ZipCache.SsdTier.Routing

/-!
# Failed puts

Two ways a put that returns `-1` still changes the tree.

The first put into an empty tree creates the root before it inserts into a new super-leaf.
When that insert fails, `bplus_tree_insert` frees the super-leaf but keeps the root, with no
child. Every later insert then finds a root with `children == 0` and returns `-1` without
touching the tree.

`split_super_leaf` deals the pairs out before phase 3 allocates blocks for the right sibling.
When no block is left, it frees the sibling and returns no promoted key, but the old
super-leaf keeps only the pairs below the median: the pairs from the median up are gone.
-/

namespace ZipCache.SsdTier

theorem bplusTreeSsdPut_of_childless {tree : BplusTreeSsd} {keys : List Int}
    (childless : tree.root = some ⟨keys, []⟩) (key data : Int) :
    bplusTreeSsdPut tree key data = some (-1, tree) := by
  unfold bplusTreeSsdPut
  split
  · rfl
  · simp only [bplusTreeInsert, childless]

theorem bplusTreeSsdPutAll_of_childless {tree : BplusTreeSsd} {keys : List Int}
    (childless : tree.root = some ⟨keys, []⟩) :
    ∀ calls : List (Int × Int),
      bplusTreeSsdPutAll tree calls = some (calls.map fun _ => -1, tree)
  | [] => rfl
  | (key, data) :: rest => by
      simp only [bplusTreeSsdPutAll, bplusTreeSsdPut_of_childless childless key data,
        bplusTreeSsdPutAll_of_childless childless rest, Option.bind_eq_bind, Option.some_bind,
        Option.pure_def, List.map_cons]

/-- A first put of a non-zero value into an empty tree that fails leaves a root with no
super-leaf behind, and from then on every put fails and changes nothing. -/
theorem bplusTreeSsdPut_failed_first_put_blocks_later_puts {tree tree' : BplusTreeSsd}
    {key data result : Int} (empty : tree.root = none) (nonzero : data ≠ 0)
    (put : bplusTreeSsdPut tree key data = some (result, tree')) (failed : result ≠ 0) :
    tree'.root = some ⟨[], []⟩ ∧
      ∀ calls : List (Int × Int),
        bplusTreeSsdPutAll tree' calls = some (calls.map fun _ => -1, tree') := by
  have childless : tree'.root = some ⟨[], []⟩ := by
    unfold bplusTreeSsdPut at put
    rw [if_neg nonzero] at put
    simp only [bplusTreeInsert, empty] at put
    split at put
    · cases put; rfl
    · cases put; exact absurd rfl failed
  exact ⟨childless, bplusTreeSsdPutAll_of_childless childless⟩

theorem bplusTreeSsdPut_failed_first_put_blocks_later_puts_on_empty_file :
    ∃ tree tree', bplusTreeSsdInit 16 64 0 false = some tree ∧ tree.root = none ∧
      bplusTreeSsdPut tree 7 70 = some (-1, tree') ∧ tree'.root = some ⟨[], []⟩ ∧
      ∀ calls : List (Int × Int),
        bplusTreeSsdPutAll tree' calls = some (calls.map fun _ => -1, tree') := by
  obtain ⟨⟨result, tree'⟩, put⟩ := Option.isSome_iff_exists.mp
    (by decide : (bplusTreeSsdPut ⟨16, 64, 0, none, diskManagerInit 0 false⟩ 7 70).isSome = true)
  have refused : result = -1 := by
    have := congrArg (Option.map Prod.fst) put
    rw [(by decide : (bplusTreeSsdPut ⟨16, 64, 0, none, diskManagerInit 0 false⟩ 7 70).map
      Prod.fst = some (-1))] at this
    simpa using this.symm
  subst refused
  exact ⟨_, tree', rfl, rfl, put,
    bplusTreeSsdPut_failed_first_put_blocks_later_puts rfl (by decide) put (by decide)⟩

theorem bplusTreeInsert_of_failed_split {rounds : Nat} {tree : BplusTreeSsd} {keys : List Int}
    {first first' left : SuperLeaf} {rest : List SuperLeaf} {key data : Int}
    {promoted : PromotedKey} {dm dm' : DiskManager}
    (rooted : tree.root = some ⟨keys, first :: rest⟩)
    (inserted : superLeafInsertHashed tree.diskMgr first key data = (-2, dm, first'))
    (split : splitSuperLeaf dm first' = (promoted, dm', left))
    (failed : promoted.rightSibling = none) :
    bplusTreeInsert (rounds + 1) tree key data =
      some (-1, { tree with diskMgr := dm', root := some ⟨keys, left :: rest⟩ }) := by
  rw [bplusTreeInsert, rooted]
  dsimp only
  rw [inserted]
  dsimp only
  rw [if_pos rfl, split]
  dsimp only
  rw [failed]

theorem LeafParent.route_single (first : SuperLeaf) (key : Int) :
    LeafParent.route ⟨[], [first]⟩ key = 0 := by
  have missed := @keyBinarySearch_cut [] [] [] key (by simp) (by simp)
  simp only [List.append_nil, List.length_nil] at missed
  simp only [LeafParent.route, List.length_cons, List.length_nil]
  rw [show ((0 + 1 : Nat) : Int) - 1 = (0 : Nat) + (0 : Nat) from rfl, missed]
  rfl

theorem bplusTreeSsdGet_of_single {dm : DiskManager} {total active : Int} {dirty : Bool}
    {block : BitVec 32} {pairs : List (Int × Int)} {key : Int} (slot : subPageIndex key = 0)
    (allocated : block ≠ invalidBlockId) :
    (bplusTreeSsdGet (leafParentTree dm []
        [slotZeroLeaf total active block (some (pageOf pairs)) dirty]) key).1 =
      subPageSearch (pageOf pairs) key := by
  have routed := LeafParent.route_single
    (slotZeroLeaf total active block (some (pageOf pairs)) dirty) key
  unfold bplusTreeSsdGet bplusTreeSearch leafParentTree
  dsimp only
  rw [routed]
  exact superLeafSearchHashed_slotZeroLeaf dm slot allocated

section Exhausted

variable {block : BitVec 32} {key data : Int}

theorem bplusTreeSsdPut_of_exhausted_split {dm : DiskManager} {low : Int × Int}
    {lower upper : List (Int × Int)} {median value total : Int} {allocator : BlockAllocator}
    (slot : subPageIndex key = 0) (nonNull : data ≠ 0)
    (slots : ∀ pair ∈ (low :: lower) ++ (median, value) :: upper, subPageIndex pair.1 = 0)
    (ascending : ((low :: lower) ++ (median, value) :: upper).Pairwise
      (fun first second => first.1 < second.1))
    (halves : lower.length = upper.length)
    (full : ((low :: lower) ++ (median, value) :: upper).length = entriesPerSubPage)
    (counted : 4896 ≤ total) (allocatedBefore : block ≠ invalidBlockId)
    (exhausted : allocateBlock dm.allocator = (invalidBlockId, allocator)) :
    bplusTreeSsdPut (leafParentTree dm [] [slotZeroLeaf total 1 block
        (some (pageOf ((low :: lower) ++ (median, value) :: upper))) true]) key data =
      some (-1, leafParentTree { dm with allocator := allocator } []
        [slotZeroLeaf (lower.length + 1) 1 block (some (pageOf (low :: lower))) true]) := by
  have sizes : lower.length + (upper.length + 1) + 1 = entriesPerSubPage := by simpa using full
  rw [bplusTreeSsdPut, if_neg nonNull]
  exact bplusTreeInsert_of_failed_split rfl (superLeafInsertHashed_full dm data slot full counted)
    (splitSuperLeaf_slotZeroLeaf_exhausted dm slots ascending halves (by omega) allocatedBefore
      exhausted) rfl

/-- For 340 keys in ascending order that hash to sub-page 0, on a storage file of one block:
the run of `splitRun` returns 0 at every put and fills sub-page 0. A put of any key of that
sub-page then fails at the split, which finds no block for the right sibling, and returns
`-1`; yet every key of the upper half, which `bplus_tree_ssd_get` found before that put, it
misses after it. -/
theorem bplusTreeSsdPut_failed_split_loses_upper_half {first last : Int} {middle : List Int}
    (slots : ∀ key ∈ first :: middle, subPageIndex key = 0) (lastSlot : subPageIndex last = 0)
    (ascending : (first :: middle).Pairwise (· < ·)) (sized : middle.length = 339) :
    ∃ tree, bplusTreeSsdInit 16 64 4096 false = some tree ∧
      ∃ filled, bplusTreeSsdPutAll tree (splitRun first middle) =
          some (List.replicate 4896 0, filled) ∧
        ∃ failed, bplusTreeSsdPut filled last 1 = some (-1, failed) ∧
          ∀ key ∈ middle.drop 169, (bplusTreeSsdGet filled key).1 = 1 ∧
            (bplusTreeSsdGet failed key).1 = -1 := by
  obtain ⟨lowerKeys, median, upperKeys, rfl, lowerSized, upperSized, upper⟩ := exists_halves sized
  have listed : (first, (1 : Int)) :: (lowerKeys ++ median :: upperKeys).map
      (fun key => (key, (1 : Int))) =
      ((first, 1) :: lowerKeys.map (fun key => (key, (1 : Int)))) ++
        (median, 1) :: upperKeys.map (fun key => (key, (1 : Int))) := by
    simp
  have ordered := (List.pairwise_map.mpr ascending :
    ((first :: (lowerKeys ++ median :: upperKeys)).map fun key => (key, (1 : Int))).Pairwise
      fun earlier later : Int × Int => earlier.1 < later.1)
  have slotted : ∀ pair ∈ (first :: (lowerKeys ++ median :: upperKeys)).map
      (fun key => (key, (1 : Int))), subPageIndex pair.1 = 0 :=
    List.forall_mem_map.mpr slots
  obtain ⟨allocator, allocator', firstBlock, exhausted⟩ : ∃ allocator allocator',
      allocateBlock (diskManagerInit 4096 false).allocator = (0#32, allocator) ∧
        allocateBlock allocator = (invalidBlockId, allocator') := ⟨_, _, rfl, rfl⟩
  have filled := bplusTreeSsdPutAll_fillRun firstBlock (by decide) slotted ordered
    (by simp [lowerSized, upperSized, entriesPerSubPage_eq])
  rw [List.map_cons] at ordered slotted
  rw [listed] at filled ordered slotted
  obtain ⟨-, -, across⟩ := List.pairwise_append.mp ordered
  have counted : 4557 + (lowerKeys ++ median :: upperKeys).length = 4896 := by
    simp [lowerSized, upperSized]
  rw [counted] at filled
  refine ⟨_, rfl, _, filled, _, bplusTreeSsdPut_of_exhausted_split lastSlot (by decide) slotted
    ordered (by simp [lowerSized, upperSized])
    (by simp [lowerSized, upperSized, entriesPerSubPage_eq]) (by omega) (by decide) exhausted, ?_⟩
  rw [upper]
  intro key member
  have pairMember :
      (key, (1 : Int)) ∈ (median, 1) :: upperKeys.map (fun key => (key, (1 : Int))) := by
    simpa using member
  have slot : subPageIndex key = 0 := slotted (key, 1) (List.mem_append_right _ pairMember)
  refine ⟨?_, ?_⟩
  · rw [bplusTreeSsdGet_of_single slot (by decide)]
    exact subPageSearch_pageOf_of_mem ordered (List.mem_append_right _ pairMember)
  · rw [bplusTreeSsdGet_of_single slot (by decide)]
    exact subPageSearch_pageOf_of_lt fun pair lowerMember => across pair lowerMember _ pairMember

set_option maxRecDepth 8000 in
theorem bplusTreeSsdPut_failed_split_loses_upper_half_of_fillingKeys :
    ∃ tree, bplusTreeSsdInit 16 64 4096 false = some tree ∧
      ∃ filled, bplusTreeSsdPutAll tree (splitRun 29 fillingKeys) =
          some (List.replicate 4896 0, filled) ∧
        ∃ failed, bplusTreeSsdPut filled 5759 1 = some (-1, failed) ∧
          ∀ key ∈ fillingKeys.drop 169, (bplusTreeSsdGet filled key).1 = 1 ∧
            (bplusTreeSsdGet failed key).1 = -1 :=
  bplusTreeSsdPut_failed_split_loses_upper_half
    (fun key member => fillingKeys_slots key (List.mem_append_left _ member))
    (fillingKeys_slots 5759 (List.mem_append_right _ (List.mem_singleton_self _)))
    (fillingKeys_ascending.sublist (List.sublist_append_left _ _)) (by decide)

end Exhausted

end ZipCache.SsdTier
