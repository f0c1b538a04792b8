import ZipCache.SsdTier.SplitBounds
import ZipCache.SsdTier.Routing
import ZipCache.LoTier.Keys

/-!
# The retry after a split (`bplus_tree_insert`)

`bplus_tree_insert` inserts into the root's first super-leaf; on `-2` it splits that
super-leaf, promotes the median and calls itself again. The split keeps the super-leaf first
in the root and leaves it below the `super_leaf_is_full` threshold, so the second call cannot
get `-2`. On every tree that `bplus_tree_ssd_init`, `_put` and `_get` can reach, the recursion
ends within two calls, which is what the model's two rounds run.
-/

namespace ZipCache.SsdTier

/-- Every page the tree can read is within bounds: each block image, and each page a
super-leaf of the root caches. -/
structure BplusTreeSsd.PagesBounded (tree : BplusTreeSsd) : Prop where
  disk : tree.diskMgr.PagesBounded
  cache : ∀ root ∈ tree.root, ∀ superLeaf ∈ root.subPtr, superLeaf.PagesBounded

/-- The first super-leaf of the root, the one `bplus_tree_insert` writes, is below the
`super_leaf_is_full` threshold. -/
def BplusTreeSsd.FirstBelowFull (tree : BplusTreeSsd) : Prop :=
  ∀ keys first rest, tree.root = some ⟨keys, first :: rest⟩ → superLeafIsFull first = false

theorem updateParentWithPromotedKey_cases {tree tree' : BplusTreeSsd} {promoted : PromotedKey}
    (updated : updateParentWithPromotedKey tree promoted = some tree') :
    ∃ right root pos, promoted.rightSibling = some right ∧ tree.root = some root ∧
      tree' = { tree with root := some ⟨insertAt root.key pos promoted.key,
        insertAt root.subPtr (pos + 1) right⟩ } := by
  unfold updateParentWithPromotedKey at updated
  split at updated
  · next right root sibling rooted =>
      dsimp only at updated
      split at updated
      · cases updated
      · cases updated
        exact ⟨right, root, _, sibling, rooted, rfl⟩
  · cases updated

theorem updateParentWithPromotedKey_pagesBounded {tree tree' : BplusTreeSsd}
    {promoted : PromotedKey} (bounded : tree.PagesBounded)
    (sibling : ∀ right ∈ promoted.rightSibling, right.PagesBounded)
    (updated : updateParentWithPromotedKey tree promoted = some tree') : tree'.PagesBounded := by
  obtain ⟨right, root, pos, promotedRight, rooted, rfl⟩ :=
    updateParentWithPromotedKey_cases updated
  refine ⟨bounded.disk, ?_⟩
  rintro _ ⟨⟩ superLeaf member
  rcases LoTier.mem_insertAt member with old | rfl
  · exact bounded.cache root rooted superLeaf old
  · exact sibling _ promotedRight

theorem updateParentWithPromotedKey_first {tree tree' : BplusTreeSsd} {promoted : PromotedKey}
    {keys : List Int} {first : SuperLeaf} {rest : List SuperLeaf}
    (rooted : tree.root = some ⟨keys, first :: rest⟩)
    (updated : updateParentWithPromotedKey tree promoted = some tree') :
    ∃ keys' rest', tree'.root = some ⟨keys', first :: rest'⟩ := by
  obtain ⟨right, root, pos, -, rootedAgain, rfl⟩ := updateParentWithPromotedKey_cases updated
  rw [rooted, Option.some.injEq] at rootedAgain
  subst rootedAgain
  exact ⟨_, _, rfl⟩

theorem BplusTreeSsd.pagesBounded_of_root {tree : BplusTreeSsd} {keys : List Int}
    {leaves : List SuperLeaf} (rooted : tree.root = some ⟨keys, leaves⟩)
    (disk : tree.diskMgr.PagesBounded) (cache : ∀ superLeaf ∈ leaves, superLeaf.PagesBounded) :
    tree.PagesBounded :=
  ⟨disk, by rw [rooted]; rintro _ ⟨⟩; exact cache⟩

theorem bplusTreeInsert_of_refused_promotion {rounds : Nat} {tree : BplusTreeSsd}
    {keys : List Int} {first first' left right : SuperLeaf} {rest : List SuperLeaf}
    {key data median : Int} {dm dm' : DiskManager}
    (rooted : tree.root = some ⟨keys, first :: rest⟩)
    (inserted : superLeafInsertHashed tree.diskMgr first key data = (-2, dm, first'))
    (split : splitSuperLeaf dm first' = (⟨median, some right⟩, dm', left))
    (refused : updateParentWithPromotedKey
      { tree with diskMgr := dm', root := some ⟨keys, left :: rest⟩ } ⟨median, some right⟩ =
        none) :
    bplusTreeInsert (rounds + 1) tree key data =
      some (-1, { tree with diskMgr := dm', root := some ⟨keys, left :: rest⟩ }) := by
  rw [bplusTreeInsert, rooted]
  dsimp only
  rw [inserted]
  dsimp only
  rw [if_pos rfl, split]
  dsimp only
  rw [refused]

theorem bplusTreeInsert_step {tree : BplusTreeSsd} (bounded : tree.PagesBounded) (key data : Int) :
    (∃ result tree', tree'.PagesBounded ∧
      ∀ rounds, bplusTreeInsert (rounds + 1) tree key data = some (result, tree')) ∨
    (¬ tree.FirstBelowFull ∧ ∃ tree', tree'.PagesBounded ∧ tree'.FirstBelowFull ∧
      ∀ rounds, bplusTreeInsert (rounds + 1) tree key data =
        bplusTreeInsert rounds tree' key data) := by
  cases rooted : tree.root with
  | none =>
      obtain ⟨createdDisk, createdCache⟩ :=
        superLeafInsertHashed_pagesBounded bounded.disk superLeafCreate_pagesBounded key data
      refine Or.inl ?_
      simp only [bplusTreeInsert, rooted]
      split
      · refine ⟨_, _, ?_, fun _ => rfl⟩
        exact BplusTreeSsd.pagesBounded_of_root rfl createdDisk (List.forall_mem_nil _)
      · refine ⟨_, _, ?_, fun _ => rfl⟩
        exact BplusTreeSsd.pagesBounded_of_root rfl createdDisk
          (List.forall_mem_singleton.mpr createdCache)
  | some root =>
      obtain ⟨keys, leaves⟩ := root
      cases leaves with
      | nil => exact Or.inl ⟨-1, tree, bounded, fun _ => by simp only [bplusTreeInsert, rooted]⟩
      | cons first rest =>
          have leavesBounded := bounded.cache _ rooted
          rw [List.forall_mem_cons] at leavesBounded
          obtain ⟨insertedDisk, insertedCache⟩ :=
            superLeafInsertHashed_pagesBounded bounded.disk leavesBounded.1 key data
          rcases inserted : superLeafInsertHashed tree.diskMgr first key data with
            ⟨result, dm, first'⟩
          rw [inserted] at insertedDisk insertedCache
          by_cases signal : result = -2
          · subst signal
            obtain ⟨splitDisk, splitCache, sibling⟩ :=
              splitSuperLeaf_pagesBounded insertedDisk insertedCache
            rcases split : splitSuperLeaf dm first' with ⟨⟨median, rightSibling⟩, dm', left⟩
            rw [split] at splitDisk splitCache sibling
            have splitTree : BplusTreeSsd.PagesBounded
                { tree with diskMgr := dm', root := some ⟨keys, left :: rest⟩ } :=
              BplusTreeSsd.pagesBounded_of_root rfl splitDisk
                (List.forall_mem_cons.mpr ⟨splitCache, leavesBounded.2⟩)
            cases rightSibling with
            | none =>
                exact Or.inl ⟨_, _, splitTree,
                  fun _ => bplusTreeInsert_of_failed_split rooted inserted split rfl⟩
            | some right =>
                cases promoted : updateParentWithPromotedKey
                  { tree with diskMgr := dm', root := some ⟨keys, left :: rest⟩ }
                  ⟨median, some right⟩ with
                | none =>
                    exact Or.inl ⟨_, _, splitTree, fun _ =>
                      bplusTreeInsert_of_refused_promotion rooted inserted split promoted⟩
                | some tree' =>
                    refine Or.inr ⟨fun belowFull => superLeafInsertHashed_ne_split
                        (belowFull _ _ _ rooted) _ key data (by rw [inserted]), tree',
                      updateParentWithPromotedKey_pagesBounded splitTree
                        (fun right member => (sibling right member).1) promoted, ?_,
                      fun _ => bplusTreeInsert_of_split rooted inserted split promoted⟩
                    intro keys' first'' rest' rooted'
                    obtain ⟨_, _, rootedAgain⟩ := updateParentWithPromotedKey_first rfl promoted
                    rw [rootedAgain] at rooted'
                    cases rooted'
                    exact superLeafIsFull_of_half (sibling right rfl).2
          · exact Or.inl ⟨_, _, BplusTreeSsd.pagesBounded_of_root rfl insertedDisk
              (List.forall_mem_cons.mpr ⟨insertedCache, leavesBounded.2⟩),
              fun _ => bplusTreeInsert_of_no_split rooted inserted signal⟩

theorem bplusTreeInsert_pagesBounded {key data : Int} :
    ∀ {rounds : Nat} {tree tree' : BplusTreeSsd} {result : Int}, tree.PagesBounded →
      bplusTreeInsert rounds tree key data = some (result, tree') → tree'.PagesBounded
  | 0, _, _, _, _, inserted => by cases inserted
  | rounds + 1, tree, tree', result, bounded, inserted => by
      rcases bplusTreeInsert_step bounded key data with
        ⟨_, _, returnedBounded, returned⟩ | ⟨-, _, retriedBounded, -, retried⟩
      · rw [returned, Option.some.injEq, Prod.mk.injEq] at inserted
        exact inserted.2 ▸ returnedBounded
      · rw [retried] at inserted
        exact bplusTreeInsert_pagesBounded retriedBounded inserted

theorem bplusTreeSearch_pagesBounded {tree : BplusTreeSsd} (bounded : tree.PagesBounded)
    (key : Int) : (bplusTreeSearch tree key).2.PagesBounded := by
  unfold bplusTreeSearch
  split
  · exact bounded
  · next root rooted =>
      dsimp only
      split
      · split
        · next superLeaf found =>
            obtain ⟨searchedDisk, searchedCache⟩ :=
              superLeafSearchHashed_pagesBounded bounded.disk
                (bounded.cache root rooted superLeaf (List.getElem?_mem found)) key
            refine ⟨searchedDisk, ?_⟩
            rintro _ ⟨⟩ other member
            rcases List.mem_or_eq_of_mem_set member with old | rfl
            · exact bounded.cache root rooted other old
            · exact searchedCache
        · exact bounded
      · exact bounded

/-- The SSD trees a program can hold: opened by `bplus_tree_ssd_init`, then changed only by
`bplus_tree_ssd_put` and `bplus_tree_ssd_get`. -/
inductive BplusTreeSsd.Reachable : BplusTreeSsd → Prop
  | init {order entries : Int} {fileSize : Nat} {extended : Bool} {tree : BplusTreeSsd} :
      bplusTreeSsdInit order entries fileSize extended = some tree → BplusTreeSsd.Reachable tree
  | put {tree tree' : BplusTreeSsd} {key data result : Int} : BplusTreeSsd.Reachable tree →
      bplusTreeSsdPut tree key data = some (result, tree') → BplusTreeSsd.Reachable tree'
  | get {tree : BplusTreeSsd} (key : Int) : BplusTreeSsd.Reachable tree →
      BplusTreeSsd.Reachable (bplusTreeSsdGet tree key).2

theorem BplusTreeSsd.Reachable.pagesBounded {tree : BplusTreeSsd} (reachable : tree.Reachable) :
    tree.PagesBounded := by
  induction reachable with
  | init opened =>
      unfold bplusTreeSsdInit at opened
      split_ifs at opened
      cases opened
      exact ⟨fun _ => Nat.zero_le _, by rintro _ ⟨⟩⟩
  | put _ put bounded =>
      unfold bplusTreeSsdPut at put
      split at put
      · cases put
        exact bounded
      · exact bplusTreeInsert_pagesBounded bounded put
  | get key _ bounded => exact bplusTreeSearch_pagesBounded bounded key

theorem superLeafIsFull_after_split {tree : BplusTreeSsd} (bounded : tree.PagesBounded)
    {keys : List Int} {first first' left right : SuperLeaf} {rest : List SuperLeaf}
    {key data : Int} {dm dm' : DiskManager} {promoted : PromotedKey}
    (rooted : tree.root = some ⟨keys, first :: rest⟩)
    (inserted : superLeafInsertHashed tree.diskMgr first key data = (-2, dm, first'))
    (split : splitSuperLeaf dm first' = (promoted, dm', left))
    (succeeded : promoted.rightSibling = some right) : superLeafIsFull left = false := by
  obtain ⟨insertedDisk, insertedCache⟩ := superLeafInsertHashed_pagesBounded bounded.disk
    (bounded.cache _ rooted first (List.mem_cons_self _ _)) key data
  rw [inserted] at insertedDisk insertedCache
  obtain ⟨-, -, sibling⟩ := splitSuperLeaf_pagesBounded insertedDisk insertedCache
  rw [split] at sibling
  exact superLeafIsFull_of_half (sibling right succeeded).2

theorem bplusTreeInsert_of_pagesBounded {tree : BplusTreeSsd} (bounded : tree.PagesBounded)
    (key data : Int) (rounds : Nat) :
    bplusTreeInsert (rounds + 2) tree key data = bplusTreeInsert 2 tree key data ∧
      (bplusTreeInsert 2 tree key data).isSome := by
  rcases bplusTreeInsert_step bounded key data with
    ⟨_, _, -, returned⟩ | ⟨-, _, retriedBounded, belowFull, retried⟩
  · rw [returned, returned]
    exact ⟨rfl, rfl⟩
  · rcases bplusTreeInsert_step retriedBounded key data with
      ⟨_, _, -, returned⟩ | ⟨notBelowFull, -⟩
    · rw [retried, retried, returned, returned]
      exact ⟨rfl, rfl⟩
    · exact absurd belowFull notBelowFull

/-- On every reachable tree, a split that returns a right sibling leaves the first super-leaf
below the `super_leaf_is_full` threshold, so the retried insert gets no `-2`: the recursion of
`bplus_tree_insert` ends within two calls, and more rounds change nothing. -/
theorem bplusTreeInsert_retry_never_splits_again {tree : BplusTreeSsd}
    (reachable : tree.Reachable) (key data : Int) :
    (∀ keys first rest, tree.root = some ⟨keys, first :: rest⟩ →
      ∀ dm first', superLeafInsertHashed tree.diskMgr first key data = (-2, dm, first') →
        ∀ promoted dm' left, splitSuperLeaf dm first' = (promoted, dm', left) →
          promoted.rightSibling.isSome →
            superLeafIsFull left = false ∧ (superLeafInsertHashed dm' left key data).1 ≠ -2) ∧
      (bplusTreeInsert 2 tree key data).isSome ∧
      ∀ rounds, bplusTreeInsert (rounds + 2) tree key data = bplusTreeInsert 2 tree key data := by
  have bounded := reachable.pagesBounded
  refine ⟨?_, (bplusTreeInsert_of_pagesBounded bounded key data 0).2,
    fun rounds => (bplusTreeInsert_of_pagesBounded bounded key data rounds).1⟩
  intro keys first rest rooted dm first' inserted promoted dm' left split succeeded
  obtain ⟨right, promotedRight⟩ := Option.isSome_iff_exists.mp succeeded
  have notFull := superLeafIsFull_after_split bounded rooted inserted split promotedRight
  exact ⟨notFull, superLeafInsertHashed_ne_split notFull dm' key data⟩

theorem BplusTreeSsd.Reachable.putAll {puts : List (Int × Int)} :
    ∀ {tree tree' : BplusTreeSsd} {results : List Int}, tree.Reachable →
      bplusTreeSsdPutAll tree puts = some (results, tree') → tree'.Reachable := by
  induction puts with
  | nil =>
      intro tree tree' results reachable ran
      cases ran
      exact reachable
  | cons put rest inductionHypothesis =>
      intro tree tree' results reachable ran
      simp only [bplusTreeSsdPutAll, Option.bind_eq_bind, Option.bind_eq_some, Option.pure_def,
        Option.some.injEq, Prod.mk.injEq] at ran
      obtain ⟨⟨result, middle⟩, put, ⟨more, after⟩, ranRest, -, rfl⟩ := ran
      exact inductionHypothesis (reachable.put put) ranRest

set_option maxRecDepth 8000 in
/-- On a file of 1 GiB, after `29` is put 4557 times and the 339 `fillingKeys` once each, a
put of `5759` meets its full slot 0: the super-leaf splits with a right sibling, and the
retry into the old super-leaf does not split again. -/
theorem bplusTreeInsert_retry_never_splits_again_after_split :
    ∃ tree filled results, bplusTreeSsdInit 16 64 (1024 * 1024 * 1024) true = some tree ∧
      bplusTreeSsdPutAll tree (splitRun 29 fillingKeys) = some (results, filled) ∧
      ∃ keys first dm first' promoted dm' left, filled.root = some ⟨keys, [first]⟩ ∧
        superLeafInsertHashed filled.diskMgr first 5759 1 = (-2, dm, first') ∧
        splitSuperLeaf dm first' = (promoted, dm', left) ∧ promoted.rightSibling.isSome ∧
        superLeafIsFull left = false ∧ (superLeafInsertHashed dm' left 5759 1).1 ≠ -2 := by
  obtain ⟨allocator, allocator', firstBlock, secondBlock⟩ : ∃ allocator allocator',
      allocateBlock (diskManagerInit (1024 * 1024 * 1024) true).allocator = (0#32, allocator) ∧
        allocateBlock allocator = (1#32, allocator') := ⟨_, _, rfl, rfl⟩
  have slots : ∀ key ∈ 29 :: fillingKeys ++ [5759], subPageIndex key = 0 := fillingKeys_slots
  have ordered : (29 :: fillingKeys).Pairwise (· < ·) :=
    fillingKeys_ascending.sublist (List.sublist_append_left _ _)
  have pairSlots : ∀ pair ∈ (29 :: fillingKeys).map (fun key => (key, (1 : Int))),
      subPageIndex pair.1 = 0 :=
    List.forall_mem_map.mpr fun key member => slots key (List.mem_append_left _ member)
  have pairOrdered : ((29 :: fillingKeys).map (fun key => (key, (1 : Int)))).Pairwise
      (fun earlier later : Int × Int => earlier.1 < later.1) :=
    List.pairwise_map.mpr ordered
  have fill := bplusTreeSsdPutAll_fillRun firstBlock (by decide) pairSlots pairOrdered
    (by decide)
  obtain ⟨lowerKeys, median, upperKeys, halved, lowerSized, upperSized, -⟩ :=
    exists_halves (rfl : fillingKeys.length = 339)
  have page : (29, (1 : Int)) :: fillingKeys.map (fun key => (key, (1 : Int))) =
      ((29, 1) :: lowerKeys.map (fun key => (key, (1 : Int)))) ++
        (median, 1) :: upperKeys.map (fun key => (key, (1 : Int))) := by
    rw [halved]
    simp
  rw [page] at fill
  rw [List.map_cons, page] at pairSlots pairOrdered
  have split := @splitSuperLeaf_slotZeroLeaf ((4557 + fillingKeys.length : Nat) : Int) 1 0#32
    { diskManagerInit (1024 * 1024 * 1024) true with allocator := allocator } _ _ _ _ _ _ _
    pairSlots pairOrdered (by simp [lowerSized, upperSized])
    (by simp [upperSized, entriesPerSubPage_eq]) (by decide)
    (show (0#32 : BitVec 32) < (diskManagerInit (1024 * 1024 * 1024) true).total4kbBlocks by decide)
    secondBlock (by decide)
    (show (1#32 : BitVec 32) < (diskManagerInit (1024 * 1024 * 1024) true).total4kbBlocks by decide)
  have full := @superLeafInsertHashed_full ((4557 + fillingKeys.length : Nat) : Int) 1 0#32 true
    5759 { diskManagerInit (1024 * 1024 * 1024) true with allocator := allocator }
    (((29, 1) :: lowerKeys.map (fun key => (key, (1 : Int)))) ++
      (median, 1) :: upperKeys.map (fun key => (key, (1 : Int)))) 1
    (slots 5759 (by simp)) (by simp [lowerSized, upperSized, entriesPerSubPage_eq])
    (by simp [halved, lowerSized, upperSized])
  have reachable := BplusTreeSsd.Reachable.putAll
    (@BplusTreeSsd.Reachable.init 16 64 (1024 * 1024 * 1024) true _ rfl) fill
  exact ⟨_, _, _, rfl, fill, _, _, _, _, _, _, _, rfl, full, split, rfl,
    (bplusTreeInsert_retry_never_splits_again reachable 5759 1).1 _ _ _ rfl _ _ full _ _ _ split
      rfl⟩

end ZipCache.SsdTier
