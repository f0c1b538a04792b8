import ZipCache.SsdTier.AscendingInserts

/-!
# Where `bplus_tree_insert` writes and where `bplus_tree_search` reads

Search routes a key by `key_binary_search` over the root's keys, but insert always hands the
key to `sub_ptr[0]`. The two agree while the root has one super-leaf. After the first split
the root has two, and a key at or above the promoted median is written into the first
super-leaf and looked for in the second: the put returns `0` and the get returns `-1`.

The run that shows it needs one split, so one sub-page holding 340 entries and a super-leaf
counting 4896. Each phase of the run is a lemma about the shapes of
`ZipCache.SsdTier.AscendingInserts`.
-/

namespace ZipCache.SsdTier

/-- A client's `bplus_tree_ssd_put` calls, in order: their results and the tree after the
last one; `none` past a call the model does not run. -/
def bplusTreeSsdPutAll (tree : BplusTreeSsd) : List (Int × Int) → Option (List Int × BplusTreeSsd)
  | [] => some ([], tree)
  | (key, data) :: rest => do
      let (result, tree) ← bplusTreeSsdPut tree key data
      let (results, tree) ← bplusTreeSsdPutAll tree rest
      return (result :: results, tree)

theorem bplusTreeSsdPutAll_append {first : List (Int × Int)} :
    ∀ {tree tree' : BplusTreeSsd} {results : List Int},
      bplusTreeSsdPutAll tree first = some (results, tree') → ∀ second : List (Int × Int),
      bplusTreeSsdPutAll tree (first ++ second) =
        (bplusTreeSsdPutAll tree' second).map fun (later, tree) => (results ++ later, tree) := by
  induction first with
  | nil =>
      intro tree tree' results ran second
      simp only [bplusTreeSsdPutAll, Option.some.injEq, Prod.mk.injEq] at ran
      obtain ⟨rfl, rfl⟩ := ran
      rw [List.nil_append]
      cases bplusTreeSsdPutAll tree second <;> rfl
  | cons call rest inductionHypothesis =>
      intro tree tree' results ran second
      obtain ⟨key, data⟩ := call
      simp only [bplusTreeSsdPutAll, Option.bind_eq_bind, Option.bind_eq_some, Option.pure_def,
        Option.some.injEq, Prod.mk.injEq] at ran
      obtain ⟨⟨result, middle⟩, put, ⟨results', tree''⟩, ranRest, rfl, rfl⟩ := ran
      rw [List.cons_append]
      simp only [bplusTreeSsdPutAll, put, Option.bind_eq_bind, Option.some_bind,
        inductionHypothesis ranRest]
      cases bplusTreeSsdPutAll tree'' second <;> rfl

theorem bplusTreeInsert_of_no_split {rounds : Nat} {tree : BplusTreeSsd} {keys : List Int}
    {first first' : SuperLeaf} {rest : List SuperLeaf} {key data result : Int}
    {dm : DiskManager} (rooted : tree.root = some ⟨keys, first :: rest⟩)
    (inserted : superLeafInsertHashed tree.diskMgr first key data = (result, dm, first'))
    (noSplit : result ≠ -2) :
    bplusTreeInsert (rounds + 1) tree key data =
      some (result, { tree with diskMgr := dm, root := some ⟨keys, first' :: rest⟩ }) := by
  rw [bplusTreeInsert, rooted]
  dsimp only
  rw [inserted]
  dsimp only
  rw [if_neg noSplit]

theorem bplusTreeInsert_of_split {rounds : Nat} {tree tree' : BplusTreeSsd} {keys : List Int}
    {first first' left right : SuperLeaf} {rest : List SuperLeaf} {key data median : Int}
    {dm dm' : DiskManager} (rooted : tree.root = some ⟨keys, first :: rest⟩)
    (inserted : superLeafInsertHashed tree.diskMgr first key data = (-2, dm, first'))
    (split : splitSuperLeaf dm first' = (⟨median, some right⟩, dm', left))
    (promoted : updateParentWithPromotedKey
      { tree with diskMgr := dm', root := some ⟨keys, left :: rest⟩ } ⟨median, some right⟩ =
        some tree') :
    bplusTreeInsert (rounds + 1) tree key data = bplusTreeInsert rounds tree' key data := by
  rw [bplusTreeInsert, rooted]
  dsimp only
  rw [inserted]
  dsimp only
  rw [if_pos rfl, split]
  dsimp only
  rw [promoted]

/-- The tree after its first put: a leaf-parent root over `leaves`, for the order and the
entry count that `zipcache_init` passes to `bplus_tree_ssd_init`. -/
def leafParentTree (dm : DiskManager) (keys : List Int) (leaves : List SuperLeaf) : BplusTreeSsd :=
  ⟨16, 64, 1, some ⟨keys, leaves⟩, dm⟩

theorem bplusTreeSsdPut_of_no_split {dm dm' : DiskManager} {keys : List Int}
    {first first' : SuperLeaf} {rest : List SuperLeaf} {key data result : Int}
    (nonNull : data ≠ 0)
    (inserted : superLeafInsertHashed dm first key data = (result, dm', first'))
    (noSplit : result ≠ -2) :
    bplusTreeSsdPut (leafParentTree dm keys (first :: rest)) key data =
      some (result, leafParentTree dm' keys (first' :: rest)) := by
  rw [bplusTreeSsdPut, if_neg nonNull]
  exact bplusTreeInsert_of_no_split rfl inserted noSplit

section Run

variable {block : BitVec 32} {key data : Int}

theorem bplusTreeSsdPut_first {dm : DiskManager} {allocator : BlockAllocator}
    (slot : subPageIndex key = 0) (nonNull : data ≠ 0)
    (allocated : allocateBlock dm.allocator = (block, allocator)) (fresh : block ≠ invalidBlockId) :
    bplusTreeSsdPut ⟨16, 64, 0, none, dm⟩ key data =
      some (0, leafParentTree { dm with allocator := allocator } []
        [slotZeroLeaf 1 1 block (some (pageOf [(key, data)])) true]) := by
  rw [bplusTreeSsdPut, if_neg nonNull, bplusTreeInsert]
  dsimp only
  rw [superLeafInsertHashed_create data slot allocated fresh]
  rfl

theorem bplusTreeSsdPutAll_replicate (dm : DiskManager) (slot : subPageIndex key = 0)
    (nonNull : data ≠ 0) (count : Nat) :
    ∀ total : Int, bplusTreeSsdPutAll
        (leafParentTree dm [] [slotZeroLeaf total 1 block (some (pageOf [(key, data)])) true])
        (List.replicate count (key, data)) =
      some (List.replicate count 0, leafParentTree dm []
        [slotZeroLeaf (total + count) 1 block (some (pageOf [(key, data)])) true]) := by
  induction count with
  | zero => intro total; simp [bplusTreeSsdPutAll]
  | succ count inductionHypothesis =>
      intro total
      rw [List.replicate_succ, bplusTreeSsdPutAll, bplusTreeSsdPut_of_no_split nonNull
        (superLeafInsertHashed_single dm data slot) (by decide)]
      simp only [Option.bind_eq_bind, Option.some_bind, inductionHypothesis, Option.pure_def,
        List.replicate_succ]
      rw [show total + 1 + (count : Int) = total + ((count + 1 : Nat) : Int) by omega]

theorem bplusTreeSsdPutAll_ascending (dm : DiskManager) (later : List (Int × Int)) :
    ∀ {total : Int} {pairs : List (Int × Int)},
      (∀ put ∈ later, subPageIndex put.1 = 0 ∧ put.2 ≠ 0) →
      (pairs ++ later).Pairwise (fun first second => first.1 < second.1) →
      (pairs ++ later).length ≤ entriesPerSubPage →
      bplusTreeSsdPutAll
          (leafParentTree dm [] [slotZeroLeaf total 1 block (some (pageOf pairs)) true]) later =
        some (List.replicate later.length 0, leafParentTree dm []
          [slotZeroLeaf (total + later.length) 1 block (some (pageOf (pairs ++ later))) true]) := by
  induction later with
  | nil => intro total pairs _ _ _; simp [bplusTreeSsdPutAll]
  | cons put rest inductionHypothesis =>
      intro total pairs admissible ascending fits
      have below : ∀ earlier ∈ pairs, earlier.1 < put.1 := fun earlier member =>
        List.pairwise_append.mp ascending |>.2.2 earlier member put (List.mem_cons_self _ _)
      have regrouped : pairs ++ put :: rest = (pairs ++ [put]) ++ rest := by simp
      obtain ⟨slot, nonNull⟩ := admissible put (List.mem_cons_self _ _)
      rw [bplusTreeSsdPutAll, bplusTreeSsdPut_of_no_split nonNull
        (superLeafInsertHashed_append dm put.2 slot below (by simp at fits; omega)) (by decide)]
      simp only [Option.bind_eq_bind, Option.some_bind, Option.pure_def]
      rw [inductionHypothesis (fun later member => admissible later (List.mem_cons_of_mem _ member))
        (regrouped ▸ ascending) (regrouped ▸ fits), ← regrouped]
      simp only [Option.some_bind, List.length_cons, List.replicate_succ]
      rw [show total + 1 + (rest.length : Int) = total + ((rest.length + 1 : Nat) : Int) by omega]

theorem bplusTreeSsdPut_splits {dm : DiskManager} {low : Int × Int}
    {lower upper : List (Int × Int)} {median value total : Int} {fresh : BitVec 32}
    {allocator : BlockAllocator} (slot : subPageIndex key = 0) (nonNull : data ≠ 0)
    (slots : ∀ pair ∈ (low :: lower) ++ (median, value) :: upper, subPageIndex pair.1 = 0)
    (ascending : ((low :: lower) ++ (median, value) :: upper ++ [(key, data)]).Pairwise
      (fun first second => first.1 < second.1))
    (halves : lower.length = upper.length)
    (full : ((low :: lower) ++ (median, value) :: upper).length = entriesPerSubPage)
    (counted : 4896 ≤ total) (allocatedBefore : block ≠ invalidBlockId)
    (onDisk : block < dm.total4kbBlocks) (issued : allocateBlock dm.allocator = (fresh, allocator))
    (valid : fresh ≠ invalidBlockId) (freshOnDisk : fresh < dm.total4kbBlocks) :
    ∃ dm', bplusTreeSsdPut (leafParentTree dm [] [slotZeroLeaf total 1 block
        (some (pageOf ((low :: lower) ++ (median, value) :: upper))) true]) key data =
      some (0, leafParentTree dm' [median]
        [slotZeroLeaf (lower.length + 1 + 1) 1 block
          (some (pageOf ((low :: lower) ++ [(key, data)]))) true,
         slotZeroLeaf (upper.length + 1) 1 fresh
          (some (pageOf ((median, value) :: upper))) false]) := by
  obtain ⟨stored, -, above⟩ := List.pairwise_append.mp ascending
  have below : ∀ pair ∈ low :: lower, pair.1 < key := fun pair member =>
    above pair (List.mem_append_left _ member) (key, data) (List.mem_singleton_self _)
  have sizes : lower.length + (upper.length + 1) + 1 = entriesPerSubPage := by simpa using full
  have room : (low :: lower).length < entriesPerSubPage := by
    simp only [List.length_cons]
    omega
  apply Exists.intro
  rw [bplusTreeSsdPut, if_neg nonNull]
  apply Eq.trans
  · exact bplusTreeInsert_of_split rfl (superLeafInsertHashed_full dm data slot full counted)
      (splitSuperLeaf_slotZeroLeaf dm slots stored halves (by omega) allocatedBefore onDisk issued
        valid freshOnDisk) rfl
  · exact bplusTreeInsert_of_no_split rfl (superLeafInsertHashed_append _ data slot below room)
      (by decide)

theorem superLeafSearchHashed_slotZeroLeaf (dm : DiskManager) {total active : Int}
    {dirty : Bool} {page : SubPage} (slot : subPageIndex key = 0)
    (allocated : block ≠ invalidBlockId) :
    (superLeafSearchHashed dm (slotZeroLeaf total active block (some page) dirty) key).1 =
      subPageSearch page key := by
  have cachedPage : (slotZeroLeaf total active block (some page) dirty).cached (subPageIndex key) =
      some page := by rw [slot]; rfl
  simp only [superLeafSearchHashed, slot, slotZeroLeaf_block_zero, allocated, if_false,
    superLeafLoadSubPageByHash_cached dm cachedPage]

theorem LeafParent.route_of_lt {median : Int} {first second : SuperLeaf} (above : median < key) :
    LeafParent.route ⟨[median], [first, second]⟩ key = 1 := by
  have missed := @keyBinarySearch_cut [median] [] [] key (by simpa using above) (by simp)
  simp only [List.append_nil, List.length_singleton, List.length_nil] at missed
  simp only [LeafParent.route, List.length_cons, List.length_nil]
  rw [show ((0 + 1 + 1 : Nat) : Int) - 1 = (1 : Nat) + (0 : Nat) from rfl, missed]
  rfl

theorem bplusTreeSsdGet_of_lt {dm : DiskManager} {median total active : Int} {dirty : Bool}
    {first : SuperLeaf} {pairs : List (Int × Int)} (above : median < key)
    (slot : subPageIndex key = 0) (allocated : block ≠ invalidBlockId) :
    (bplusTreeSsdGet (leafParentTree dm [median]
        [first, slotZeroLeaf total active block (some (pageOf pairs)) dirty]) key).1 =
      subPageSearch (pageOf pairs) key := by
  have routed : LeafParent.route
      ⟨[median], [first, slotZeroLeaf total active block (some (pageOf pairs)) dirty]⟩ key = 1 :=
    LeafParent.route_of_lt above
  unfold bplusTreeSsdGet bplusTreeSearch leafParentTree
  dsimp only
  rw [routed]
  exact superLeafSearchHashed_slotZeroLeaf dm slot allocated

end Run

theorem superLeafLoadSubPageByHash_disk (dm : DiskManager) (superLeaf : SuperLeaf) (key : Int) :
    (superLeafLoadSubPageByHash dm superLeaf key).2.1.total4kbBlocks = dm.total4kbBlocks ∧
      (superLeafLoadSubPageByHash dm superLeaf key).2.1.blocks = dm.blocks := by
  unfold superLeafLoadSubPageByHash
  dsimp only
  cases superLeaf.cached (subPageIndex key) with
  | some subPage => exact ⟨rfl, rfl⟩
  | none =>
      dsimp only
      split
      · rcases allocateBlock dm.allocator with ⟨blockId, allocator⟩
        dsimp only
        split <;> exact ⟨rfl, rfl⟩
      · exact ⟨rfl, rfl⟩

theorem superLeafInsertHashed_disk (dm : DiskManager) (superLeaf : SuperLeaf) (key data : Int) :
    (superLeafInsertHashed dm superLeaf key data).2.1.total4kbBlocks = dm.total4kbBlocks ∧
      (superLeafInsertHashed dm superLeaf key data).2.1.blocks = dm.blocks := by
  have loaded := superLeafLoadSubPageByHash_disk dm superLeaf key
  unfold superLeafInsertHashed
  dsimp only
  revert loaded
  rcases superLeafLoadSubPageByHash dm superLeaf key with ⟨page, loadedDm, loadedLeaf⟩
  intro loaded
  cases page with
  | none => exact loaded
  | some page =>
      dsimp only
      split
      · exact loaded
      · split <;> exact loaded

theorem superLeafSearchHashed_congr {dm dm' : DiskManager} (superLeaf : SuperLeaf) (key : Int)
    (sameSize : dm'.total4kbBlocks = dm.total4kbBlocks) (sameBlocks : dm'.blocks = dm.blocks) :
    (superLeafSearchHashed dm' superLeaf key).1 = (superLeafSearchHashed dm superLeaf key).1 := by
  unfold superLeafSearchHashed superLeafLoadSubPageByHash
  dsimp only
  split
  · rfl
  · next allocated =>
      cases superLeaf.cached (subPageIndex key) with
      | some subPage => rfl
      | none =>
          simp only [allocated, if_false, diskReadSubPage, sameSize, sameBlocks]
          by_cases outside : dm.total4kbBlocks ≤ superLeaf.block (subPageIndex key) <;>
            simp only [outside, if_true, if_false]

/-- A put whose key the root routes past its first super-leaf, and which that super-leaf
takes without the split signal, leaves what `bplus_tree_ssd_get` returns for the key as it
was: insert writes the first super-leaf and search reads another one. -/
theorem bplusTreeSsdGet_unchanged_by_put_routed_past_first {tree tree' : BplusTreeSsd}
    {keys : List Int} {first : SuperLeaf} {rest : List SuperLeaf} {key data result : Int}
    (rooted : tree.root = some ⟨keys, first :: rest⟩)
    (pastFirst : 0 < LeafParent.route ⟨keys, first :: rest⟩ key)
    (noSplit : (superLeafInsertHashed tree.diskMgr first key data).1 ≠ -2)
    (put : bplusTreeSsdPut tree key data = some (result, tree')) :
    (bplusTreeSsdGet tree' key).1 = (bplusTreeSsdGet tree key).1 := by
  unfold bplusTreeSsdPut at put
  split at put
  · cases put
    rfl
  · obtain ⟨sameSize, sameBlocks⟩ := superLeafInsertHashed_disk tree.diskMgr first key data
    generalize insertion : superLeafInsertHashed tree.diskMgr first key data = outcome
      at noSplit sameSize sameBlocks
    obtain ⟨inserted, dm', first'⟩ := outcome
    rw [bplusTreeInsert_of_no_split rooted insertion noSplit, Option.some.injEq,
      Prod.mk.injEq] at put
    obtain ⟨-, rfl⟩ := put
    obtain ⟨index, routed⟩ :
        ∃ index : Nat, LeafParent.route ⟨keys, first :: rest⟩ key = index + 1 :=
      ⟨(LeafParent.route ⟨keys, first :: rest⟩ key - 1).toNat, by omega⟩
    have routedAfter : LeafParent.route ⟨keys, first' :: rest⟩ key = index + 1 := routed
    simp only [bplusTreeSsdGet, bplusTreeSearch, rooted, routed, routedAfter, List.length_cons,
      Int.toNat_ofNat_add_one, List.getElem?_cons_succ]
    split
    · split
      · exact superLeafSearchHashed_congr _ key sameSize sameBlocks
      · rfl
    · rfl

theorem bplusTreeSsdGet_unchanged_by_put_routed_past_first_at_5759 :
    ∃ result tree', bplusTreeSsdPut (leafParentTree (diskManagerInit (1024 * 1024 * 1024) true)
        [100] [superLeafCreate, superLeafCreate]) 5759 1 = some (result, tree') ∧
      (bplusTreeSsdGet tree' 5759).1 = (bplusTreeSsdGet (leafParentTree
        (diskManagerInit (1024 * 1024 * 1024) true) [100] [superLeafCreate, superLeafCreate])
          5759).1 := by
  obtain ⟨result, tree', put⟩ : ∃ result tree', bplusTreeSsdPut (leafParentTree
      (diskManagerInit (1024 * 1024 * 1024) true) [100] [superLeafCreate, superLeafCreate]) 5759 1 =
        some (result, tree') := ⟨_, _, rfl⟩
  exact ⟨result, tree', put,
    bplusTreeSsdGet_unchanged_by_put_routed_past_first rfl (by decide) (by decide) put⟩

/-- Each key below the next. -/
def strictlyAscending : List Int → Bool
  | first :: second :: rest => decide (first < second) && strictlyAscending (second :: rest)
  | _ => true

theorem pairwise_of_strictlyAscending : ∀ {keys : List Int}, strictlyAscending keys = true →
    keys.Pairwise (· < ·)
  | [], _ => List.Pairwise.nil
  | [_], _ => List.pairwise_singleton _ _
  | first :: second :: rest, ascending => by
      simp only [strictlyAscending, Bool.and_eq_true, decide_eq_true_eq] at ascending
      have tail := pairwise_of_strictlyAscending ascending.2
      refine List.Pairwise.cons (fun later member => ?_) tail
      rcases List.mem_cons.mp member with rfl | deeper
      · exact ascending.1
      · exact Int.lt_trans ascending.1 ((List.pairwise_cons.mp tail).1 later deeper)

/-- The calls of the run: the first key 4557 times, then each later key once, all with the
value `1`. -/
def splitRun (first : Int) (later : List Int) : List (Int × Int) :=
  List.replicate 4557 (first, 1) ++ later.map fun key => (key, 1)

theorem bplusTreeSsdPutAll_fillRun {dm : DiskManager} {block : BitVec 32}
    {allocator : BlockAllocator}
    (issued : allocateBlock dm.allocator = (block, allocator)) (valid : block ≠ invalidBlockId)
    {first : Int} {later : List Int}
    (slots : ∀ pair ∈ (first, (1 : Int)) :: later.map (fun key => (key, (1 : Int))),
      subPageIndex pair.1 = 0)
    (ascending : ((first, (1 : Int)) :: later.map (fun key => (key, (1 : Int)))).Pairwise
      (fun earlier later : Int × Int => earlier.1 < later.1))
    (fits : later.length < entriesPerSubPage) :
    bplusTreeSsdPutAll ⟨16, 64, 0, none, dm⟩ (splitRun first later) =
      some (List.replicate (4557 + later.length) 0,
        leafParentTree { dm with allocator := allocator } []
          [slotZeroLeaf ((4557 + later.length : Nat) : Int) 1 block
            (some (pageOf ((first, 1) :: later.map (fun key => (key, (1 : Int)))))) true]) := by
  have oneNonNull : (1 : Int) ≠ 0 := by decide
  have slotFirst : subPageIndex first = 0 := slots (first, 1) (List.mem_cons_self _ _)
  have created : bplusTreeSsdPutAll ⟨16, 64, 0, none, dm⟩ [(first, 1)] =
      some ([0], leafParentTree { dm with allocator := allocator } []
        [slotZeroLeaf 1 1 block (some (pageOf [(first, 1)])) true]) := by
    simp only [bplusTreeSsdPutAll, bplusTreeSsdPut_first slotFirst oneNonNull issued valid]
    rfl
  have admissible : ∀ put ∈ later.map (fun key => (key, (1 : Int))),
      subPageIndex put.1 = 0 ∧ put.2 ≠ 0 := fun put member =>
    ⟨slots put (List.mem_cons_of_mem _ member), by
      obtain ⟨key, -, rfl⟩ := List.mem_map.mp member
      exact oneNonNull⟩
  rw [splitRun, show List.replicate 4557 (first, (1 : Int)) =
      [(first, 1)] ++ List.replicate 4556 (first, 1) from rfl, List.append_assoc,
    bplusTreeSsdPutAll_append created, bplusTreeSsdPutAll_append
      (bplusTreeSsdPutAll_replicate _ slotFirst oneNonNull 4556 1),
    bplusTreeSsdPutAll_ascending _ _ admissible ascending (by simpa using fits)]
  simp only [Option.map_some', List.length_map, List.replicate_add]
  rw [show (1 : Int) + ((4556 : Nat) : Int) + (later.length : Int) =
      ((4557 + later.length : Nat) : Int) by omega]
  rfl

theorem exists_halves {middle : List Int} (sized : middle.length = 339) :
    ∃ lowerKeys median upperKeys, middle = lowerKeys ++ median :: upperKeys ∧
      lowerKeys.length = 169 ∧ upperKeys.length = 169 ∧ middle.drop 169 = median :: upperKeys := by
  obtain ⟨median, upperKeys, upper⟩ :
      ∃ median upperKeys, middle.drop 169 = median :: upperKeys := by
    cases dropped : middle.drop 169 with
    | nil => simp [sized] at dropped
    | cons median upperKeys => exact ⟨median, upperKeys, rfl⟩
  refine ⟨middle.take 169, median, upperKeys, by rw [← upper, List.take_append_drop],
    by simp [sized], ?_, upper⟩
  have := congrArg List.length upper
  simp [sized] at this
  omega

theorem bplusTreeSsdPutAll_splitRun {dm : DiskManager} {firstBlock secondBlock : BitVec 32}
    {allocator allocator' : BlockAllocator}
    (issuedFirst : allocateBlock dm.allocator = (firstBlock, allocator))
    (validFirst : firstBlock ≠ invalidBlockId) (firstOnDisk : firstBlock < dm.total4kbBlocks)
    (issuedSecond : allocateBlock allocator = (secondBlock, allocator'))
    (validSecond : secondBlock ≠ invalidBlockId) (secondOnDisk : secondBlock < dm.total4kbBlocks)
    {first median last : Int} {lowerKeys upperKeys : List Int}
    (slots : ∀ pair ∈ (first, (1 : Int)) :: lowerKeys.map (fun key => (key, (1 : Int))) ++
      (median, 1) :: upperKeys.map (fun key => (key, (1 : Int))) ++ [(last, 1)],
        subPageIndex pair.1 = 0)
    (ascending : ((first, (1 : Int)) :: lowerKeys.map (fun key => (key, (1 : Int))) ++
      (median, 1) :: upperKeys.map (fun key => (key, (1 : Int))) ++ [(last, 1)]).Pairwise
        (fun earlier later : Int × Int => earlier.1 < later.1))
    (lowerSized : lowerKeys.length = 169) (upperSized : upperKeys.length = 169) :
    ∃ results dm', bplusTreeSsdPutAll ⟨16, 64, 0, none, dm⟩
        (splitRun first (lowerKeys ++ median :: upperKeys ++ [last])) =
          some (results, leafParentTree dm' [median]
            [slotZeroLeaf 171 1 firstBlock (some (pageOf (((first, 1) ::
                lowerKeys.map (fun key => (key, (1 : Int)))) ++ [(last, 1)]))) true,
             slotZeroLeaf 170 1 secondBlock
              (some (pageOf ((median, 1) :: upperKeys.map (fun key => (key, (1 : Int)))))) false]) ∧
        ∀ result ∈ results, result = 0 := by
  have run : splitRun first (lowerKeys ++ median :: upperKeys ++ [last]) =
      splitRun first (lowerKeys ++ median :: upperKeys) ++ [(last, 1)] := by
    simp only [splitRun, List.map_append, List.map_cons, List.map_nil, List.append_assoc]
  have filled : (first, (1 : Int)) :: (lowerKeys ++ median :: upperKeys).map
      (fun key => (key, (1 : Int))) = ((first, 1) :: lowerKeys.map (fun key => (key, (1 : Int)))) ++
        (median, 1) :: upperKeys.map (fun key => (key, (1 : Int))) := by
    simp
  have slotsPrefix : ∀ pair ∈ (first, (1 : Int)) :: (lowerKeys ++ median :: upperKeys).map
      (fun key => (key, (1 : Int))), subPageIndex pair.1 = 0 :=
    fun pair member => slots pair (List.mem_append_left _ (filled ▸ member))
  have ascendingPrefix := List.Pairwise.sublist (List.sublist_append_left _ [(last, 1)]) ascending
  rw [← filled] at ascendingPrefix
  have fill := bplusTreeSsdPutAll_fillRun issuedFirst validFirst slotsPrefix ascendingPrefix
    (by simp [lowerSized, upperSized, entriesPerSubPage_eq])
  have split := @bplusTreeSsdPut_splits firstBlock last 1 { dm with allocator := allocator }
    (first, 1) (lowerKeys.map (fun key => (key, (1 : Int))))
    (upperKeys.map (fun key => (key, (1 : Int)))) median 1
    ((4557 + (lowerKeys ++ median :: upperKeys).length : Nat) : Int) secondBlock allocator'
    (slots (last, 1) (by simp)) (by decide)
    (fun pair member => slots pair (List.mem_append_left _ member)) ascending
    (by simp [lowerSized, upperSized]) (by simp [lowerSized, upperSized, entriesPerSubPage_eq])
    (by simp [lowerSized, upperSized]) validFirst firstOnDisk issuedSecond validSecond secondOnDisk
  obtain ⟨dm', split⟩ := split
  rw [filled] at fill
  apply Exists.intro
  refine ⟨dm', ?_, ?_⟩
  · rw [run, bplusTreeSsdPutAll_append fill]
    simp only [bplusTreeSsdPutAll, split, Option.bind_eq_bind, Option.some_bind, Option.pure_def,
      Option.map_some']
    simp only [List.length_map, lowerSized, upperSized]
    rfl
  · intro result member
    simp only [List.mem_append, List.mem_replicate, List.mem_singleton] at member
    omega

/-- For 341 keys in ascending order that all hash to sub-page 0, the run of `splitRun` from
`bplus_tree_ssd_init`: every put returns 0, and the last one splits the super-leaf. Its
retry writes the last key into the first super-leaf, where a search finds it, while the root
routes the key to the second super-leaf, and `bplus_tree_ssd_get` returns `-1`. -/
theorem bplusTreeSsdGet_misses_key_put_after_split {first last : Int} {middle : List Int}
    (slots : ∀ key ∈ first :: middle ++ [last], subPageIndex key = 0)
    (ascending : (first :: middle ++ [last]).Pairwise (· < ·)) (sized : middle.length = 339) :
    ∃ tree, bplusTreeSsdInit 16 64 (1024 * 1024 * 1024) true = some tree ∧
      ∃ results tree', bplusTreeSsdPutAll tree (splitRun first (middle ++ [last])) =
          some (results, tree') ∧
        (∀ result ∈ results, result = 0) ∧
        ∃ keys firstLeaf secondLeaf, tree'.root = some ⟨keys, [firstLeaf, secondLeaf]⟩ ∧
          (superLeafSearchHashed tree'.diskMgr firstLeaf last).1 = 1 ∧
          LeafParent.route ⟨keys, [firstLeaf, secondLeaf]⟩ last = 1 ∧
          (bplusTreeSsdGet tree' last).1 = -1 := by
  obtain ⟨lowerKeys, median, upperKeys, rfl, lowerSized, upperSized, -⟩ := exists_halves sized
  have listed : (first :: (lowerKeys ++ median :: upperKeys) ++ [last]).map
      (fun key => (key, (1 : Int))) = ((first, 1) :: lowerKeys.map (fun key => (key, (1 : Int)))) ++
        (median, 1) :: upperKeys.map (fun key => (key, (1 : Int))) ++ [(last, 1)] := by
    simp
  have ordered := (List.pairwise_map.mpr ascending : ((first :: (lowerKeys ++ median :: upperKeys)
    ++ [last]).map fun key => (key, (1 : Int))).Pairwise
      fun earlier later : Int × Int => earlier.1 < later.1)
  have slotted : ∀ pair ∈ (first :: (lowerKeys ++ median :: upperKeys) ++ [last]).map
      (fun key => (key, (1 : Int))), subPageIndex pair.1 = 0 :=
    List.forall_mem_map.mpr slots
  rw [listed] at ordered slotted
  obtain ⟨stored, -, above⟩ := List.pairwise_append.mp ordered
  have belowLast : ∀ pair ∈ (first, (1 : Int)) :: lowerKeys.map (fun key => (key, (1 : Int))) ++
      (median, 1) :: upperKeys.map (fun key => (key, (1 : Int))), pair.1 < last :=
    fun pair member => above pair member (last, 1) (List.mem_singleton_self _)
  have slotLast : subPageIndex last = 0 := slots last (by simp)
  obtain ⟨allocator, allocator', firstBlock, secondBlock⟩ : ∃ allocator allocator',
      allocateBlock (diskManagerInit (1024 * 1024 * 1024) true).allocator = (0#32, allocator) ∧
        allocateBlock allocator = (1#32, allocator') := ⟨_, _, rfl, rfl⟩
  obtain ⟨results, dm', ran, zeros⟩ := bplusTreeSsdPutAll_splitRun firstBlock (by decide)
    (by decide) secondBlock (by decide) (by decide) slotted ordered lowerSized upperSized
  refine ⟨_, rfl, results, _, ran, zeros, [median], _, _, rfl, ?_,
    LeafParent.route_of_lt (belowLast (median, 1) (by simp)), ?_⟩
  · rw [superLeafSearchHashed_slotZeroLeaf _ slotLast (by decide),
      subPageSearch_pageOf_last 1
        (fun pair member => belowLast pair (List.mem_append_left _ member))]
  · rw [bplusTreeSsdGet_of_lt (belowLast (median, 1) (by simp)) slotLast (by decide),
      subPageSearch_pageOf_of_lt
        (fun pair member => belowLast pair (List.mem_append_right _ member))]

/-- The 339 keys after `29` among the positive keys whose hash names sub-page 0, in ascending
order; the next one is `5759`. -/
def fillingKeys : List Int :=
  [41, 80, 83, 112, 115, 123, 140, 147, 160, 189, 197, 208, 224, 280, 310, 311, 320, 374,
   394, 416, 427, 448, 476, 536, 542, 550, 560, 584, 592, 595, 616, 620, 624, 640, 646, 648,
   665, 704, 710, 748, 749, 752, 755, 788, 790, 832, 835, 854, 872, 874, 886, 896, 944, 952,
   958, 959, 989, 1001, 1040, 1042, 1072, 1084, 1100, 1120, 1124, 1184, 1190, 1197, 1208,
   1232, 1240, 1264, 1270, 1280, 1292, 1293, 1296, 1297, 1353, 1354, 1381, 1437, 1465, 1469,
   1501, 1502, 1504, 1510, 1536, 1543, 1544, 1549, 1551, 1552, 1584, 1600, 1625, 1629, 1664,
   1670, 1709, 1712, 1719, 1748, 1749, 1772, 1773, 1789, 1792, 1797, 1832, 1833, 1834, 1917,
   1918, 1945, 1949, 1959, 1961, 1965, 2001, 2002, 2029, 2043, 2044, 2080, 2085, 2109, 2117,
   2125, 2142, 2157, 2199, 2200, 2253, 2257, 2313, 2333, 2341, 2397, 2421, 2425, 2429, 2445,
   2453, 2461, 2503, 2509, 2511, 2544, 2560, 2585, 2586, 2589, 2593, 2594, 2622, 2626, 2669,
   2679, 2706, 2709, 2749, 2757, 2792, 2793, 2794, 2847, 2876, 2877, 2905, 2909, 2919, 2921,
   2925, 2954, 2958, 2960, 2961, 2962, 2989, 3002, 3003, 3018, 3042, 3045, 3077, 3098, 3101,
   3102, 3117, 3159, 3200, 3242, 3258, 3274, 3338, 3354, 3356, 3357, 3389, 3405, 3422, 3438,
   3440, 3498, 3503, 3504, 3546, 3553, 3554, 3578, 3582, 3586, 3594, 3639, 3666, 3690, 3722,
   3750, 3752, 3754, 3807, 3834, 3836, 3863, 3885, 3890, 3914, 3920, 3921, 3922, 3930, 3947,
   3962, 3963, 3978, 4002, 4004, 4005, 4046, 4058, 4062, 4086, 4088, 4103, 4160, 4170, 4202,
   4226, 4234, 4250, 4254, 4258, 4314, 4315, 4316, 4343, 4400, 4427, 4431, 4463, 4464, 4505,
   4506, 4511, 4514, 4546, 4554, 4587, 4599, 4631, 4650, 4673, 4682, 4710, 4714, 4734, 4759,
   4794, 4795, 4807, 4823, 4839, 4849, 4850, 4879, 4880, 4882, 4907, 4922, 4923, 4963, 4964,
   5005, 5006, 5047, 5048, 5063, 5079, 5087, 5089, 5104, 5111, 5120, 5131, 5153, 5159, 5161,
   5162, 5255, 5275, 5303, 5329, 5383, 5387, 5391, 5399, 5423, 5465, 5471, 5473, 5506, 5527,
   5547, 5548, 5555, 5559, 5584, 5591, 5611, 5633, 5639, 5668, 5713, 5719, 5735, 5752, 5755]

set_option maxRecDepth 8000 in
theorem fillingKeys_slots : ∀ key ∈ 29 :: fillingKeys ++ [5759], subPageIndex key = 0 :=
  fun key member => of_decide_eq_true (List.all_eq_true.mp
    (by decide : (29 :: fillingKeys ++ [5759]).all (fun key => subPageIndex key = 0) = true)
      key member)

set_option maxRecDepth 8000 in
theorem fillingKeys_ascending : (29 :: fillingKeys ++ [5759]).Pairwise (· < ·) :=
  pairwise_of_strictlyAscending (by decide)

set_option maxRecDepth 8000 in
theorem bplusTreeSsdGet_misses_key_put_after_split_of_fillingKeys :
    ∃ tree, bplusTreeSsdInit 16 64 (1024 * 1024 * 1024) true = some tree ∧
      ∃ results tree', bplusTreeSsdPutAll tree (splitRun 29 (fillingKeys ++ [5759])) =
          some (results, tree') ∧
        (∀ result ∈ results, result = 0) ∧
        ∃ keys firstLeaf secondLeaf, tree'.root = some ⟨keys, [firstLeaf, secondLeaf]⟩ ∧
          (superLeafSearchHashed tree'.diskMgr firstLeaf 5759).1 = 1 ∧
          LeafParent.route ⟨keys, [firstLeaf, secondLeaf]⟩ 5759 = 1 ∧
          (bplusTreeSsdGet tree' 5759).1 = -1 :=
  bplusTreeSsdGet_misses_key_put_after_split fillingKeys_slots fillingKeys_ascending (by decide)

end ZipCache.SsdTier
