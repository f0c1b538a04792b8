import ZipCache.LoTier.Spec

/-!
# A left split of a non-root leaf loses its new sibling

When a full leaf that already has a parent splits to the left, `leaf_insert` hands
`parent_node_build` the new sibling as the left child and the old leaf as the right one.
`non_leaf_simple_insert` then stores only the right child, at `insert + 1`, and leaves
`sub_ptr[insert]` naming the old leaf: the old leaf is named twice and the sibling, with the
keys below the separator, by no slot at all.

The run below reaches that state from `bplus_tree_lo_init(16)` with 98 puts: 65 ascending
keys split the root leaf to the right, 32 smaller keys fill its left half again, and one
more key below them all splits that leaf to the left. Each phase is evaluated by a lemma
about the tree's shape, not step by step.
-/

namespace ZipCache.LoTier

/-- `bplus_tree_lo_put` of each key in turn, all with one pointer: the statuses returned, and
the tree. -/
def putAll (p : ObjectPointer) : BplusTreeLo → List Int → Option (List Int × BplusTreeLo)
  | tree, [] => some ([], tree)
  | tree, key :: rest =>
      (bplusTreeLoPut tree key p).bind fun (status, tree) =>
        (putAll p tree rest).map fun (statuses, tree) => (status :: statuses, tree)

theorem putAll_append (p : ObjectPointer) (tree : BplusTreeLo) (first second : List Int) :
    putAll p tree (first ++ second) =
      (putAll p tree first).bind fun (statuses, tree) =>
        (putAll p tree second).map fun (more, tree) => (statuses ++ more, tree) := by
  induction first generalizing tree with
  | nil => simp [putAll]
  | cons key rest inductionHypothesis =>
      rw [List.cons_append, putAll, putAll]
      cases bplusTreeLoPut tree key p with
      | none => rfl
      | some result =>
          obtain ⟨status, tree⟩ := result
          simp only [Option.some_bind]
          rw [inductionHypothesis]
          cases putAll p tree rest with
          | none => rfl
          | some result => simp [Function.comp_def]

/-- How many `sub_ptr` slots, over all internal nodes, name a node. -/
def BplusTreeLo.referenceCount (tree : BplusTreeLo) (id : NodeId) : Nat :=
  (tree.heap.map fun
    | .nonLeaf node => node.subPtr.count id
    | .leaf _ => 0).foldr (· + ·) 0

/-- `count` consecutive keys from `first`. -/
def ascendingFrom (first : Int) (count : Nat) : List Int :=
  (List.range count).map fun (i : Nat) => first + i

theorem mem_ascendingFrom {first key : Int} {count : Nat} :
    key ∈ ascendingFrom first count ↔ first ≤ key ∧ key < first + count := by
  simp only [ascendingFrom, List.mem_map, List.mem_range]
  constructor
  · rintro ⟨i, below, rfl⟩
    omega
  · intro ⟨above, below⟩
    exact ⟨(key - first).toNat, by omega, by omega⟩

theorem pairwise_ascendingFrom (first : Int) (count : Nat) :
    (ascendingFrom first count).Pairwise (· < ·) := by
  simp only [ascendingFrom, List.pairwise_map]
  exact (List.pairwise_lt_range count).imp fun below => by omega

/-- The pointer every put of the run stores. -/
def samplePointer : ObjectPointer := ⟨1#64, 1#32, 0#32⟩

/-- The entries `ascendingFrom first count`, each with `samplePointer`. -/
def entriesFrom (first : Int) (count : Nat) : List (Int × ObjectPointer) :=
  (ascendingFrom first count).map (·, samplePointer)

theorem putAll_oneLeafTree (order : Nat) {p : ObjectPointer}
    (valid : objectPointerIsValid p = true) :
    ∀ (entries : List (Int × ObjectPointer)) (keys : List Int),
      entries.length + keys.length ≤ bplusMaxEntries →
      (entries.map Prod.fst ++ keys).Pairwise (· < ·) →
      putAll p (oneLeafTree order entries) keys =
        some (List.replicate keys.length 0, oneLeafTree order (entries ++ keys.map (·, p))) := by
  intro entries keys
  induction keys generalizing entries with
  | nil => intro _ _; simp [putAll]
  | cons key rest inductionHypothesis =>
      intro sized ordered
      have allBelow : ∀ e ∈ entries, e.1 < key := fun e member =>
        (List.pairwise_append.mp ordered).2.2 e.1 (List.mem_map_of_mem _ member) key
          (List.mem_cons_self key rest)
      have stillOrdered : ((entries ++ [(key, p)]).map Prod.fst ++ rest).Pairwise (· < ·) := by
        simpa using ordered
      simp only [List.length_cons] at sized
      rw [putAll, bplusTreeLoPut_oneLeafTree valid (by omega) allBelow, Option.some_bind]
      dsimp only
      rw [inductionHypothesis (entries ++ [(key, p)]) (by simp; omega) stillOrdered]
      simp only [Option.map_some', List.map_cons, List.append_assoc, List.singleton_append,
        List.length_cons, List.replicate_succ]

/-- The tree after the root leaf's first split: leaves `0` and `1` under the root `2`. -/
def twoLeafTree (order : Nat) (left right : List (Int × ObjectPointer)) (separator : Int) :
    BplusTreeLo :=
  { order, entries := left.length + right.length, level := 2, root := some 2,
    list := [[0, 1], [], [2]] ++ List.replicate (bplusMaxLevel - 3) [],
    heap := [.leaf ⟨some 2, left⟩, .leaf ⟨some 2, right⟩,
      .nonLeaf ⟨none, [separator], [0, 1]⟩] }

theorem twoLeafTree_locate_left {order : Nat} {left right : List (Int × ObjectPointer)}
    {separator key : Int} (routed : key < separator) :
    (twoLeafTree order left right separator).locate key = some (0, ⟨some 2, left⟩) := by
  have search : keyBinarySearch [separator] 1 key = -1 := by
    have cut : keyBinarySearch ([] ++ [separator] ++ []) (([] : List Int).length + 1) key =
        -([] : List Int).length - 1 :=
      keyBinarySearch_cut (by simp) (by simpa using routed)
    simpa using cut
  show leafLocate (twoLeafTree order left right separator) key 3 2 = _
  simp [leafLocate, BplusTreeLo.node?, twoLeafTree, search]

theorem bplusTreeLoPut_twoLeafTree {order : Nat} {front back right : List (Int × ObjectPointer)}
    {separator key : Int} {p : ObjectPointer} (valid : objectPointerIsValid p = true)
    (routed : key < separator) (room : (front ++ back).length < bplusMaxEntries)
    (allBelow : ∀ e ∈ front, e.1 < key) (allAbove : ∀ e ∈ back, key < e.1) :
    bplusTreeLoPut (twoLeafTree order (front ++ back) right separator) key p =
      some (0, twoLeafTree order (front ++ (key, p) :: back) right separator) := by
  rw [bplusTreeLoPut_cut valid (twoLeafTree_locate_left routed) (by omega) allBelow
    allAbove]
  simp only [twoLeafTree, BplusTreeLo.setNode, List.set_cons_zero, List.length_append,
    List.length_cons]
  congr 3
  push_cast
  omega

theorem putAll_twoLeafTree (order : Nat) (right back : List (Int × ObjectPointer))
    (separator : Int) {p : ObjectPointer} (valid : objectPointerIsValid p = true) :
    ∀ (front : List (Int × ObjectPointer)) (keys : List Int),
      front.length + keys.length + back.length ≤ bplusMaxEntries →
      (front.map Prod.fst ++ keys ++ back.map Prod.fst).Pairwise (· < ·) →
      (∀ key ∈ keys, key < separator) →
      putAll p (twoLeafTree order (front ++ back) right separator) keys =
        some (List.replicate keys.length 0,
          twoLeafTree order (front ++ keys.map (·, p) ++ back) right separator) := by
  intro front keys
  induction keys generalizing front with
  | nil => intro _ _ _; simp [putAll]
  | cons key rest inductionHypothesis =>
      intro sized ordered routed
      have parts := List.pairwise_append.mp ordered
      have allBelow : ∀ e ∈ front, e.1 < key := fun e member =>
        (List.pairwise_append.mp parts.1).2.2 e.1 (List.mem_map_of_mem _ member) key
          (List.mem_cons_self key rest)
      have allAbove : ∀ e ∈ back, key < e.1 := fun e member =>
        parts.2.2 key (List.mem_append_right _ (List.mem_cons_self key rest)) e.1
          (List.mem_map_of_mem _ member)
      have stillOrdered :
          ((front ++ [(key, p)]).map Prod.fst ++ rest ++ back.map Prod.fst).Pairwise (· < ·) := by
        simpa using ordered
      have put : bplusTreeLoPut (twoLeafTree order (front ++ back) right separator) key p =
          some (0, twoLeafTree order (front ++ (key, p) :: back) right separator) :=
        bplusTreeLoPut_twoLeafTree valid
        (routed key (List.mem_cons_self key rest)) (by simp at sized ⊢; omega) allBelow allAbove
      rw [show front ++ (key, p) :: back = (front ++ [(key, p)]) ++ back by simp] at put
      simp only [putAll, put, Option.some_bind, List.length_cons, List.replicate_succ,
        inductionHypothesis (front ++ [(key, p)]) (by simp at sized ⊢; omega) stillOrdered
          (fun key member => routed key (List.mem_cons_of_mem _ member))]
      simp

/-- 65 ascending keys, 32 keys below them, and one key below those. -/
def leftSplitKeys : List Int :=
  ascendingFrom 1000 65 ++ ascendingFrom 0 32 ++ [-1]

/-- The tree the run ends in: leaf `3`, holding `-1` to `30`, is linked on level 0 and named
by no `sub_ptr` slot, and the root names leaf `0` twice. -/
def orphanTree : BplusTreeLo :=
  { order := 16, entries := 98, level := 2, root := some 2,
    list := [[3, 0, 1], [], [2]] ++ List.replicate (bplusMaxLevel - 3) [],
    heap := [.leaf ⟨some 2, (31, samplePointer) :: entriesFrom 1000 32⟩,
      .leaf ⟨some 2, entriesFrom 1032 33⟩, .nonLeaf ⟨none, [31, 1032], [0, 0, 1]⟩,
      .leaf ⟨some 2, (-1, samplePointer) :: entriesFrom 0 31⟩] }

theorem putAll_leftSplitKeys :
    (bplusTreeLoInit 16).bind (putAll samplePointer · leftSplitKeys) =
      some (List.replicate 98 0, orphanTree) := by
  have valid : objectPointerIsValid samplePointer = true := rfl
  have fillRoot : putAll samplePointer (oneLeafTree 16 []) (ascendingFrom 1000 64) =
      some (List.replicate 64 0, oneLeafTree 16 (entriesFrom 1000 64)) :=
    putAll_oneLeafTree 16 valid [] (ascendingFrom 1000 64)
      (by simp [ascendingFrom, bplusMaxEntries]) (by simpa using pairwise_ascendingFrom 1000 64)
  have splitRoot : putAll samplePointer (oneLeafTree 16 (entriesFrom 1000 64)) [1064] =
      some ([0], twoLeafTree 16 (entriesFrom 1000 32) (entriesFrom 1032 33) 1032) := rfl
  have lowKeys : (entriesFrom 1000 32).map Prod.fst = ascendingFrom 1000 32 := by
    simp [entriesFrom, Function.comp_def]
  have fillLeft : putAll samplePointer
      (twoLeafTree 16 (entriesFrom 1000 32) (entriesFrom 1032 33) 1032) (ascendingFrom 0 32) =
      some (List.replicate 32 0,
        twoLeafTree 16 (entriesFrom 0 32 ++ entriesFrom 1000 32) (entriesFrom 1032 33) 1032) :=
    putAll_twoLeafTree 16 (entriesFrom 1032 33) (entriesFrom 1000 32) 1032 valid []
      (ascendingFrom 0 32)
      (by simp [ascendingFrom, entriesFrom, bplusMaxEntries])
      (by
        rw [lowKeys, List.map_nil, List.nil_append, List.pairwise_append]
        refine ⟨pairwise_ascendingFrom 0 32, pairwise_ascendingFrom 1000 32, ?_⟩
        intro low lowMember high highMember
        rw [mem_ascendingFrom] at lowMember highMember
        omega)
      (fun key member => by rw [mem_ascendingFrom] at member; omega)
  have splitLeft : putAll samplePointer
      (twoLeafTree 16 (entriesFrom 0 32 ++ entriesFrom 1000 32) (entriesFrom 1032 33) 1032)
      [-1] = some ([0], orphanTree) := rfl
  have keys : leftSplitKeys = ascendingFrom 1000 64 ++ [1064] ++ ascendingFrom 0 32 ++ [-1] :=
    rfl
  rw [keys, bplusTreeLoInit_eq_oneLeafTree (by decide) (by decide), Option.some_bind,
    putAll_append, putAll_append, putAll_append]
  rw [fillRoot, Option.some_bind]
  dsimp only
  rw [splitRoot, Option.map_some', Option.some_bind]
  dsimp only
  rw [fillLeft, Option.map_some', Option.some_bind]
  dsimp only
  rw [splitLeft, Option.map_some']
  rfl

/-- Every put of the run returns `0`, key `0` among them, and `bplus_tree_lo_get(0)` then
finds nothing: the key lives in the orphaned leaf. -/
theorem bplusTreeLoGet_misses_key_after_left_split :
    0 ∈ leftSplitKeys ∧
    ((bplusTreeLoInit 16).bind (putAll samplePointer · leftSplitKeys)).map
        (fun (statuses, tree) => (statuses.all (· == 0), bplusTreeLoGet tree 0)) =
      some (true, some invalidObjectPointer) := by
  rw [putAll_leftSplitKeys]
  exact ⟨by decide, rfl⟩

/-- After the run, leaf `3` is linked on level 0 and is not the root, yet no `sub_ptr`
slot names it, while leaf `0` is named by two. -/
theorem leftSplit_leaves_leaf_unreferenced :
    ((bplusTreeLoInit 16).bind (putAll samplePointer · leftSplitKeys)).map
        (fun (_, tree) => (tree.root, (tree.list.headD []).contains 3,
          tree.referenceCount 3, tree.referenceCount 0)) =
      some (some 2, true, 0, 2) := by
  rw [putAll_leftSplitKeys]
  rfl

end ZipCache.LoTier
