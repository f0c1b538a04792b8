import ZipCache.LoTier.Tree

/-!
# The large-object tree: spec lemmas of the insert path

What `bplus_tree_lo_put` does when the leaf it reaches has room: the key lands at the cut
between the entries below it and those above it, and the tree counts one more entry.
Callers cite these lemmas instead of unfolding the insert.
-/

namespace ZipCache.LoTier

@[simp]
theorem Leaf.keys_append (parent : Option NodeId) (front back : List (Int × ObjectPointer)) :
    Leaf.keys ⟨parent, front ++ back⟩ = front.map Prod.fst ++ back.map Prod.fst :=
  List.map_append _ _ _

theorem keyBinarySearch_leaf_cut (parent : Option NodeId) {front back : List (Int × ObjectPointer)}
    {key : Int} (allBelow : ∀ e ∈ front, e.1 < key) (allAbove : ∀ e ∈ back, key < e.1) :
    keyBinarySearch (Leaf.keys ⟨parent, front ++ back⟩) (front ++ back).length key =
      -front.length - 1 := by
  have cut : keyBinarySearch (front.map Prod.fst ++ back.map Prod.fst ++ [])
      ((front.map Prod.fst).length + (back.map Prod.fst).length) key =
        -(front.map Prod.fst).length - 1 :=
    keyBinarySearch_cut (by simpa using allBelow) (by simpa using allAbove)
  simpa using cut

theorem keyBinarySearch_leaf_hit (parent : Option NodeId) {front back : List (Int × ObjectPointer)}
    {entry : Int × ObjectPointer} {key : Int} (keyed : entry.1 = key)
    (allBelow : ∀ e ∈ front, e.1 < key) (allAbove : ∀ e ∈ back, key < e.1) :
    keyBinarySearch (Leaf.keys ⟨parent, front ++ entry :: back⟩) (front ++ entry :: back).length
      key = front.length := by
  have hit : keyBinarySearch (front.map Prod.fst ++ (entry :: back).map Prod.fst ++ [])
      ((front.map Prod.fst).length + ((entry :: back).map Prod.fst).length) key =
        if ((entry :: back).map Prod.fst).head? = some key then ((front.map Prod.fst).length : Int)
        else -(front.map Prod.fst).length - 1 :=
    keyBinarySearch_at_cut (by simpa using allBelow) (by
      simpa [keyed] using fun e member => Int.le_of_lt (allAbove e member))
  simpa [keyed] using hit

theorem leafInsert_cut (tree : BplusTreeLo) (id : NodeId) {parent : Option NodeId}
    {front back : List (Int × ObjectPointer)} {key : Int} (p : ObjectPointer)
    (room : (front ++ back).length ≠ bplusMaxEntries)
    (allBelow : ∀ e ∈ front, e.1 < key) (allAbove : ∀ e ∈ back, key < e.1) :
    leafInsert tree id ⟨parent, front ++ back⟩ key p =
      some { tree.setNode id (.leaf ⟨parent, front ++ (key, p) :: back⟩) with
        entries := tree.entries + 1 } := by
  have found := keyBinarySearch_leaf_cut parent allBelow allAbove
  simp only [leafInsert, found]
  rw [if_neg (by omega), if_neg room,
    show (-(-(front.length : Int) - 1) - 1).toNat = front.length by omega]
  simp [leafSimpleInsert, insertAt, List.take_left', List.drop_left']

theorem bplusTreeLoPut_cut {tree : BplusTreeLo} {key : Int} {p : ObjectPointer} {id : NodeId}
    {parent : Option NodeId} {front back : List (Int × ObjectPointer)}
    (valid : objectPointerIsValid p = true)
    (located : tree.locate key = some (id, ⟨parent, front ++ back⟩))
    (room : (front ++ back).length ≠ bplusMaxEntries)
    (allBelow : ∀ e ∈ front, e.1 < key) (allAbove : ∀ e ∈ back, key < e.1) :
    bplusTreeLoPut tree key p =
      some (0, { tree.setNode id (.leaf ⟨parent, front ++ (key, p) :: back⟩) with
        entries := tree.entries + 1 }) := by
  obtain ⟨root, rootIs⟩ : ∃ root, tree.root = some root := by
    cases rootIs : tree.root with
    | none => simp [BplusTreeLo.locate, rootIs] at located
    | some root => exact ⟨root, rfl⟩
  simp [bplusTreeLoPut, valid, rootIs, located, leafInsert_cut tree id p room allBelow allAbove]

/-- A tree whose root is its only leaf, as `bplus_tree_lo_init` builds it. -/
def oneLeafTree (order : Nat) (entries : List (Int × ObjectPointer)) : BplusTreeLo :=
  { order, entries := entries.length, level := 1, root := some 0,
    list := [0] :: List.replicate (bplusMaxLevel - 1) [], heap := [.leaf ⟨none, entries⟩] }

theorem bplusTreeLoInit_eq_oneLeafTree {order : Nat} (atLeast : bplusMinOrder ≤ order)
    (atMost : order ≤ bplusMaxOrder) : bplusTreeLoInit order = some (oneLeafTree order []) := by
  rw [bplusTreeLoInit, if_neg (by omega)]
  rfl

theorem bplusTreeLoPut_oneLeafTree {order : Nat} {entries : List (Int × ObjectPointer)}
    {key : Int} {p : ObjectPointer} (valid : objectPointerIsValid p = true)
    (room : entries.length < bplusMaxEntries) (allBelow : ∀ e ∈ entries, e.1 < key) :
    bplusTreeLoPut (oneLeafTree order entries) key p =
      some (0, oneLeafTree order (entries ++ [(key, p)])) := by
  have located : (oneLeafTree order entries).locate key = some (0, ⟨none, entries ++ []⟩) := by
    rw [List.append_nil]
    rfl
  rw [bplusTreeLoPut_cut valid located (by simp; omega) allBelow (by simp)]
  simp [oneLeafTree, BplusTreeLo.setNode]

theorem bplusTreeLoGet_oneLeafTree_single (order : Nat) (key : Int) (p : ObjectPointer) :
    bplusTreeLoGet (oneLeafTree order [(key, p)]) key = some p := by
  have found : keyBinarySearch [key] 1 key = 0 := by
    simp [keyBinarySearch, keyBinarySearchLoop]
  simp [bplusTreeLoGet, oneLeafTree, BplusTreeLo.locate, leafLocate, BplusTreeLo.node?,
    Leaf.keys, found]

end ZipCache.LoTier
