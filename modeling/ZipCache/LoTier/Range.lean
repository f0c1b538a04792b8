import ZipCache.LoTier.LeftSplit
import ZipCache.LoTier.Sorted

/-!
# The range get walks every leaf

`bplus_tree_lo_get_range` does not descend from the root: it walks `tree->list[0]`, the
leaves in link order, and copies each entry whose key lies in `[key1, key2]` until
`max_count` are copied. A leaf split links its new leaf next to the old one on level 0, and
the climb above it links internal nodes on higher levels only. So on every tree that
`bplus_tree_lo_init` and then puts and deletes reach, level 0 links each leaf of the heap
exactly once, and the range get reports every stored entry in range, up to `max_count`. That
includes the entries of a leaf that a left split left with no `sub_ptr` naming it, which
`bplus_tree_lo_get` misses (`LeftSplit.lean`).
-/

namespace ZipCache.LoTier

/-- `is_leaf`. -/
def Node.isLeaf : Node → Bool
  | .leaf _ => true
  | .nonLeaf _ => false

/-- The entries a node holds: a leaf's, none for an internal node. -/
def Node.leafEntries : Node → List (Int × ObjectPointer)
  | .leaf record => record.entries
  | .nonLeaf _ => []

@[simp]
theorem Node.isLeaf_withParent (parent : Option NodeId) (node : Node) :
    (node.withParent parent).isLeaf = node.isLeaf := by
  cases node <;> rfl

theorem Node.leafEntries_of_not_isLeaf {node : Node} (inner : node.isLeaf = false) :
    node.leafEntries = [] := by
  cases node
  · cases inner
  · rfl

namespace BplusTreeLo

/-- `tree->list[0]`: the ids linked on level 0, in link order. -/
def levelZero (tree : BplusTreeLo) : List NodeId :=
  tree.list.getD 0 []

end BplusTreeLo

/-- `leaf->key[i] >= key1 && leaf->key[i] <= key2`. -/
def inRange (key1 key2 key : Int) : Bool :=
  decide (key ≥ key1) && decide (key ≤ key2)

/-- The loop of `bplus_tree_lo_get_range` over one leaf's entries: `found` is what
`keys[0 .. count)` and `obj_ptrs[0 .. count)` hold, and the loop stops once `count` reaches
`max_count`. -/
def collectInRange (key1 key2 : Int) (maxCount : Nat) :
    List (Int × ObjectPointer) → List (Int × ObjectPointer) → List (Int × ObjectPointer)
  | found, [] => found
  | found, entry :: rest =>
      if found.length < maxCount then
        collectInRange key1 key2 maxCount
          (if inRange key1 key2 entry.1 then found ++ [entry] else found) rest
      else found

/-- One pass of the walk over `list[0]`: the leaf behind `pos`, read through `list_entry`;
`none` when the id holds no leaf. -/
def collectLeaf (tree : BplusTreeLo) (key1 key2 : Int) (maxCount : Nat)
    (found : List (Int × ObjectPointer)) (id : NodeId) : Option (List (Int × ObjectPointer)) :=
  match tree.node? id with
  | some (.leaf leaf) => some (collectInRange key1 key2 maxCount found leaf.entries)
  | _ => none

/-- `bplus_tree_lo_get_range(tree, key1, key2, keys, obj_ptrs, max_count)`: the count it
returns and the pairs `(keys[i], obj_ptrs[i])` it writes; `none` when `list[0]` links an id
that holds no leaf. -/
def bplusTreeLoGetRange (tree : BplusTreeLo) (key1 key2 maxCount : Int) :
    Option (Int × List (Int × ObjectPointer)) :=
  if key1 > key2 ∨ maxCount ≤ 0 then some (0, [])
  else do
    let found ← tree.levelZero.foldlM (collectLeaf tree key1 key2 maxCount.toNat) []
    pure (found.length, found)

namespace BplusTreeLo

/-- Whether an address holds a leaf. -/
def isLeafAt (tree : BplusTreeLo) (id : NodeId) : Bool :=
  ((tree.node? id).map Node.isLeaf).getD false

/-- The entries held at an address. -/
def entriesAt (tree : BplusTreeLo) (id : NodeId) : List (Int × ObjectPointer) :=
  ((tree.node? id).map Node.leafEntries).getD []

/-- The entries of the leaves linked on level 0, in link order. -/
def levelZeroEntries (tree : BplusTreeLo) : List (Int × ObjectPointer) :=
  tree.levelZero.flatMap tree.entriesAt

/-- The first `maxCount` entries of level 0 with a key in `[key1, key2]`, in link order. -/
def levelZeroRange (tree : BplusTreeLo) (key1 key2 : Int) (maxCount : Nat) :
    List (Int × ObjectPointer) :=
  (tree.levelZeroEntries.filter fun entry => inRange key1 key2 entry.1).take maxCount

/-- Level 0 links each leaf of the heap once and nothing else, and the tree has a root. -/
structure LinksLeaves (tree : BplusTreeLo) : Prop where
  rooted : tree.root ≠ none
  distinct : tree.levelZero.Nodup
  linked : ∀ id, id ∈ tree.levelZero ↔ tree.isLeafAt id = true

theorem entriesAt_of_not_isLeafAt {tree : BplusTreeLo} {id : NodeId}
    (inner : tree.isLeafAt id = false) : tree.entriesAt id = [] := by
  unfold isLeafAt at inner
  unfold entriesAt
  cases present : tree.node? id with
  | none => rfl
  | some node =>
      rw [present] at inner
      exact Node.leafEntries_of_not_isLeaf inner

theorem lt_of_isLeafAt {tree : BplusTreeLo} {id : NodeId} (leaf : tree.isLeafAt id = true) :
    id < tree.heap.length := by
  unfold isLeafAt node? at leaf
  by_contra outside
  rw [List.getElem?_eq_none (Nat.le_of_not_lt outside)] at leaf
  cases leaf

end BplusTreeLo

section Walk

variable (key1 key2 : Int) (maxCount : Nat)

theorem collectInRange_eq (entries : List (Int × ObjectPointer)) :
    ∀ found : List (Int × ObjectPointer), found.length ≤ maxCount →
      collectInRange key1 key2 maxCount found entries =
        (found ++ entries.filter fun entry => inRange key1 key2 entry.1).take maxCount := by
  induction entries with
  | nil => intro found short; simp [collectInRange, List.take_of_length_le short]
  | cons entry rest inductionHypothesis =>
      intro found short
      unfold collectInRange
      split_ifs with room inside
      · rw [inductionHypothesis _ (by simp; omega)]
        simp [List.filter_cons, inside]
      · rw [inductionHypothesis _ short]
        simp [List.filter_cons, inside]
      · exact (List.take_left' (by omega)).symm

theorem take_append_take_self {α : Type} (front back : List α) (n : Nat) :
    (front.take n ++ back).take n = (front ++ back).take n := by
  simp only [List.take_append_eq_append_take, List.take_take, List.length_take, min_self]
  congr 2
  omega

theorem foldlM_collectInRange (tree : BplusTreeLo) (ids : List NodeId)
    (leaves : ∀ id ∈ ids, tree.isLeafAt id = true) :
    ∀ passed : List (Int × ObjectPointer),
      ids.foldlM (collectLeaf tree key1 key2 maxCount)
        ((passed.filter fun entry => inRange key1 key2 entry.1).take maxCount) =
      some (((passed ++ ids.flatMap tree.entriesAt).filter
        fun entry => inRange key1 key2 entry.1).take maxCount) := by
  induction ids with
  | nil => intro passed; simp
  | cons id rest inductionHypothesis =>
      intro passed
      obtain ⟨leaf, present⟩ : ∃ leaf, tree.node? id = some (.leaf leaf) := by
        have leafy := leaves id (List.mem_cons_self _ _)
        unfold BplusTreeLo.isLeafAt at leafy
        rcases h : tree.node? id with _ | ⟨leaf | node⟩ <;> simp [h, Node.isLeaf] at leafy
        exact ⟨leaf, rfl⟩
      have entries : tree.entriesAt id = leaf.entries := by
        simp [BplusTreeLo.entriesAt, present, Node.leafEntries]
      have collected : ∀ found, collectLeaf tree key1 key2 maxCount found id =
          pure (collectInRange key1 key2 maxCount found leaf.entries) := by
        simp [collectLeaf, present]
      rw [List.foldlM_cons, collected, pure_bind,
        collectInRange_eq _ _ _ _ _ (List.length_take_le _ _), take_append_take_self,
        ← List.filter_append, inductionHypothesis (fun other member =>
          leaves other (List.mem_cons_of_mem _ member)), List.flatMap_cons, entries,
        List.append_assoc]

end Walk

theorem bplusTreeLoGetRange_eq {tree : BplusTreeLo}
    (leaves : ∀ id ∈ tree.levelZero, tree.isLeafAt id = true) (key1 key2 maxCount : Int) :
    bplusTreeLoGetRange tree key1 key2 maxCount =
      some (((tree.levelZeroRange key1 key2 maxCount.toNat).length : Int),
        tree.levelZeroRange key1 key2 maxCount.toNat) := by
  unfold bplusTreeLoGetRange BplusTreeLo.levelZeroRange
  split_ifs with refused
  · rcases refused with inverted | nonPositive
    · have none : tree.levelZeroEntries.filter (fun entry => inRange key1 key2 entry.1) = [] :=
        List.filter_eq_nil_iff.mpr fun entry _ => by simp [inRange]; omega
      simp [none]
    · simp [show maxCount.toNat = 0 by omega]
  · have walked := foldlM_collectInRange key1 key2 maxCount.toNat tree _ leaves []
    simp only [List.filter_nil, List.take_nil, List.nil_append] at walked
    simp only [walked, Option.bind_eq_bind, Option.some_bind, Option.pure_def]
    rfl

theorem insertAfter_of_not_mem {anchor new : NodeId} :
    ∀ {ids : List NodeId}, anchor ∉ ids → insertAfter anchor new ids = ids
  | [], _ => rfl
  | x :: rest, absent => by
      rw [insertAfter, if_neg fun same : x = anchor => absent (List.mem_cons.mpr (.inl same.symm)),
        insertAfter_of_not_mem fun member => absent (List.mem_cons_of_mem _ member)]

theorem insertAfter_perm {anchor new : NodeId} :
    ∀ {ids : List NodeId}, anchor ∈ ids → (insertAfter anchor new ids).Perm (new :: ids)
  | [], member => absurd member (List.not_mem_nil _)
  | x :: rest, member => by
      unfold insertAfter
      split_ifs with here
      · exact List.Perm.swap new x rest
      · have later := (List.mem_cons.mp member).resolve_left fun same => here same.symm
        exact ((insertAfter_perm later).cons x).trans (List.Perm.swap new x rest)

theorem insertBefore_perm {anchor new : NodeId} :
    ∀ {ids : List NodeId}, anchor ∈ ids → (insertBefore anchor new ids).Perm (new :: ids)
  | [], member => absurd member (List.not_mem_nil _)
  | x :: rest, member => by
      unfold insertBefore
      split_ifs with here
      · exact List.Perm.refl _
      · have later := (List.mem_cons.mp member).resolve_left fun same => here same.symm
        exact ((insertBefore_perm later).cons x).trans (List.Perm.swap new x rest)

namespace BplusTreeLo

/-- Every id linked on level 0 holds a leaf. -/
def LeavesOnly (tree : BplusTreeLo) : Prop :=
  ∀ id ∈ tree.levelZero, tree.isLeafAt id = true

theorem LinksLeaves.leavesOnly {tree : BplusTreeLo} (links : tree.LinksLeaves) :
    tree.LeavesOnly :=
  fun id member => (links.linked id).mp member

/-- What a step that turns no leaf into an internal node or back leaves alone: which
addresses hold leaves, the ids linked on level 0, and a root once there is one. -/
structure KeepsLevelZero (tree tree' : BplusTreeLo) : Prop where
  kinds : ∀ id, tree'.isLeafAt id = tree.isLeafAt id
  levelZero : tree'.levelZero = tree.levelZero
  rooted : tree.root ≠ none → tree'.root ≠ none

theorem KeepsLevelZero.refl (tree : BplusTreeLo) : KeepsLevelZero tree tree :=
  ⟨fun _ => rfl, rfl, fun rooted => rooted⟩

theorem KeepsLevelZero.trans {tree middle tree' : BplusTreeLo}
    (first : KeepsLevelZero tree middle) (second : KeepsLevelZero middle tree') :
    KeepsLevelZero tree tree' :=
  ⟨fun id => (second.kinds id).trans (first.kinds id), second.levelZero.trans first.levelZero,
    second.rooted ∘ first.rooted⟩

theorem keepsLevelZero_of_eq {tree tree' : BplusTreeLo} (heap : tree'.heap = tree.heap)
    (list : tree'.list = tree.list) (root : tree'.root = tree.root) :
    KeepsLevelZero tree tree' :=
  ⟨fun id => by simp only [isLeafAt, node?, heap], by simp only [levelZero, list],
    fun rooted => root ▸ rooted⟩

theorem KeepsLevelZero.withEntries {tree tree' : BplusTreeLo} (kept : KeepsLevelZero tree tree')
    (entries : Int) : KeepsLevelZero tree { tree' with entries := entries } :=
  kept.trans (keepsLevelZero_of_eq rfl rfl rfl)

theorem KeepsLevelZero.leavesOnly {tree tree' : BplusTreeLo} (kept : KeepsLevelZero tree tree')
    (only : tree.LeavesOnly) : tree'.LeavesOnly := by
  intro id member
  rw [kept.levelZero] at member
  rw [kept.kinds]
  exact only id member

theorem KeepsLevelZero.linksLeaves {tree tree' : BplusTreeLo} (kept : KeepsLevelZero tree tree')
    (links : tree.LinksLeaves) : tree'.LinksLeaves :=
  ⟨kept.rooted links.rooted, kept.levelZero ▸ links.distinct,
    fun id => by rw [kept.levelZero, kept.kinds]; exact links.linked id⟩

theorem keepsLevelZero_setNode {tree : BplusTreeLo} {id : NodeId} {node : Node}
    (same : id < tree.heap.length → tree.isLeafAt id = node.isLeaf) :
    KeepsLevelZero tree (tree.setNode id node) := by
  refine ⟨fun other => ?_, rfl, fun rooted => rooted⟩
  simp only [isLeafAt, node?, setNode, List.getElem?_set]
  split_ifs with here inside
  · subst here
    exact (same inside).symm
  · subst here
    rw [List.getElem?_eq_none (Nat.le_of_not_lt inside)]
  · rfl

theorem keepsLevelZero_setNode_nonLeaf {tree : BplusTreeLo} {id : NodeId}
    (inner : tree.isLeafAt id = false) (node : NonLeaf) :
    KeepsLevelZero tree (tree.setNode id (.nonLeaf node)) :=
  keepsLevelZero_setNode fun _ => inner

theorem keepsLevelZero_setNode_leaf {tree : BplusTreeLo} {id : NodeId}
    (leafy : tree.isLeafAt id = true) (leaf : Leaf) :
    KeepsLevelZero tree (tree.setNode id (.leaf leaf)) :=
  keepsLevelZero_setNode fun _ => leafy

theorem isLeafAt_alloc (tree : BplusTreeLo) (node : Node) (other : NodeId) :
    (tree.alloc node).1.isLeafAt other =
      if other = tree.heap.length then node.isLeaf else tree.isLeafAt other := by
  unfold isLeafAt node? alloc
  by_cases here : other = tree.heap.length
  · subst here
    simp
  · rw [if_neg here]
    rcases Nat.lt_or_gt_of_ne here with inside | outside
    · rw [List.getElem?_append_left inside]
    · have past : (tree.heap ++ [node]).length ≤ other := by simp; omega
      rw [List.getElem?_eq_none past, List.getElem?_eq_none (Nat.le_of_lt outside)]

theorem isLeafAt_of_heap_length (tree : BplusTreeLo) : tree.isLeafAt tree.heap.length = false :=
  Bool.eq_false_iff.mpr fun leafy => Nat.lt_irrefl _ (lt_of_isLeafAt leafy)

theorem keepsLevelZero_alloc_nonLeaf (tree : BplusTreeLo) (node : NonLeaf) :
    KeepsLevelZero tree (tree.alloc (.nonLeaf node)).1 := by
  refine ⟨fun other => ?_, rfl, fun rooted => rooted⟩
  rw [isLeafAt_alloc]
  split_ifs with here
  · subst here
    exact (isLeafAt_of_heap_length tree).symm
  · rfl

theorem keepsLevelZero_setParent {tree tree' : BplusTreeLo} {id : NodeId}
    {parent : Option NodeId} (reparented : tree.setParent id parent = some tree') :
    KeepsLevelZero tree tree' := by
  simp only [setParent, Option.bind_eq_bind, Option.bind_eq_some, Option.pure_def,
    Option.some.injEq] at reparented
  obtain ⟨node, present, rfl⟩ := reparented
  exact keepsLevelZero_setNode fun _ => by simp [isLeafAt, present]

theorem levelZero_linkAfter (tree : BplusTreeLo) (anchor new : NodeId) :
    (tree.linkAfter anchor new).levelZero = insertAfter anchor new tree.levelZero := by
  show (tree.list.map (insertAfter anchor new)).getD 0 [] = insertAfter anchor new
    (tree.list.getD 0 [])
  cases tree.list <;> rfl

theorem levelZero_linkBefore (tree : BplusTreeLo) (anchor new : NodeId) :
    (tree.linkBefore anchor new).levelZero = insertBefore anchor new tree.levelZero := by
  show (tree.list.map (insertBefore anchor new)).getD 0 [] = insertBefore anchor new
    (tree.list.getD 0 [])
  cases tree.list <;> rfl

theorem KeepsLevelZero.linkAfter {tree middle : BplusTreeLo} {anchor : NodeId}
    (kept : KeepsLevelZero tree middle) (only : tree.LeavesOnly)
    (inner : tree.isLeafAt anchor = false) (new : NodeId) :
    KeepsLevelZero tree (middle.linkAfter anchor new) := by
  refine kept.trans ⟨fun _ => rfl, ?_, fun rooted => rooted⟩
  rw [levelZero_linkAfter, insertAfter_of_not_mem]
  intro member
  rw [kept.levelZero] at member
  rw [only anchor member] at inner
  cases inner

theorem keepsLevelZero_linkHead {tree tree' : BplusTreeLo} {level : Nat} {new : NodeId}
    (above : 0 < level) (linked : tree.linkHead level new = some tree') :
    KeepsLevelZero tree tree' := by
  unfold linkHead at linked
  split at linked
  · cases linked
    refine ⟨fun _ => rfl, ?_, fun rooted => rooted⟩
    simp [levelZero, List.getD_eq_getElem?_getD, List.getElem?_modify, Nat.ne_of_gt above]
  · cases linked

end BplusTreeLo

open BplusTreeLo

theorem keepsLevelZero_setParents (parent : NodeId) :
    ∀ (children : List NodeId) {tree tree' : BplusTreeLo},
      setParents parent tree children = some tree' → KeepsLevelZero tree tree' := by
  intro children
  induction children with
  | nil =>
      intro tree tree' done
      cases done
      exact KeepsLevelZero.refl tree
  | cons child rest inductionHypothesis =>
      intro tree tree' done
      simp only [setParents, Option.bind_eq_bind, Option.bind_eq_some] at done
      obtain ⟨middle, reparented, rest⟩ := done
      exact (keepsLevelZero_setParent reparented).trans (inductionHypothesis rest)

theorem keepsLevelZero_nonLeafSimpleInsert {tree tree' : BplusTreeLo} {id : NodeId}
    {node : NonLeaf} {lCh rCh : NodeId} {separator : Int} {insert : Nat}
    (inner : tree.isLeafAt id = false)
    (inserted : nonLeafSimpleInsert tree id node lCh rCh separator insert = some tree') :
    KeepsLevelZero tree tree' := by
  simp only [nonLeafSimpleInsert, Option.bind_eq_bind, Option.bind_eq_some] at inserted
  obtain ⟨middle, right, left⟩ := inserted
  exact ((keepsLevelZero_setNode_nonLeaf inner _).trans (keepsLevelZero_setParent right)).trans
    (keepsLevelZero_setParent left)

theorem keepsLevelZero_nonLeafInsertStep {tree : BplusTreeLo} {id lCh rCh : NodeId}
    {separator : Int} {step : ClimbStep} (only : tree.LeavesOnly)
    (climbed : nonLeafInsertStep tree id lCh rCh separator = some step) :
    KeepsLevelZero tree step.tree := by
  unfold nonLeafInsertStep at climbed
  cases present : tree.node? id with
  | none => simp only [present, Option.bind_eq_bind, Option.none_bind, reduceCtorEq] at climbed
  | some node =>
      cases node with
      | leaf record =>
          simp only [present, Option.bind_eq_bind, Option.some_bind, reduceCtorEq] at climbed
      | nonLeaf record =>
          have inner : tree.isLeafAt id = false := by simp [isLeafAt, present, Node.isLeaf]
          simp only [present, Option.bind_eq_bind, Option.some_bind] at climbed
          by_cases found :
            0 ≤ keyBinarySearch record.key (record.subPtr.length - 1 : Nat) separator
          · simp only [found, if_true, Option.none_bind, reduceCtorEq] at climbed
          · simp only [found, if_false, Option.pure_def, Option.some_bind] at climbed
            have sibling : ∀ {node : NonLeaf} {children : List NodeId} {tree' : BplusTreeLo},
                setParents tree.heap.length
                  ((tree.alloc (.nonLeaf ⟨none, [], []⟩)).1.setNode tree.heap.length
                    (.nonLeaf node)) children = some tree' → KeepsLevelZero tree tree' :=
              fun parented => ((keepsLevelZero_alloc_nonLeaf _ _).trans
                (keepsLevelZero_setNode_nonLeaf (by simp [isLeafAt_alloc, Node.isLeaf]) _)).trans
                (keepsLevelZero_setParents _ _ parented)
            split_ifs at climbed
            · -- a full node split, the new separator going to the old node
              simp only [Option.bind_eq_some, Option.some.injEq] at climbed
              obtain ⟨middle, parented, inner', inserted, rfl⟩ := climbed
              have kept := sibling parented
              exact (kept.trans (keepsLevelZero_nonLeafSimpleInsert
                (by rw [kept.kinds]; exact inner) inserted)).linkAfter only inner _
            iterate 2
              -- a full node split, the new separator going to the sibling or up
              simp only [Option.bind_eq_some, Option.some.injEq] at climbed
              obtain ⟨middle, parented, rfl⟩ := climbed
              have kept := sibling parented
              exact (kept.trans (keepsLevelZero_setNode_nonLeaf
                (by rw [kept.kinds]; exact inner) _)).linkAfter only inner _
            · -- room in the node
              simp only [Option.bind_eq_some, Option.some.injEq] at climbed
              obtain ⟨inner', inserted, rfl⟩ := climbed
              exact keepsLevelZero_nonLeafSimpleInsert inner inserted

theorem keepsLevelZero_parentNodeBuild (fuel : Nat) :
    ∀ {tree tree' : BplusTreeLo} {left right : NodeId} {separator : Int}, tree.LeavesOnly →
      parentNodeBuild fuel tree left right separator = some tree' →
        KeepsLevelZero tree tree' := by
  induction fuel with
  | zero => intro tree tree' left right separator _ built; cases built
  | succ fuel inductionHypothesis =>
      intro tree tree' left right separator only built
      simp only [parentNodeBuild, Option.bind_eq_bind, Option.bind_eq_some] at built
      obtain ⟨leftNode, -, rightNode, -, built⟩ := built
      split at built
      · simp only [Option.bind_eq_some, Option.pure_def, Option.some.injEq] at built
        obtain ⟨withLeft, leftSet, withRight, rightSet, linkedTree, linked, rfl⟩ := built
        have rooted : KeepsLevelZero linkedTree
            { linkedTree with root := some tree.heap.length, level := linkedTree.level + 1 } :=
          ⟨fun _ => rfl, rfl, fun _ => Option.some_ne_none _⟩
        exact ((((keepsLevelZero_alloc_nonLeaf _ _).trans (keepsLevelZero_setParent leftSet)).trans
          (keepsLevelZero_setParent rightSet)).trans
            (keepsLevelZero_linkHead (Nat.succ_pos _) linked)).trans rooted
      all_goals
        simp only [Option.bind_eq_some] at built
        obtain ⟨middle, reparented, step, climbed, finished⟩ := built
        have first := keepsLevelZero_setParent reparented
        have second := keepsLevelZero_nonLeafInsertStep (first.leavesOnly only) climbed
        refine first.trans (second.trans ?_)
        cases step with
        | done inner =>
            cases finished
            exact KeepsLevelZero.refl _
        | split inner left right above =>
            exact inductionHypothesis ((first.trans second).leavesOnly only) finished

namespace BplusTreeLo

theorem LinksLeaves.of_split {tree split : BplusTreeLo} (links : tree.LinksLeaves)
    (root : split.root = tree.root)
    (kinds : ∀ id, split.isLeafAt id = if id = tree.heap.length then true else tree.isLeafAt id)
    (linked : split.levelZero.Perm (tree.heap.length :: tree.levelZero)) : split.LinksLeaves := by
  have fresh : tree.heap.length ∉ tree.levelZero := fun member => by
    rw [links.linked, isLeafAt_of_heap_length] at member
    cases member
  refine ⟨root ▸ links.rooted,
    linked.nodup_iff.mpr (List.nodup_cons.mpr ⟨fresh, links.distinct⟩), fun id => ?_⟩
  rw [linked.mem_iff, List.mem_cons, links.linked, kinds]
  split_ifs with here <;> simp [here]

theorem isLeafAt_split {tree : BplusTreeLo} {id : NodeId} (leafy : tree.isLeafAt id = true)
    {first second : NodeId}
    (order : first = id ∧ second = tree.heap.length ∨ first = tree.heap.length ∧ second = id)
    (a b : Leaf) (other : NodeId) :
    (((tree.alloc (.leaf ⟨none, []⟩)).1.setNode first (.leaf a)).setNode second
        (.leaf b)).isLeafAt other =
      if other = tree.heap.length then true else tree.isLeafAt other := by
  have fresh : (tree.alloc (.leaf ⟨none, []⟩)).1.isLeafAt tree.heap.length = true := by
    simp [isLeafAt_alloc, Node.isLeaf]
  have old : (tree.alloc (.leaf ⟨none, []⟩)).1.isLeafAt id = true := by
    rw [isLeafAt_alloc, if_neg (Nat.ne_of_lt (lt_of_isLeafAt leafy))]
    exact leafy
  have halves : KeepsLevelZero (tree.alloc (.leaf ⟨none, []⟩)).1
      (((tree.alloc (.leaf ⟨none, []⟩)).1.setNode first (.leaf a)).setNode second
        (.leaf b)) := by
    rcases order with ⟨rfl, rfl⟩ | ⟨rfl, rfl⟩
    · have kept := keepsLevelZero_setNode_leaf old a
      exact kept.trans (keepsLevelZero_setNode_leaf (by rw [kept.kinds]; exact fresh) b)
    · have kept := keepsLevelZero_setNode_leaf fresh a
      exact kept.trans (keepsLevelZero_setNode_leaf (by rw [kept.kinds]; exact old) b)
  rw [halves.kinds, isLeafAt_alloc]
  rfl

theorem LinksLeaves.splitBefore {tree middle : BplusTreeLo} (links : tree.LinksLeaves)
    {id : NodeId} (linkedHere : id ∈ tree.levelZero) (list : middle.list = tree.list)
    (root : middle.root = tree.root)
    (kinds : ∀ other, middle.isLeafAt other =
      if other = tree.heap.length then true else tree.isLeafAt other) (entries : Int) :
    { middle.linkBefore id tree.heap.length with entries := entries }.LinksLeaves := by
  refine links.of_split root kinds ?_
  show (middle.linkBefore id tree.heap.length).levelZero.Perm _
  rw [levelZero_linkBefore, show middle.levelZero = tree.levelZero by simp only [levelZero, list]]
  exact insertBefore_perm linkedHere

theorem LinksLeaves.splitAfter {tree middle : BplusTreeLo} (links : tree.LinksLeaves)
    {id : NodeId} (linkedHere : id ∈ tree.levelZero) (list : middle.list = tree.list)
    (root : middle.root = tree.root)
    (kinds : ∀ other, middle.isLeafAt other =
      if other = tree.heap.length then true else tree.isLeafAt other) (entries : Int) :
    { middle.linkAfter id tree.heap.length with entries := entries }.LinksLeaves := by
  refine links.of_split root kinds ?_
  show (middle.linkAfter id tree.heap.length).levelZero.Perm _
  rw [levelZero_linkAfter, show middle.levelZero = tree.levelZero by simp only [levelZero, list]]
  exact insertAfter_perm linkedHere

end BplusTreeLo

theorem linksLeaves_leafInsert {tree tree' : BplusTreeLo} {id : NodeId} {leaf : Leaf}
    {key : Int} {p : ObjectPointer} (links : tree.LinksLeaves)
    (present : tree.node? id = some (.leaf leaf))
    (inserted : leafInsert tree id leaf key p = some tree') : tree'.LinksLeaves := by
  have leafy : tree.isLeafAt id = true := by simp [isLeafAt, present, Node.isLeaf]
  have linkedHere : id ∈ tree.levelZero := (links.linked id).mpr leafy
  unfold leafInsert at inserted
  by_cases found : 0 ≤ keyBinarySearch leaf.keys leaf.entries.length key
  · -- the key is there: its entry is overwritten in place
    rw [if_pos found] at inserted
    cases inserted
    exact (keepsLevelZero_setNode_leaf leafy _).linksLeaves links
  rw [if_neg found] at inserted
  by_cases full : leaf.entries.length = bplusMaxEntries
  · simp only [full, if_true, BplusTreeLo.alloc] at inserted
    split_ifs at inserted
    all_goals refine (fun split => (keepsLevelZero_parentNodeBuild _ split.leavesOnly
      inserted).linksLeaves split) ?_
    · -- a split to the left: the new leaf takes the smaller keys, linked before the old one
      refine links.splitBefore linkedHere ?_ ?_ (isLeafAt_split leafy (.inr ⟨rfl, rfl⟩) _ _) _
        <;> rfl
    · -- a split to the right: the new leaf takes the larger keys, linked after the old one
      refine links.splitAfter linkedHere ?_ ?_ (isLeafAt_split leafy (.inl ⟨rfl, rfl⟩) _ _) _
        <;> rfl
  · -- room in the leaf: the entry is inserted in place
    simp only [full, if_false, Option.some.injEq] at inserted
    subst inserted
    exact ((keepsLevelZero_setNode_leaf leafy _).withEntries _).linksLeaves links

theorem linksLeaves_bplusTreeLoPut {tree tree' : BplusTreeLo} {key : Int} {p : ObjectPointer}
    {status : Int} (links : tree.LinksLeaves)
    (put : bplusTreeLoPut tree key p = some (status, tree')) : tree'.LinksLeaves := by
  unfold bplusTreeLoPut at put
  split_ifs at put
  · cases put
    exact links
  · split at put
    · simp only [Option.bind_eq_bind, Option.bind_eq_some, Option.pure_def, Option.some.injEq,
        Prod.mk.injEq] at put
      obtain ⟨⟨id, leaf⟩, located, inserted, placed, -, rfl⟩ := put
      exact linksLeaves_leafInsert links (locate_present located) placed
    · exact absurd ‹tree.root = none› links.rooted

theorem linksLeaves_bplusTreeLoDelete {tree tree' : BplusTreeLo} {key status : Int}
    (links : tree.LinksLeaves) (deleted : bplusTreeLoDelete tree key = some (status, tree')) :
    tree'.LinksLeaves := by
  unfold bplusTreeLoDelete at deleted
  split at deleted
  · cases deleted
    exact links
  · simp only [Option.bind_eq_bind, Option.bind_eq_some, Option.pure_def,
      Option.some.injEq] at deleted
    obtain ⟨⟨id, leaf⟩, located, removed⟩ := deleted
    have leafy : tree.isLeafAt id = true := by
      simp [isLeafAt, locate_present located, Node.isLeaf]
    unfold leafRemove at removed
    dsimp only at removed
    split_ifs at removed
    · cases removed
      exact links
    · cases removed
      exact ((keepsLevelZero_setNode_leaf leafy _).withEntries _).linksLeaves links

theorem linksLeaves_bplusTreeLoInit {order : Nat} {tree : BplusTreeLo}
    (init : bplusTreeLoInit order = some tree) : tree.LinksLeaves := by
  unfold bplusTreeLoInit at init
  split_ifs at init
  cases init
  refine ⟨Option.some_ne_none _, List.nodup_cons.mpr ⟨List.not_mem_nil 0, List.nodup_nil⟩,
    fun id => ?_⟩
  cases id <;> simp [levelZero, isLeafAt, node?, Node.isLeaf]

theorem BplusTreeLo.Reachable.linksLeaves {tree : BplusTreeLo} (reachable : tree.Reachable) :
    tree.LinksLeaves := by
  induction reachable with
  | init order init => exact linksLeaves_bplusTreeLoInit init
  | put key p _ put links => exact linksLeaves_bplusTreeLoPut links put
  | delete key _ deleted links => exact linksLeaves_bplusTreeLoDelete links deleted

theorem flatMap_filter_of_nil {α β : Type} {p : α → Bool} {f : α → List β}
    (empty : ∀ x, p x = false → f x = []) :
    ∀ l : List α, (l.filter p).flatMap f = l.flatMap f
  | [] => rfl
  | x :: rest => by
      by_cases kept : p x = true
      · simp [List.filter_cons, kept, flatMap_filter_of_nil empty rest]
      · simp [List.filter_cons, kept, empty x (Bool.eq_false_iff.mpr kept),
          flatMap_filter_of_nil empty rest]

theorem flatMap_range_getElem? {α β : Type} (f : α → List β) :
    ∀ l : List α, (List.range l.length).flatMap (fun i => (l[i]?.map f).getD []) = l.flatMap f
  | [] => rfl
  | x :: rest => by
      rw [List.length_cons, List.range_succ_eq_map, List.flatMap_cons, List.flatMap_map]
      simp [flatMap_range_getElem? f rest]

theorem BplusTreeLo.LinksLeaves.levelZeroEntries_perm {tree : BplusTreeLo}
    (links : tree.LinksLeaves) :
    tree.levelZeroEntries.Perm (tree.heap.flatMap Node.leafEntries) := by
  have ids : tree.levelZero.Perm ((List.range tree.heap.length).filter tree.isLeafAt) :=
    (List.perm_ext_iff_of_nodup links.distinct ((List.nodup_range _).filter _)).mpr fun id => by
      rw [links.linked, List.mem_filter, List.mem_range]
      exact ⟨fun leafy => ⟨lt_of_isLeafAt leafy, leafy⟩, And.right⟩
  calc tree.levelZeroEntries.Perm
        (((List.range tree.heap.length).filter tree.isLeafAt).flatMap tree.entriesAt) :=
        ids.flatMap_right _
    _ = (List.range tree.heap.length).flatMap tree.entriesAt :=
        flatMap_filter_of_nil (fun _ inner => entriesAt_of_not_isLeafAt inner) _
    _ = tree.heap.flatMap Node.leafEntries := flatMap_range_getElem? _ _

/-- On every tree that `bplus_tree_lo_init` and then puts and deletes reach, the entries of
the leaves linked on level 0 are those of every leaf of the heap, each once, and
`bplus_tree_lo_get_range` returns the first `max_count` of them with a key in
`[key1, key2]`, in link order, with their count. -/
theorem bplusTreeLoGetRange_reports_every_leaf {tree : BplusTreeLo} (reachable : tree.Reachable)
    (key1 key2 maxCount : Int) :
    tree.levelZeroEntries.Perm (tree.heap.flatMap Node.leafEntries) ∧
      bplusTreeLoGetRange tree key1 key2 maxCount =
        some (((tree.levelZeroRange key1 key2 maxCount.toNat).length : Int),
          tree.levelZeroRange key1 key2 maxCount.toNat) :=
  ⟨reachable.linksLeaves.levelZeroEntries_perm,
    bplusTreeLoGetRange_eq reachable.linksLeaves.leavesOnly key1 key2 maxCount⟩

theorem BplusTreeLo.Reachable.putAll {p : ObjectPointer} :
    ∀ {keys : List Int} {tree tree' : BplusTreeLo} {statuses : List Int}, tree.Reachable →
      putAll p tree keys = some (statuses, tree') → tree'.Reachable
  | [], _, _, _, reachable, done => by
      cases done
      exact reachable
  | key :: rest, tree, tree', statuses, reachable, done => by
      simp only [ZipCache.LoTier.putAll, Option.bind_eq_some, Option.map_eq_some'] at done
      obtain ⟨⟨status, middle⟩, put, ⟨more, last⟩, rest, finished⟩ := done
      cases finished
      exact Reachable.putAll (.put key p reachable put) rest

theorem bplusTreeLoGetRange_reports_every_leaf_after_left_split :
    orphanTree.Reachable ∧ bplusTreeLoGet orphanTree 0 = some invalidObjectPointer ∧
      bplusTreeLoGetRange orphanTree 0 0 1 = some (1, [(0, samplePointer)]) := by
  have run := putAll_leftSplitKeys
  rw [bplusTreeLoInit_eq_oneLeafTree (by decide) (by decide), Option.some_bind] at run
  have reachable : orphanTree.Reachable :=
    BplusTreeLo.Reachable.putAll (.init 16 (bplusTreeLoInit_eq_oneLeafTree (by decide)
      (by decide))) run
  exact ⟨reachable, rfl, (bplusTreeLoGetRange_reports_every_leaf reachable 0 0 1).2.trans rfl⟩

end ZipCache.LoTier
