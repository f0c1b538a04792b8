import ZipCache.LoTier.Sorted

/-!
# Every lookup in the large-object tree ends

`leaf_locate` walks down `sub_ptr` with the size of the heap as fuel. The walk ends at a leaf
when the nodes can be given heights under which every child sits lower than its node and every
parent higher (`BplusTreeLo.Layered`). A leaf split gives its new leaf the old one's height, a
node split gives its new sibling the old node's, and a new root sits one above the two nodes
`parent_node_build` joins, which always share a height. So every tree that puts and deletes
reach from `bplus_tree_lo_init` is layered, and on it `bplus_tree_lo_get` and
`bplus_tree_lo_delete` always answer.
-/

namespace ZipCache.LoTier

/-- A node that can stand at `id` of a heap of `size` nodes under `height`: its parent is in the
heap and higher, and an internal node has children, all in the heap and lower. -/
def Node.Fits (size : Nat) (height : NodeId → Nat) (id : Nat) (node : Node) : Prop :=
  (∀ p : Nat, node.parent = some p → p < size ∧ height id < height p) ∧
    ∀ record, node = .nonLeaf record → record.subPtr ≠ [] ∧
      ∀ child : Nat, child ∈ record.subPtr → child < size ∧ height child < height id

namespace Node

variable {size : Nat} {height : NodeId → Nat} {id : Nat}

theorem fits_leaf {record : Leaf} :
    (Node.leaf record).Fits size height id ↔
      ∀ p : Nat, record.parent = some p → p < size ∧ height id < height p := by
  simp [Fits, parent]

theorem Fits.withEntries {record : Leaf} (fits : (Node.leaf record).Fits size height id)
    (entries : List (Int × ObjectPointer)) :
    (Node.leaf { record with entries }).Fits size height id := by
  rw [fits_leaf] at fits ⊢
  exact fits

theorem Fits.withParent {node : Node} {newParent : Option NodeId} (fits : node.Fits size height id)
    (above : ∀ p : Nat, newParent = some p → p < size ∧ height id < height p) :
    (node.withParent newParent).Fits size height id := by
  cases node with
  | leaf record => exact ⟨above, fun _ same => by cases same⟩
  | nonLeaf record => exact ⟨above, fun _ same => by cases same; exact fits.2 record rfl⟩

theorem Fits.nonLeaf_of_drawn {target : Nat} {record record' : NonLeaf}
    (fits : (Node.nonLeaf record).Fits size height id)
    (above : ∀ p : Nat, record'.parent = some p → p < size ∧ height target < height p)
    (nonEmpty : record'.subPtr ≠ [])
    (drawn : ∀ child : Nat, child ∈ record'.subPtr →
      child ∈ record.subPtr ∨ child < size ∧ height child < height id)
    (lower : height id ≤ height target) : (Node.nonLeaf record').Fits size height target := by
  refine ⟨above, fun _ same => ?_⟩
  cases same
  refine ⟨nonEmpty, fun child member => ?_⟩
  rcases drawn child member with old | new
  · have := (fits.2 record rfl).2 child old
    exact ⟨this.1, by omega⟩
  · exact ⟨new.1, by omega⟩

theorem Fits.grow {size' : Nat} {height' : NodeId → Nat} {node : Node}
    (fits : node.Fits size height id) (inside : id < size) (larger : size ≤ size')
    (agree : ∀ i < size, height' i = height i) : node.Fits size' height' id := by
  refine ⟨fun p above => ?_, fun record same => ?_⟩
  · obtain ⟨inHeap, higher⟩ := fits.1 p above
    rw [agree id inside, agree p inHeap]
    exact ⟨by omega, higher⟩
  · obtain ⟨nonEmpty, lower⟩ := fits.2 record same
    refine ⟨nonEmpty, fun child member => ?_⟩
    obtain ⟨inHeap, below⟩ := lower child member
    rw [agree id inside, agree child inHeap]
    exact ⟨by omega, below⟩

end Node

theorem insertAt_ne_nil {α : Type} (xs : List α) (i : Nat) (x : α) : insertAt xs i x ≠ [] := by
  simp [insertAt]

theorem mem_insertAt_self {α : Type} (xs : List α) (i : Nat) (x : α) : x ∈ insertAt xs i x := by
  simp [insertAt]

theorem getD_mem {xs : List NodeId} {i : Nat} (fallback : NodeId) (inside : i < xs.length) :
    xs.getD i fallback ∈ xs := by
  rw [List.getD_eq_getElem?_getD, List.getElem?_eq_getElem inside]
  exact List.getElem_mem inside

theorem drawn_insertAt {xs ys : List NodeId} {i new : Nat} {fresh : Nat → Prop}
    (kept : ∀ child : Nat, child ∈ xs → child ∈ ys) (placed : fresh new) :
    ∀ child : Nat, child ∈ insertAt xs i new → child ∈ ys ∨ fresh child := by
  intro child member
  rcases mem_insertAt member with old | rfl
  · exact .inl (kept child old)
  · exact .inr placed

theorem descend_mem {subPtr : List NodeId} (keys : List Int) (key : Int) (nonEmpty : subPtr ≠ []) :
    (if 0 ≤ keyBinarySearch keys (subPtr.length - 1 : Nat) key then
        subPtr.getD (keyBinarySearch keys (subPtr.length - 1 : Nat) key + 1).toNat 0
      else subPtr.getD (-keyBinarySearch keys (subPtr.length - 1 : Nat) key - 1).toNat 0) ∈
      subPtr := by
  have sized : 0 < subPtr.length := List.length_pos.mpr nonEmpty
  split
  · next found =>
    have := (keyBinarySearch_found (by omega) found).1
    exact getD_mem 0 (by omega)
  · next missed =>
    have := @keyBinarySearch_miss_le keys (subPtr.length - 1 : Nat) key (by omega) (by omega)
    exact getD_mem 0 (by omega)

namespace BplusTreeLo

theorem lt_of_node? {tree : BplusTreeLo} {id : Nat} {node : Node}
    (present : tree.node? id = some node) : id < tree.heap.length :=
  (List.getElem?_eq_some_iff.mp present).1

theorem node?_alloc (tree : BplusTreeLo) (node : Node) (other : Nat) :
    (tree.alloc node).1.node? other =
      if other = tree.heap.length then some node else tree.node? other := by
  unfold node? alloc
  split_ifs with here
  · subst here
    simp
  · rcases Nat.lt_or_gt_of_ne here with inside | outside
    · rw [List.getElem?_append_left inside]
    · have past : (tree.heap ++ [node]).length ≤ other := by simp; omega
      rw [List.getElem?_eq_none past, List.getElem?_eq_none (Nat.le_of_lt outside)]

@[simp]
theorem heap_length_setNode (tree : BplusTreeLo) (id : Nat) (node : Node) :
    (tree.setNode id node).heap.length = tree.heap.length :=
  List.length_set ..

@[simp]
theorem heap_length_alloc (tree : BplusTreeLo) (node : Node) :
    (tree.alloc node).1.heap.length = tree.heap.length + 1 :=
  List.length_append ..

@[simp]
theorem alloc_snd (tree : BplusTreeLo) (node : Node) : (tree.alloc node).2 = tree.heap.length :=
  rfl

theorem alloc_setNode (tree : BplusTreeLo) (placeholder node : Node) :
    (tree.alloc placeholder).1.setNode tree.heap.length node = (tree.alloc node).1 := by
  simp [alloc, setNode]

/-- Heights under which every walk down the tree ends: the root and the children and parent
fields name nodes of the heap, children sit lower than their node and parents higher, and no
height reaches the heap's size. A node splits with at least `BPLUS_MIN_ORDER` children, so both
halves keep one. -/
structure Layered (tree : BplusTreeLo) (height : NodeId → Nat) : Prop where
  ordered : bplusMinOrder ≤ tree.order
  rooted : ∀ root : Nat, tree.root = some root → root < tree.heap.length
  bounded : ∀ id < tree.heap.length, height id < tree.heap.length
  fits : ∀ (id : Nat) node, tree.node? id = some node → node.Fits tree.heap.length height id

variable {tree tree' : BplusTreeLo} {height : NodeId → Nat}

theorem Layered.reroot (layered : tree.Layered height) (heap : tree'.heap = tree.heap)
    (order : tree'.order = tree.order)
    (rooted : ∀ root : Nat, tree'.root = some root → root < tree.heap.length) :
    tree'.Layered height := by
  refine ⟨order ▸ layered.ordered, heap ▸ rooted, heap ▸ layered.bounded,
    fun id node present => heap ▸ layered.fits id node ?_⟩
  rwa [node?, ← heap]

theorem Layered.congr (layered : tree.Layered height) (heap : tree'.heap = tree.heap)
    (order : tree'.order = tree.order) (root : tree'.root = tree.root) : tree'.Layered height :=
  layered.reroot heap order fun r same => layered.rooted r (root ▸ same)

theorem Layered.setNode {id : Nat} {node : Node} (layered : tree.Layered height)
    (fits : node.Fits tree.heap.length height id) : (tree.setNode id node).Layered height := by
  have size := heap_length_setNode tree id node
  refine ⟨layered.ordered, fun r same => size ▸ layered.rooted r same, size ▸ layered.bounded,
    fun other node' present => size ▸ ?_⟩
  by_cases here : id = other
  · subst here
    rw [node?_setNode_self node (size ▸ lt_of_node? present)] at present
    cases present
    exact fits
  · rw [node?_setNode_of_ne node here] at present
    exact layered.fits other node' present

theorem Layered.setParent {id : Nat} {parent : Option NodeId} (layered : tree.Layered height)
    (above : ∀ p : Nat, parent = some p → p < tree.heap.length ∧ height id < height p)
    (reparented : tree.setParent id parent = some tree') :
    tree'.Layered height ∧ tree'.heap.length = tree.heap.length := by
  simp only [BplusTreeLo.setParent, Option.bind_eq_bind, Option.bind_eq_some, Option.pure_def,
    Option.some.injEq] at reparented
  obtain ⟨node, present, rfl⟩ := reparented
  exact ⟨layered.setNode ((layered.fits id node present).withParent above), by simp⟩

theorem update_agree (height : NodeId → Nat) (size level : Nat) :
    ∀ i < size, Function.update height size level i = height i :=
  fun _ inside => Function.update_noteq (Nat.ne_of_lt inside) _ _

theorem Layered.alloc {node : Node} {level : Nat} (layered : tree.Layered height)
    (below : level ≤ tree.heap.length)
    (fits : node.Fits (tree.heap.length + 1) (Function.update height tree.heap.length level)
      tree.heap.length) :
    (tree.alloc node).1.Layered (Function.update height tree.heap.length level) := by
  have size := heap_length_alloc tree node
  have agree := update_agree height tree.heap.length level
  refine ⟨layered.ordered, fun r same => ?_, fun id inside => ?_, fun other node' present => ?_⟩
  · have := layered.rooted r same
    rw [size]
    omega
  · rw [size] at inside ⊢
    by_cases here : id = tree.heap.length
    · subst here
      rw [Function.update_same]
      omega
    · rw [Function.update_noteq here]
      have := layered.bounded id (by omega)
      omega
  · rw [size]
    rw [node?_alloc] at present
    split_ifs at present with here
    · cases present
      exact here ▸ fits
    · have inside := lt_of_node? present
      exact (layered.fits other node' present).grow inside (by omega) agree

end BplusTreeLo

open BplusTreeLo

variable {tree tree' : BplusTreeLo} {height : NodeId → Nat}

theorem layered_setParents {parent : Nat} (children : List NodeId) :
    ∀ {tree tree' : BplusTreeLo}, tree.Layered height → parent < tree.heap.length →
      (∀ child ∈ children, height child < height parent) →
      setParents parent tree children = some tree' →
      tree'.Layered height ∧ tree'.heap.length = tree.heap.length := by
  induction children with
  | nil =>
      intro tree tree' layered _ _ done
      cases done
      exact ⟨layered, rfl⟩
  | cons child rest inductionHypothesis =>
      intro tree tree' layered inHeap lower done
      simp only [ZipCache.LoTier.setParents, Option.bind_eq_bind, Option.bind_eq_some] at done
      obtain ⟨middle, reparented, rest⟩ := done
      obtain ⟨layered', size⟩ := layered.setParent
        (fun p same => by cases same; exact ⟨inHeap, lower child (List.mem_cons_self _ _)⟩)
        reparented
      obtain ⟨layered'', size'⟩ := inductionHypothesis layered' (size ▸ inHeap)
        (fun other member => lower other (List.mem_cons_of_mem _ member)) rest
      exact ⟨layered'', size'.trans size⟩

theorem layered_nonLeafSimpleInsert {id lCh rCh : Nat} {node : NonLeaf} {separator : Int}
    {insert : Nat} (layered : tree.Layered height)
    (fits : (Node.nonLeaf ⟨node.parent, insertAt node.key insert separator,
      insertAt node.subPtr (insert + 1) rCh⟩).Fits tree.heap.length height id)
    (inHeap : id < tree.heap.length) (left : height lCh < height id)
    (inserted : nonLeafSimpleInsert tree id node lCh rCh separator insert = some tree') :
    tree'.Layered height ∧ tree'.heap.length = tree.heap.length := by
  simp only [ZipCache.LoTier.nonLeafSimpleInsert, Option.bind_eq_bind, Option.bind_eq_some]
    at inserted
  obtain ⟨middle, rightSet, leftSet⟩ := inserted
  have right := (fits.2 _ rfl).2 rCh (mem_insertAt_self _ _ _)
  obtain ⟨layered', size⟩ := (layered.setNode fits).setParent
    (fun p same => by cases same; exact ⟨by simp [inHeap], right.2⟩) rightSet
  obtain ⟨layered'', size'⟩ := layered'.setParent
    (fun p same => by cases same; exact ⟨by simp [size, inHeap], left⟩) leftSet
  exact ⟨layered'', by simp [size', size]⟩

theorem BplusTreeLo.Layered.linkHead {level new : Nat} (layered : tree.Layered height)
    (linked : tree.linkHead level new = some tree') :
    tree'.Layered height ∧ tree'.heap.length = tree.heap.length := by
  unfold BplusTreeLo.linkHead at linked
  split at linked
  · cases linked
    exact ⟨layered.congr rfl rfl rfl, rfl⟩
  · cases linked

theorem layered_sibling {id rCh : Nat} {record sib : NonLeaf} (layered : tree.Layered height)
    (present : tree.node? id = some (.nonLeaf record))
    (right : rCh < tree.heap.length ∧ height rCh < height id)
    (orphan : sib.parent = none) (nonEmpty : sib.subPtr ≠ [])
    (drawn : ∀ child : Nat, child ∈ sib.subPtr → child ∈ record.subPtr ∨ child = rCh)
    (parented : setParents tree.heap.length
      ((tree.alloc (.nonLeaf ⟨none, [], []⟩)).1.setNode tree.heap.length (.nonLeaf sib))
      sib.subPtr = some tree') :
    tree'.Layered (Function.update height tree.heap.length (height id)) ∧
      tree'.heap.length = tree.heap.length + 1 := by
  have inHeap := lt_of_node? present
  have agree := update_agree height tree.heap.length (height id)
  have grown := (layered.fits id _ present).grow inHeap (Nat.le_succ _) agree
  have placed : (Node.nonLeaf sib).Fits (tree.heap.length + 1)
      (Function.update height tree.heap.length (height id)) tree.heap.length := by
    refine grown.nonLeaf_of_drawn (fun p above => ?_) nonEmpty (fun child member => ?_) ?_
    · rw [orphan] at above
      cases above
    · rcases drawn child member with old | rfl
      · exact .inl old
      · rw [agree _ right.1, agree id inHeap]
        exact .inr ⟨by omega, right.2⟩
    · rw [agree id inHeap, Function.update_same]
  rw [alloc_setNode] at parented
  obtain ⟨layered', size⟩ := layered_setParents sib.subPtr
    (layered.alloc (Nat.le_of_lt (layered.bounded id inHeap)) placed) (by simp)
    (fun child member => ((placed.2 sib rfl).2 child member).2) parented
  exact ⟨layered', by simpa using size⟩

/-- What `parent_node_build` needs of a climbing step: a layered tree and, after a split, two
halves at one height. -/
def ClimbStep.Layered : ClimbStep → (NodeId → Nat) → Prop
  | .done tree, height => tree.Layered height
  | .split tree left right _, height => tree.Layered height ∧ height left = height right

theorem layered_nonLeafInsertStep {id lCh rCh : Nat} {separator : Int} {step : ClimbStep}
    (layered : tree.Layered height) (inHeap : lCh < tree.heap.length ∧ rCh < tree.heap.length)
    (lower : height lCh < height id ∧ height rCh < height id)
    (climbed : nonLeafInsertStep tree id lCh rCh separator = some step) :
    ∃ height', step.Layered height' := by
  unfold nonLeafInsertStep at climbed
  cases present : tree.node? id with
  | none => simp only [present, Option.bind_eq_bind, Option.none_bind, reduceCtorEq] at climbed
  | some node =>
      cases node with
      | leaf record =>
          simp only [present, Option.bind_eq_bind, Option.some_bind, reduceCtorEq] at climbed
      | nonLeaf record =>
          have fits := layered.fits id _ present
          have here := lt_of_node? present
          have nonEmpty := (fits.2 record rfl).1
          have agree := update_agree height tree.heap.length (height id)
          have grown := fits.grow here (Nat.le_succ _) agree
          have heights : Function.update height tree.heap.length (height id) id =
              Function.update height tree.heap.length (height id) tree.heap.length := by
            rw [agree id here, Function.update_same]
          have rightBelow : rCh < tree.heap.length + 1 ∧
              Function.update height tree.heap.length (height id) rCh <
                Function.update height tree.heap.length (height id) id := by
            rw [agree _ inHeap.2, agree id here]
            exact ⟨by omega, lower.2⟩
          have order := layered.ordered
          unfold bplusMinOrder at order
          simp only [present, Option.bind_eq_bind, Option.some_bind] at climbed
          by_cases found :
            0 ≤ keyBinarySearch record.key (record.subPtr.length - 1 : Nat) separator
          · simp only [found, if_true, Option.none_bind, reduceCtorEq] at climbed
          · simp only [found, if_false, Option.pure_def, Option.some_bind] at climbed
            split_ifs at climbed with full toLeft toSibling
            all_goals simp only [Option.bind_eq_some, Option.some.injEq] at climbed
            · -- a full node split, the new separator going to the old node
              obtain ⟨middle, parented, inner, inserted, rfl⟩ := climbed
              simp only [alloc_snd] at parented ⊢
              obtain ⟨layered', size⟩ := layered_sibling layered present ⟨inHeap.2, lower.2⟩ rfl
                (List.ne_nil_of_length_pos (by rw [List.length_drop]; omega))
                (fun child member => .inl (List.mem_of_mem_drop member)) parented
              obtain ⟨layered'', -⟩ := layered_nonLeafSimpleInsert layered'
                (by
                  rw [size]
                  exact grown.nonLeaf_of_drawn grown.1 (insertAt_ne_nil _ _ _)
                    (drawn_insertAt (fun _ => List.mem_of_mem_take) rightBelow) le_rfl)
                (by omega) (by rw [agree _ inHeap.1, agree id here]; exact lower.1) inserted
              exact ⟨_, layered''.congr rfl rfl rfl, heights⟩
            · -- a full node split, the new separator going to the sibling
              obtain ⟨middle, parented, rfl⟩ := climbed
              simp only [alloc_snd] at parented ⊢
              obtain ⟨layered', size⟩ := layered_sibling layered present ⟨inHeap.2, lower.2⟩ rfl
                (insertAt_ne_nil _ _ _)
                (@drawn_insertAt _ _ _ _ (· = rCh) (fun _ => List.mem_of_mem_drop) rfl) parented
              refine ⟨_, (layered'.setNode ?_).congr rfl rfl rfl, heights⟩
              rw [size]
              exact grown.nonLeaf_of_drawn grown.1
                (List.ne_nil_of_length_pos (by rw [List.length_take]; omega))
                (fun child member => .inl (List.mem_of_mem_take member)) le_rfl
            · -- a full node split, the new separator going up
              obtain ⟨middle, parented, rfl⟩ := climbed
              simp only [alloc_snd] at parented ⊢
              obtain ⟨layered', size⟩ := layered_sibling layered present ⟨inHeap.2, lower.2⟩ rfl
                (List.ne_nil_of_length_pos (by rw [List.length_drop]; omega))
                (fun child member => .inl (List.mem_of_mem_drop member)) parented
              refine ⟨_, (layered'.setNode ?_).congr rfl rfl rfl, heights⟩
              rw [size]
              exact grown.nonLeaf_of_drawn grown.1
                (List.ne_nil_of_length_pos (by rw [List.length_take]; omega))
                (fun child member => .inl (List.mem_of_mem_take member)) le_rfl
            · -- room in the node
              obtain ⟨inner, inserted, rfl⟩ := climbed
              exact ⟨height, (layered_nonLeafSimpleInsert layered
                (fits.nonLeaf_of_drawn fits.1 (insertAt_ne_nil _ _ _)
                  (drawn_insertAt (fun _ member => member) ⟨inHeap.2, lower.2⟩) le_rfl)
                here lower.1 inserted).1⟩

theorem layered_parentNodeBuild (fuel : Nat) :
    ∀ {tree tree' : BplusTreeLo} {height : NodeId → Nat} {left right : Nat} {separator : Int},
      tree.Layered height → height left = height right →
      parentNodeBuild fuel tree left right separator = some tree' →
        ∃ height', tree'.Layered height' := by
  induction fuel with
  | zero => intro tree tree' height left right separator _ _ built; cases built
  | succ fuel inductionHypothesis =>
      intro tree tree' height left right separator layered level built
      simp only [parentNodeBuild, Option.bind_eq_bind, Option.bind_eq_some] at built
      obtain ⟨leftNode, leftPresent, rightNode, rightPresent, built⟩ := built
      have leftIn := lt_of_node? leftPresent
      have rightIn := lt_of_node? rightPresent
      split at built
      · -- neither has a parent: a new root one above both
        simp only [Option.bind_eq_some, Option.pure_def, Option.some.injEq, alloc_snd] at built
        obtain ⟨withLeft, leftSet, withRight, rightSet, linkedTree, linked, rfl⟩ := built
        have agree := update_agree height tree.heap.length (height left + 1)
        have placed : (Node.nonLeaf ⟨none, [separator], [left, right]⟩).Fits
            (tree.heap.length + 1) (Function.update height tree.heap.length (height left + 1))
            tree.heap.length := by
          refine ⟨fun p same => (by cases same), fun record same => ?_⟩
          cases same
          refine ⟨List.cons_ne_nil _ _, fun child member => ?_⟩
          rw [Function.update_same]
          rcases List.mem_pair.mp member with rfl | rfl
          · rw [agree _ leftIn]
            exact ⟨by omega, by omega⟩
          · rw [agree _ rightIn]
            exact ⟨by omega, by omega⟩
        have below := layered.bounded left leftIn
        obtain ⟨withLeftLayered, leftSize⟩ := (layered.alloc below placed).setParent
          (fun p same => by cases same; simp [agree _ leftIn]) leftSet
        obtain ⟨withRightLayered, rightSize⟩ := withLeftLayered.setParent
          (fun p same => by
            cases same
            rw [agree _ rightIn, Function.update_same, ← level]
            exact ⟨by simp [leftSize], by omega⟩) rightSet
        obtain ⟨linkedLayered, linkedSize⟩ := withRightLayered.linkHead linked
        refine ⟨_, linkedLayered.reroot rfl rfl fun r same => ?_⟩
        cases same
        simp [linkedSize, rightSize, leftSize]
      · -- the left node has a parent: the right one joins it there
        rename_i parent hasParent _
        obtain ⟨parentIn, higher⟩ := (layered.fits left _ leftPresent).1 parent hasParent
        simp only [Option.bind_eq_some] at built
        obtain ⟨middle, reparented, step, climbed, finished⟩ := built
        obtain ⟨layered', size⟩ := layered.setParent
          (fun p same => by cases same; exact ⟨parentIn, by omega⟩) reparented
        obtain ⟨height', stepLayered⟩ := layered_nonLeafInsertStep layered'
          ⟨by omega, by omega⟩ ⟨higher, by omega⟩ climbed
        cases step with
        | done inner =>
            cases finished
            exact ⟨height', stepLayered⟩
        | split inner left right key =>
            exact inductionHypothesis stepLayered.1 stepLayered.2 finished
      · -- the right node has a parent: the left one joins it there
        rename_i parent hasParent
        obtain ⟨parentIn, higher⟩ := (layered.fits right _ rightPresent).1 parent hasParent
        simp only [Option.bind_eq_some] at built
        obtain ⟨middle, reparented, step, climbed, finished⟩ := built
        obtain ⟨layered', size⟩ := layered.setParent
          (fun p same => by cases same; exact ⟨parentIn, by omega⟩) reparented
        obtain ⟨height', stepLayered⟩ := layered_nonLeafInsertStep layered'
          ⟨by omega, by omega⟩ ⟨by omega, higher⟩ climbed
        cases step with
        | done inner =>
            cases finished
            exact ⟨height', stepLayered⟩
        | split inner left right key =>
            exact inductionHypothesis stepLayered.1 stepLayered.2 finished

theorem layered_leafInsert {id : Nat} {leaf : Leaf} {key : Int} {p : ObjectPointer}
    (layered : tree.Layered height) (present : tree.node? id = some (.leaf leaf))
    (inserted : leafInsert tree id leaf key p = some tree') : ∃ height', tree'.Layered height' := by
  have inHeap := lt_of_node? present
  have parented := Node.fits_leaf.mp (layered.fits id _ present)
  unfold leafInsert at inserted
  by_cases found : 0 ≤ keyBinarySearch leaf.keys leaf.entries.length key
  · -- the key is there: its entry is overwritten in place
    rw [if_pos found] at inserted
    cases inserted
    exact ⟨height, layered.setNode ((layered.fits id _ present).withEntries _)⟩
  rw [if_neg found] at inserted
  by_cases full : leaf.entries.length = bplusMaxEntries
  · -- a full leaf: a new leaf beside it at its height, then `parent_node_build`
    simp only [full, if_true, alloc_snd] at inserted
    have agree := update_agree height tree.heap.length (height id)
    have allocated := layered.alloc (Nat.le_of_lt (layered.bounded id inHeap))
      (Node.fits_leaf.mpr (fun _ same => by cases same) : (Node.leaf ⟨none, []⟩).Fits _ _ _)
    have fresh : ∀ entries, (Node.leaf ⟨none, entries⟩).Fits (tree.heap.length + 1)
        (Function.update height tree.heap.length (height id)) tree.heap.length :=
      fun _ => Node.fits_leaf.mpr fun _ same => by cases same
    have moved : ∀ entries, (Node.leaf ⟨leaf.parent, entries⟩).Fits (tree.heap.length + 1)
        (Function.update height tree.heap.length (height id)) id := by
      refine fun _ => Node.fits_leaf.mpr fun q same => ?_
      obtain ⟨parentIn, higher⟩ := parented q same
      rw [agree _ inHeap, agree _ parentIn]
      exact ⟨by omega, higher⟩
    have heights : Function.update height tree.heap.length (height id) tree.heap.length =
        Function.update height tree.heap.length (height id) id := by
      rw [agree id inHeap, Function.update_same]
    split at inserted
    · -- a split to the left: the new leaf takes the smaller keys
      refine layered_parentNodeBuild _ ?_ heights inserted
      refine ((allocated.setNode ?_).setNode ?_).congr rfl rfl rfl
      · simpa using fresh _
      · simpa using moved _
    · -- a split to the right: the new leaf takes the larger keys
      refine layered_parentNodeBuild _ ?_ heights.symm inserted
      refine ((allocated.setNode ?_).setNode ?_).congr rfl rfl rfl
      · simpa using moved _
      · simpa using fresh _
  · -- room in the leaf: the entry is inserted in place
    simp only [full, if_false, Option.some.injEq] at inserted
    subst inserted
    exact ⟨height, (layered.setNode ((layered.fits id _ present).withEntries _)).congr rfl rfl rfl⟩

theorem layered_bplusTreeLoPut {key : Int} {p : ObjectPointer} {status : Int}
    (layered : tree.Layered height) (put : bplusTreeLoPut tree key p = some (status, tree')) :
    ∃ height', tree'.Layered height' := by
  unfold bplusTreeLoPut at put
  split_ifs at put
  · cases put
    exact ⟨height, layered⟩
  · split at put
    · simp only [Option.bind_eq_bind, Option.bind_eq_some, Option.pure_def, Option.some.injEq,
        Prod.mk.injEq] at put
      obtain ⟨⟨id, leaf⟩, located, inner, inserted, -, rfl⟩ := put
      exact layered_leafInsert layered (locate_present located) inserted
    · -- no root yet: a first leaf
      simp only [Option.bind_eq_bind, Option.bind_eq_some, Option.pure_def, Option.some.injEq,
        Prod.mk.injEq, alloc_snd] at put
      obtain ⟨linkedTree, linked, -, rfl⟩ := put
      obtain ⟨linkedLayered, size⟩ := (layered.alloc (Nat.zero_le _)
        (Node.fits_leaf.mpr (fun _ same => by cases same) :
          (Node.leaf ⟨none, [(key, p)]⟩).Fits _ _ _)).linkHead linked
      refine ⟨_, linkedLayered.reroot rfl rfl fun r same => ?_⟩
      cases same
      simp [size]

theorem layered_bplusTreeLoDelete {key status : Int} (layered : tree.Layered height)
    (deleted : bplusTreeLoDelete tree key = some (status, tree')) : tree'.Layered height := by
  unfold bplusTreeLoDelete at deleted
  split at deleted
  · cases deleted
    exact layered
  · simp only [Option.bind_eq_bind, Option.bind_eq_some, Option.pure_def,
      Option.some.injEq] at deleted
    obtain ⟨⟨id, leaf⟩, located, removed⟩ := deleted
    have present := locate_present located
    unfold leafRemove at removed
    dsimp only at removed
    split_ifs at removed
    · cases removed
      exact layered
    · cases removed
      refine (layered.setNode ?_).congr rfl rfl rfl
      exact (layered.fits id _ present).withEntries _

theorem layered_bplusTreeLoInit {order : Nat} (init : bplusTreeLoInit order = some tree) :
    tree.Layered fun _ => 0 := by
  unfold bplusTreeLoInit at init
  split_ifs at init with outside
  cases init
  refine ⟨?_, fun r same => ?_, fun _ _ => Nat.one_pos, fun id node present => ?_⟩
  · show bplusMinOrder ≤ order
    simp only [bplusMinOrder, bplusMaxOrder] at outside ⊢
    omega
  · cases same
    exact Nat.one_pos
  · have single : id < 1 := lt_of_node? present
    obtain rfl : id = 0 := by omega
    cases present
    exact Node.fits_leaf.mpr fun _ same => by cases same

theorem BplusTreeLo.Reachable.layered (reachable : tree.Reachable) :
    ∃ height, tree.Layered height := by
  induction reachable with
  | init order init => exact ⟨_, layered_bplusTreeLoInit init⟩
  | put key p _ put layered =>
      obtain ⟨height, layered⟩ := layered
      exact layered_bplusTreeLoPut layered put
  | delete key _ deleted layered =>
      obtain ⟨height, layered⟩ := layered
      exact ⟨height, layered_bplusTreeLoDelete layered deleted⟩

theorem BplusTreeLo.Layered.leafLocate_isSome (layered : tree.Layered height) (key : Int) :
    ∀ (fuel id : Nat), id < tree.heap.length → height id < fuel →
      (leafLocate tree key fuel id).isSome := by
  intro fuel
  induction fuel with
  | zero => intro id _ low; omega
  | succ fuel inductionHypothesis =>
      intro id inHeap low
      obtain ⟨node, present⟩ : ∃ node, tree.node? id = some node :=
        ⟨_, List.getElem?_eq_getElem inHeap⟩
      cases node with
      | leaf record => simp [leafLocate, present]
      | nonLeaf record =>
          obtain ⟨nonEmpty, children⟩ := (layered.fits id _ present).2 record rfl
          obtain ⟨inHeap', lower⟩ := children _ (descend_mem record.key key nonEmpty)
          simp only [leafLocate, present]
          exact inductionHypothesis _ inHeap' (by omega)

theorem BplusTreeLo.Reachable.locate_isSome (reachable : tree.Reachable) {root : Nat}
    (rooted : tree.root = some root) (key : Int) : (tree.locate key).isSome := by
  obtain ⟨height, layered⟩ := reachable.layered
  have inHeap := layered.rooted root rooted
  simp only [BplusTreeLo.locate, rooted, Option.some_bind]
  exact layered.leafLocate_isSome key _ root inHeap (layered.bounded root inHeap)

theorem BplusTreeLo.Reachable.bplusTreeLoGet_isSome (reachable : tree.Reachable) (key : Int) :
    (bplusTreeLoGet tree key).isSome := by
  unfold bplusTreeLoGet
  split
  · rfl
  · next root rooted =>
    obtain ⟨found, located⟩ := Option.isSome_iff_exists.mp (reachable.locate_isSome rooted key)
    simp [located]

end ZipCache.LoTier
