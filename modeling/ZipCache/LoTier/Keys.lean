import ZipCache.LoTier.Tree

/-!
# The large-object tree invents no key

Every key a leaf of the heap holds, reachable from the root or not, came from a put of that
key. Climbing (`parent_node_build`, `non_leaf_insert`) rewrites internal nodes and parent
fields only; a leaf insert adds its own key; a split only moves a leaf's entries and the new
one; a delete only removes. So a lookup that answers with a valid pointer answers for a key
that some put stored.
-/

namespace ZipCache.LoTier

/-- The keys a node holds: a leaf's keys, none for an internal node. -/
def Node.leafKeys : Node → List Int
  | .leaf record => record.keys
  | .nonLeaf _ => []

@[simp]
theorem Node.leafKeys_withParent (parent : Option NodeId) (node : Node) :
    (node.withParent parent).leafKeys = node.leafKeys := by
  cases node <;> rfl

namespace BplusTreeLo

/-- Some leaf of the heap holds the key. -/
def Stores (tree : BplusTreeLo) (key : Int) : Prop :=
  ∃ node ∈ tree.heap, key ∈ node.leafKeys

theorem stores_of_node {tree : BplusTreeLo} {id : NodeId} {node : Node} {key : Int}
    (present : tree.node? id = some node) (held : key ∈ node.leafKeys) : tree.Stores key :=
  ⟨node, List.getElem?_mem present, held⟩

theorem stores_setNode {tree : BplusTreeLo} {id : NodeId} {node : Node} {key : Int}
    (stored : (tree.setNode id node).Stores key) : tree.Stores key ∨ key ∈ node.leafKeys := by
  obtain ⟨other, member, held⟩ := stored
  rcases List.mem_or_eq_of_mem_set member with old | rfl
  · exact .inl ⟨other, old, held⟩
  · exact .inr held

theorem stores_alloc {tree : BplusTreeLo} {node : Node} {key : Int}
    (stored : (tree.alloc node).1.Stores key) : tree.Stores key ∨ key ∈ node.leafKeys := by
  obtain ⟨other, member, held⟩ := stored
  rcases List.mem_append.mp member with old | fresh
  · exact .inl ⟨other, old, held⟩
  · rw [List.mem_singleton.mp fresh] at held
    exact .inr held

/-- Every node of `tree'` holds no key, or the keys of a node of `tree`: what a step leaves
that writes only internal nodes, parent fields and the level lists. -/
def KeepsLeaves (tree tree' : BplusTreeLo) : Prop :=
  ∀ node' ∈ tree'.heap, node'.leafKeys = [] ∨ ∃ node ∈ tree.heap, node.leafKeys = node'.leafKeys

theorem keepsLeaves_of_heap {tree tree' : BplusTreeLo} (same : tree'.heap = tree.heap) :
    KeepsLeaves tree tree' :=
  fun node member => .inr ⟨node, same ▸ member, rfl⟩

theorem KeepsLeaves.refl (tree : BplusTreeLo) : KeepsLeaves tree tree :=
  keepsLeaves_of_heap rfl

theorem KeepsLeaves.trans {tree middle tree' : BplusTreeLo} (first : KeepsLeaves tree middle)
    (second : KeepsLeaves middle tree') : KeepsLeaves tree tree' := by
  intro node' member
  rcases second node' member with empty | ⟨node, inMiddle, same⟩
  · exact .inl empty
  · exact (first node inMiddle).imp (fun empty => same ▸ empty)
      fun ⟨old, inOld, same'⟩ => ⟨old, inOld, same'.trans same⟩

theorem KeepsLeaves.stores {tree tree' : BplusTreeLo} {key : Int} (kept : KeepsLeaves tree tree')
    (stored : tree'.Stores key) : tree.Stores key := by
  obtain ⟨node', member, held⟩ := stored
  rcases kept node' member with empty | ⟨node, inOld, same⟩
  · simp [empty] at held
  · exact ⟨node, inOld, same ▸ held⟩

theorem keepsLeaves_setNode {tree : BplusTreeLo} {id : NodeId} {node : Node}
    (drawn : node.leafKeys = [] ∨ ∃ old ∈ tree.heap, old.leafKeys = node.leafKeys) :
    KeepsLeaves tree (tree.setNode id node) := by
  intro node' member
  rcases List.mem_or_eq_of_mem_set member with old | rfl
  · exact .inr ⟨node', old, rfl⟩
  · exact drawn

theorem keepsLeaves_setNode_nonLeaf (tree : BplusTreeLo) (id : NodeId) (node : NonLeaf) :
    KeepsLeaves tree (tree.setNode id (.nonLeaf node)) :=
  keepsLeaves_setNode (.inl rfl)

theorem keepsLeaves_alloc_nonLeaf (tree : BplusTreeLo) (node : NonLeaf) :
    KeepsLeaves tree (tree.alloc (.nonLeaf node)).1 := by
  intro node' member
  rcases List.mem_append.mp member with old | fresh
  · exact .inr ⟨node', old, rfl⟩
  · rw [List.mem_singleton.mp fresh]
    exact .inl rfl

theorem keepsLeaves_setParent {tree tree' : BplusTreeLo} {id : NodeId} {parent : Option NodeId}
    (reparented : tree.setParent id parent = some tree') : KeepsLeaves tree tree' := by
  simp only [setParent, Option.bind_eq_bind, Option.bind_eq_some, Option.pure_def,
    Option.some.injEq] at reparented
  obtain ⟨node, present, rfl⟩ := reparented
  exact keepsLeaves_setNode (.inr ⟨node, List.getElem?_mem present, by simp⟩)

theorem keepsLeaves_linkHead {tree tree' : BplusTreeLo} {level : Nat} {new : NodeId}
    (linked : tree.linkHead level new = some tree') : KeepsLeaves tree tree' := by
  unfold linkHead at linked
  split at linked
  · cases linked
    exact keepsLeaves_of_heap rfl
  · cases linked

end BplusTreeLo

open BplusTreeLo

theorem keepsLeaves_setParents (parent : NodeId) :
    ∀ (children : List NodeId) {tree tree' : BplusTreeLo},
      setParents parent tree children = some tree' → KeepsLeaves tree tree' := by
  intro children
  induction children with
  | nil =>
      intro tree tree' done
      cases done
      exact KeepsLeaves.refl tree
  | cons child rest inductionHypothesis =>
      intro tree tree' done
      simp only [setParents, Option.bind_eq_bind, Option.bind_eq_some] at done
      obtain ⟨middle, reparented, rest⟩ := done
      exact (keepsLeaves_setParent reparented).trans (inductionHypothesis rest)

theorem keepsLeaves_nonLeafSimpleInsert {tree tree' : BplusTreeLo} {id : NodeId} {node : NonLeaf}
    {lCh rCh : NodeId} {separator : Int} {insert : Nat}
    (inserted : nonLeafSimpleInsert tree id node lCh rCh separator insert = some tree') :
    KeepsLeaves tree tree' := by
  simp only [nonLeafSimpleInsert, Option.bind_eq_bind, Option.bind_eq_some] at inserted
  obtain ⟨middle, right, left⟩ := inserted
  exact ((keepsLeaves_setNode_nonLeaf _ _ _).trans (keepsLeaves_setParent right)).trans
    (keepsLeaves_setParent left)

/-- The tree a climbing step leaves. -/
def ClimbStep.tree : ClimbStep → BplusTreeLo
  | .done tree => tree
  | .split tree _ _ _ => tree

theorem keepsLeaves_nonLeafInsertStep {tree : BplusTreeLo} {id lCh rCh : NodeId}
    {separator : Int} {step : ClimbStep}
    (climbed : nonLeafInsertStep tree id lCh rCh separator = some step) :
    KeepsLeaves tree step.tree := by
  unfold nonLeafInsertStep at climbed
  cases present : tree.node? id with
  | none => simp only [present, Option.bind_eq_bind, Option.none_bind, reduceCtorEq] at climbed
  | some node =>
      cases node with
      | leaf record =>
          simp only [present, Option.bind_eq_bind, Option.some_bind, reduceCtorEq] at climbed
      | nonLeaf record =>
          simp only [present, Option.bind_eq_bind, Option.some_bind] at climbed
          by_cases found :
            0 ≤ keyBinarySearch record.key (record.subPtr.length - 1 : Nat) separator
          · simp only [found, if_true, Option.none_bind, reduceCtorEq] at climbed
          · simp only [found, if_false, Option.pure_def, Option.some_bind] at climbed
            have sibling : ∀ {parent slot : NodeId} {node : NonLeaf} {children : List NodeId}
                {tree' : BplusTreeLo}, setParents parent
                  ((tree.alloc (.nonLeaf ⟨none, [], []⟩)).1.setNode slot (.nonLeaf node))
                  children = some tree' → KeepsLeaves tree tree' :=
              fun parented => ((keepsLeaves_alloc_nonLeaf _ _).trans
                (keepsLeaves_setNode_nonLeaf _ _ _)).trans (keepsLeaves_setParents _ _ parented)
            split_ifs at climbed
            · -- a full node split, the new separator going to the old node
              simp only [Option.bind_eq_some, Option.some.injEq] at climbed
              obtain ⟨middle, parented, inner, inserted, rfl⟩ := climbed
              exact ((sibling parented).trans (keepsLeaves_nonLeafSimpleInsert inserted)).trans
                (keepsLeaves_of_heap rfl)
            iterate 2
              -- a full node split, the new separator going to the sibling or up
              simp only [Option.bind_eq_some, Option.some.injEq] at climbed
              obtain ⟨middle, parented, rfl⟩ := climbed
              exact ((sibling parented).trans (keepsLeaves_setNode_nonLeaf _ _ _)).trans
                (keepsLeaves_of_heap rfl)
            · -- room in the node
              simp only [Option.bind_eq_some, Option.some.injEq] at climbed
              obtain ⟨inner, inserted, rfl⟩ := climbed
              exact keepsLeaves_nonLeafSimpleInsert inserted

theorem keepsLeaves_parentNodeBuild (fuel : Nat) :
    ∀ {tree tree' : BplusTreeLo} {left right : NodeId} {separator : Int},
      parentNodeBuild fuel tree left right separator = some tree' → KeepsLeaves tree tree' := by
  induction fuel with
  | zero => intro tree tree' left right separator built; cases built
  | succ fuel inductionHypothesis =>
      intro tree tree' left right separator built
      simp only [parentNodeBuild, Option.bind_eq_bind, Option.bind_eq_some] at built
      obtain ⟨leftNode, -, rightNode, -, built⟩ := built
      split at built
      · simp only [Option.bind_eq_some, Option.pure_def, Option.some.injEq] at built
        obtain ⟨withLeft, leftSet, withRight, rightSet, linkedTree, linked, rfl⟩ := built
        exact ((((keepsLeaves_alloc_nonLeaf _ _).trans (keepsLeaves_setParent leftSet)).trans
          (keepsLeaves_setParent rightSet)).trans (keepsLeaves_linkHead linked)).trans
            (keepsLeaves_of_heap rfl)
      all_goals
        simp only [Option.bind_eq_some] at built
        obtain ⟨middle, reparented, step, climbed, finished⟩ := built
        refine (keepsLeaves_setParent reparented).trans
          ((keepsLeaves_nonLeafInsertStep climbed).trans ?_)
        cases step with
        | done inner =>
            cases finished
            exact KeepsLeaves.refl _
        | split inner left right above => exact inductionHypothesis finished

theorem mem_insertAt {α : Type} {xs : List α} {i : Nat} {x y : α}
    (member : x ∈ insertAt xs i y) : x ∈ xs ∨ x = y := by
  simp only [insertAt, List.mem_append, List.mem_cons] at member
  rcases member with front | rfl | back
  · exact .inl (List.mem_of_mem_take front)
  · exact .inr rfl
  · exact .inl (List.mem_of_mem_drop back)

theorem mem_leafKeys_of_entries {parent : Option NodeId}
    {entries entries' : List (Int × ObjectPointer)} {key k : Int} {p : ObjectPointer}
    (drawn : ∀ e ∈ entries', e ∈ entries ∨ e = (key, p))
    (held : k ∈ (Node.leaf ⟨parent, entries'⟩).leafKeys) :
    k ∈ entries.map Prod.fst ∨ k = key := by
  obtain ⟨e, member, rfl⟩ := List.mem_map.mp held
  rcases drawn e member with old | rfl
  · exact .inl (List.mem_map_of_mem _ old)
  · exact .inr rfl

theorem leafLocate_present {tree : BplusTreeLo} {key : Int} (fuel : Nat) :
    ∀ {start id : NodeId} {leaf : Leaf}, leafLocate tree key fuel start = some (id, leaf) →
      tree.node? id = some (.leaf leaf) := by
  induction fuel with
  | zero => intro start id leaf located; cases located
  | succ fuel inductionHypothesis =>
      intro start id leaf located
      simp only [leafLocate] at located
      split at located
      · next record present =>
        simp only [Option.some.injEq, Prod.mk.injEq] at located
        obtain ⟨rfl, rfl⟩ := located
        exact present
      · exact inductionHypothesis located
      · cases located

theorem locate_present {tree : BplusTreeLo} {key : Int} {id : NodeId} {leaf : Leaf}
    (located : tree.locate key = some (id, leaf)) : tree.node? id = some (.leaf leaf) := by
  simp only [BplusTreeLo.locate, Option.bind_eq_some] at located
  obtain ⟨root, -, walked⟩ := located
  exact leafLocate_present _ walked

theorem stores_leafInsert {tree tree' : BplusTreeLo} {id : NodeId} {leaf : Leaf} {key k : Int}
    {p : ObjectPointer} (present : tree.node? id = some (.leaf leaf))
    (inserted : leafInsert tree id leaf key p = some tree') (stored : tree'.Stores k) :
    tree.Stores k ∨ k = key := by
  have fromLeaf : ∀ {entries' : List (Int × ObjectPointer)} {parent : Option NodeId},
      (∀ e ∈ entries', e ∈ leaf.entries ∨ e = (key, p)) →
      k ∈ (Node.leaf ⟨parent, entries'⟩).leafKeys → tree.Stores k ∨ k = key :=
    fun drawn held => (mem_leafKeys_of_entries drawn held).imp_left (stores_of_node present)
  unfold leafInsert at inserted
  by_cases found : 0 ≤ keyBinarySearch leaf.keys leaf.entries.length key
  · rw [if_pos found] at inserted
    cases inserted
    rcases stores_setNode stored with old | held
    · exact .inl old
    · exact fromLeaf (fun e member => List.mem_or_eq_of_mem_set member) held
  · rw [if_neg found] at inserted
    dsimp only [BplusTreeLo.alloc, leafSplitLeft, leafSplitRight] at inserted
    split_ifs at inserted with full left
    · have built := (keepsLeaves_parentNodeBuild _ inserted).stores stored
      rcases stores_setNode built with withLeft | held
      · rcases stores_setNode withLeft with allocated | held
        · exact .inl ((stores_alloc allocated).resolve_right (by simp [Node.leafKeys, Leaf.keys]))
        · exact fromLeaf (fun e member => mem_insertAt member |>.imp_left List.mem_of_mem_take)
            held
      · exact fromLeaf (fun e member => .inl (List.mem_of_mem_drop member)) held
    · have built := (keepsLeaves_parentNodeBuild _ inserted).stores stored
      rcases stores_setNode built with withLeft | held
      · rcases stores_setNode withLeft with allocated | held
        · exact .inl ((stores_alloc allocated).resolve_right (by simp [Node.leafKeys, Leaf.keys]))
        · exact fromLeaf (fun e member => .inl (List.mem_of_mem_take member)) held
      · exact fromLeaf (fun e member => mem_insertAt member |>.imp_left List.mem_of_mem_drop)
          held
    · cases inserted
      rcases stores_setNode stored with old | held
      · exact .inl old
      · exact fromLeaf (fun e member => mem_insertAt member) held

theorem stores_bplusTreeLoPut {tree tree' : BplusTreeLo} {key k : Int} {p : ObjectPointer}
    {status : Int} (put : bplusTreeLoPut tree key p = some (status, tree'))
    (stored : tree'.Stores k) : tree.Stores k ∨ k = key := by
  unfold bplusTreeLoPut at put
  split_ifs at put
  · cases put
    exact .inl stored
  · split at put
    · simp only [Option.bind_eq_bind, Option.bind_eq_some, Option.pure_def, Option.some.injEq,
        Prod.mk.injEq] at put
      obtain ⟨⟨id, leaf⟩, located, inserted, placed, -, rfl⟩ := put
      exact stores_leafInsert (locate_present located) placed stored
    · simp only [BplusTreeLo.alloc, Option.bind_eq_bind, Option.bind_eq_some, Option.pure_def,
        Option.some.injEq, Prod.mk.injEq] at put
      obtain ⟨linked, linkedEq, -, rfl⟩ := put
      rcases stores_alloc ((keepsLeaves_linkHead linkedEq).stores stored) with old | held
      · exact .inl old
      · simp only [Node.leafKeys, Leaf.keys, List.map_cons, List.map_nil,
          List.mem_singleton] at held
        exact .inr held

theorem bplusTreeLoPut_unchanged_of_refused {tree tree' : BplusTreeLo} {key : Int}
    {p : ObjectPointer} {status : Int} (put : bplusTreeLoPut tree key p = some (status, tree'))
    (refused : status ≠ 0) : tree' = tree := by
  unfold bplusTreeLoPut at put
  split_ifs at put
  · cases put
    rfl
  · split at put
    · simp only [Option.bind_eq_bind, Option.bind_eq_some, Option.pure_def, Option.some.injEq,
        Prod.mk.injEq] at put
      obtain ⟨-, -, -, -, rfl, -⟩ := put
      exact absurd rfl refused
    · simp only [BplusTreeLo.alloc, Option.bind_eq_bind, Option.bind_eq_some, Option.pure_def,
        Option.some.injEq, Prod.mk.injEq] at put
      obtain ⟨-, -, rfl, -⟩ := put
      exact absurd rfl refused

theorem stores_bplusTreeLoDelete {tree tree' : BplusTreeLo} {key k : Int} {status : Int}
    (deleted : bplusTreeLoDelete tree key = some (status, tree')) (stored : tree'.Stores k) :
    tree.Stores k := by
  unfold bplusTreeLoDelete at deleted
  split at deleted
  · cases deleted
    exact stored
  · simp only [Option.bind_eq_bind, Option.bind_eq_some, Option.pure_def,
      Option.some.injEq] at deleted
    obtain ⟨⟨id, leaf⟩, located, removed⟩ := deleted
    unfold leafRemove at removed
    dsimp only at removed
    split_ifs at removed
    · cases removed
      exact stored
    · cases removed
      rcases stores_setNode stored with old | held
      · exact old
      · obtain ⟨e, member, rfl⟩ := List.mem_map.mp held
        exact stores_of_node (locate_present located)
          (List.mem_map_of_mem _ (List.mem_of_mem_eraseIdx member))

theorem stores_of_bplusTreeLoGet {tree : BplusTreeLo} {key : Int} {p : ObjectPointer}
    (found : bplusTreeLoGet tree key = some p) (valid : objectPointerIsValid p = true) :
    tree.Stores key := by
  unfold bplusTreeLoGet at found
  split at found
  · cases found
    simp [objectPointerIsValid, invalidObjectPointer] at valid
  · simp only [Option.bind_eq_bind, Option.bind_eq_some, Option.pure_def,
      Option.some.injEq] at found
    obtain ⟨⟨id, leaf⟩, located, chosen⟩ := found
    split at chosen
    · next hit =>
      dsimp only at hit
      obtain ⟨inside, atSlot⟩ := keyBinarySearch_found (by omega) hit
      have lengths : leaf.keys.length = leaf.entries.length := List.length_map _ _
      have inKeys :
          (keyBinarySearch leaf.keys leaf.entries.length key).toNat < leaf.keys.length := by
        omega
      rw [List.getD_eq_getElem?_getD, List.getElem?_eq_getElem inKeys, Option.getD_some] at atSlot
      exact stores_of_node (locate_present located) (atSlot ▸ List.getElem_mem inKeys)
    · cases chosen
      simp [objectPointerIsValid, invalidObjectPointer] at valid

theorem not_stores_bplusTreeLoInit {order : Nat} {tree : BplusTreeLo}
    (init : bplusTreeLoInit order = some tree) (key : Int) : ¬ tree.Stores key := by
  unfold bplusTreeLoInit at init
  split_ifs at init
  cases init
  simp [Stores, Node.leafKeys, Leaf.keys]

end ZipCache.LoTier
