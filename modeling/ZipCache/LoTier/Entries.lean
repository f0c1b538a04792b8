import ZipCache.LoTier.Descent
import ZipCache.LoTier.Range

/-!
# A put or a delete keeps the other keys' entries

Every entry a leaf of the heap holds stays in some leaf through a put or a delete of another
key, and a put of a valid pointer leaves its own entry in a leaf. The climb of
`parent_node_build` rewrites internal nodes and parent fields only, so every address keeps its
entries (`KeepsEntries`). A leaf update overwrites the slot of its own key, a split parts a
leaf's entries between two leaves, and a delete removes the slot of its own key. This is about
what the heap keeps, not what the descent finds: a lookup may still miss an entry
(`LeftSplit.lean`).
-/

namespace ZipCache.LoTier

@[simp]
theorem Node.leafEntries_withParent (parent : Option NodeId) (node : Node) :
    (node.withParent parent).leafEntries = node.leafEntries := by
  cases node <;> rfl

theorem slot_of_found {leaf : Leaf} {key : Int}
    (found : 0 ≤ keyBinarySearch leaf.keys leaf.entries.length key) :
    (leaf.entries[(keyBinarySearch leaf.keys leaf.entries.length key).toNat]?).map Prod.fst =
      some key := by
  obtain ⟨inside, hit⟩ := keyBinarySearch_found (Int.ofNat_nonneg _) found
  generalize keyBinarySearch leaf.keys leaf.entries.length key = slot at found inside hit ⊢
  have inside' : slot.toNat < leaf.entries.length := by omega
  simp only [Leaf.keys, List.getD_eq_getElem?_getD, List.getElem?_map,
    List.getElem?_eq_getElem inside', Option.map_some', Option.getD_some] at hit ⊢
  rw [hit]

section Slot

variable {entries : List (Int × ObjectPointer)} {i : Nat} {key : Int}
  {entry : Int × ObjectPointer}

theorem index_ne_of_slot (slot : (entries[i]?).map Prod.fst = some key) (other : entry.1 ≠ key)
    {j : Nat} (at_j : entries[j]? = some entry) : i ≠ j := by
  rintro rfl
  rw [at_j, Option.map_some'] at slot
  exact other (Option.some.inj slot)

theorem mem_set_of_slot (slot : (entries[i]?).map Prod.fst = some key) (other : entry.1 ≠ key)
    (member : entry ∈ entries) (new : Int × ObjectPointer) : entry ∈ entries.set i new := by
  obtain ⟨j, at_j⟩ := List.mem_iff_getElem?.mp member
  refine List.mem_iff_getElem?.mpr ⟨j, ?_⟩
  rw [List.getElem?_set, if_neg (index_ne_of_slot slot other at_j), at_j]

theorem mem_eraseIdx_of_slot (slot : (entries[i]?).map Prod.fst = some key)
    (other : entry.1 ≠ key) (member : entry ∈ entries) : entry ∈ entries.eraseIdx i := by
  obtain ⟨j, at_j⟩ := List.mem_iff_getElem?.mp member
  exact List.mem_eraseIdx_iff_getElem?.mpr ⟨j, (index_ne_of_slot slot other at_j).symm, at_j⟩

end Slot

namespace BplusTreeLo

/-- Some leaf of the heap holds the entry. -/
def HoldsEntry (tree : BplusTreeLo) (entry : Int × ObjectPointer) : Prop :=
  ∃ id, entry ∈ tree.entriesAt id

/-- Every address holds the entries it held: what the climb leaves. -/
def KeepsEntries (tree tree' : BplusTreeLo) : Prop :=
  ∀ id, tree'.entriesAt id = tree.entriesAt id

theorem KeepsEntries.refl (tree : BplusTreeLo) : KeepsEntries tree tree := fun _ => rfl

theorem KeepsEntries.trans {tree middle tree' : BplusTreeLo} (first : KeepsEntries tree middle)
    (second : KeepsEntries middle tree') : KeepsEntries tree tree' :=
  fun id => (second id).trans (first id)

theorem KeepsEntries.holds {tree tree' : BplusTreeLo} {entry : Int × ObjectPointer}
    (kept : KeepsEntries tree tree') (held : tree.HoldsEntry entry) : tree'.HoldsEntry entry := by
  obtain ⟨id, member⟩ := held
  exact ⟨id, kept id ▸ member⟩

theorem keepsEntries_of_heap {tree tree' : BplusTreeLo} (same : tree'.heap = tree.heap) :
    KeepsEntries tree tree' :=
  fun id => by simp only [entriesAt, node?, same]

@[simp]
theorem Node.leafEntries_leaf (leaf : Leaf) : (Node.leaf leaf).leafEntries = leaf.entries :=
  rfl

theorem entriesAt_of_node? {tree : BplusTreeLo} {id : Nat} {node : Node}
    (present : tree.node? id = some node) : tree.entriesAt id = node.leafEntries := by
  simp [entriesAt, present]

theorem entriesAt_setNode (tree : BplusTreeLo) (id other : Nat) (node : Node) :
    (tree.setNode id node).entriesAt other =
      if id = other ∧ id < tree.heap.length then node.leafEntries else tree.entriesAt other := by
  by_cases here : id = other
  · subst here
    by_cases inside : id < tree.heap.length
    · rw [if_pos ⟨rfl, inside⟩, entriesAt_of_node? (node?_setNode_self node inside)]
    · rw [if_neg (fun both => inside both.2)]
      simp only [entriesAt, node?, setNode, List.getElem?_set_self', List.length_set]
      simp [List.getElem?_eq_none (Nat.le_of_not_lt inside)]
  · rw [if_neg (fun both => here both.1)]
    simp only [entriesAt, node?_setNode_of_ne node here]

theorem entriesAt_alloc (tree : BplusTreeLo) (node : Node) (other : Nat) :
    (tree.alloc node).1.entriesAt other =
      if other = tree.heap.length then node.leafEntries else tree.entriesAt other := by
  simp only [entriesAt, node?_alloc]
  split_ifs <;> rfl

@[simp]
theorem entriesAt_linkBefore (tree : BplusTreeLo) (anchor new id : Nat) :
    (tree.linkBefore anchor new).entriesAt id = tree.entriesAt id :=
  rfl

@[simp]
theorem entriesAt_linkAfter (tree : BplusTreeLo) (anchor new id : Nat) :
    (tree.linkAfter anchor new).entriesAt id = tree.entriesAt id :=
  rfl

@[simp]
theorem entriesAt_setEntries (tree : BplusTreeLo) (count : Int) (id : Nat) :
    { tree with entries := count }.entriesAt id = tree.entriesAt id :=
  rfl

@[simp]
theorem entriesAt_setRoot (tree : BplusTreeLo) (root : Option NodeId) (count : Int) (id : Nat) :
    { tree with root := root, entries := count }.entriesAt id = tree.entriesAt id :=
  rfl

theorem entriesAt_of_le {tree : BplusTreeLo} {id : Nat} (beyond : tree.heap.length ≤ id) :
    tree.entriesAt id = [] := by
  simp [entriesAt, node?, List.getElem?_eq_none beyond]

theorem lt_of_mem_entriesAt {tree : BplusTreeLo} {id : Nat} {entry : Int × ObjectPointer}
    (member : entry ∈ tree.entriesAt id) : id < tree.heap.length := by
  by_contra outside
  rw [entriesAt_of_le (Nat.le_of_not_lt outside)] at member
  cases member

theorem keepsEntries_setNode_nonLeaf {tree : BplusTreeLo} {id : Nat}
    (bare : tree.entriesAt id = []) (node : NonLeaf) :
    KeepsEntries tree (tree.setNode id (.nonLeaf node)) := by
  intro other
  rw [entriesAt_setNode]
  split_ifs with here
  · rw [← here.1, bare]
    rfl
  · rfl

theorem keepsEntries_setParent {tree tree' : BplusTreeLo} {id : Nat} {parent : Option NodeId}
    (reparented : tree.setParent id parent = some tree') : KeepsEntries tree tree' := by
  simp only [setParent, Option.bind_eq_bind, Option.bind_eq_some, Option.pure_def,
    Option.some.injEq] at reparented
  obtain ⟨node, present, rfl⟩ := reparented
  intro other
  rw [entriesAt_setNode]
  split_ifs with here
  · rw [← here.1, entriesAt_of_node? present, Node.leafEntries_withParent]
  · rfl

theorem keepsEntries_alloc_nonLeaf (tree : BplusTreeLo) (node : NonLeaf) :
    KeepsEntries tree (tree.alloc (.nonLeaf node)).1 := by
  intro other
  rw [entriesAt_alloc]
  split_ifs with here
  · rw [here, entriesAt_of_le le_rfl]
    rfl
  · rfl

theorem keepsEntries_linkHead {tree tree' : BplusTreeLo} {level : Nat} {new : NodeId}
    (linked : tree.linkHead level new = some tree') : KeepsEntries tree tree' := by
  unfold linkHead at linked
  split at linked
  · cases linked
    exact keepsEntries_of_heap rfl
  · cases linked

end BplusTreeLo

open BplusTreeLo

theorem keepsEntries_setParents (parent : NodeId) :
    ∀ (children : List NodeId) {tree tree' : BplusTreeLo},
      setParents parent tree children = some tree' → KeepsEntries tree tree' := by
  intro children
  induction children with
  | nil =>
      intro tree tree' done
      cases done
      exact KeepsEntries.refl tree
  | cons child rest inductionHypothesis =>
      intro tree tree' done
      simp only [setParents, Option.bind_eq_bind, Option.bind_eq_some] at done
      obtain ⟨middle, reparented, rest⟩ := done
      exact (keepsEntries_setParent reparented).trans (inductionHypothesis rest)

theorem keepsEntries_nonLeafSimpleInsert {tree tree' : BplusTreeLo} {id : Nat} {node : NonLeaf}
    {lCh rCh : NodeId} {separator : Int} {insert : Nat} (bare : tree.entriesAt id = [])
    (inserted : nonLeafSimpleInsert tree id node lCh rCh separator insert = some tree') :
    KeepsEntries tree tree' := by
  simp only [nonLeafSimpleInsert, Option.bind_eq_bind, Option.bind_eq_some] at inserted
  obtain ⟨middle, right, left⟩ := inserted
  exact ((keepsEntries_setNode_nonLeaf bare _).trans (keepsEntries_setParent right)).trans
    (keepsEntries_setParent left)

theorem keepsEntries_nonLeafInsertStep {tree : BplusTreeLo} {id lCh rCh : Nat}
    {separator : Int} {step : ClimbStep}
    (climbed : nonLeafInsertStep tree id lCh rCh separator = some step) :
    KeepsEntries tree step.tree := by
  unfold nonLeafInsertStep at climbed
  cases present : tree.node? id with
  | none => simp only [present, Option.bind_eq_bind, Option.none_bind, reduceCtorEq] at climbed
  | some node =>
      cases node with
      | leaf record =>
          simp only [present, Option.bind_eq_bind, Option.some_bind, reduceCtorEq] at climbed
      | nonLeaf record =>
          have bare : tree.entriesAt id = [] := entriesAt_of_node? present
          simp only [present, Option.bind_eq_bind, Option.some_bind] at climbed
          by_cases found :
            0 ≤ keyBinarySearch record.key (record.subPtr.length - 1 : Nat) separator
          · simp only [found, if_true, Option.none_bind, reduceCtorEq] at climbed
          · simp only [found, if_false, Option.pure_def, Option.some_bind] at climbed
            have sibling : ∀ {node : NonLeaf} {children : List NodeId} {tree' : BplusTreeLo},
                setParents tree.heap.length
                  ((tree.alloc (.nonLeaf ⟨none, [], []⟩)).1.setNode tree.heap.length
                    (.nonLeaf node)) children = some tree' → KeepsEntries tree tree' :=
              fun parented => ((keepsEntries_alloc_nonLeaf _ _).trans
                (keepsEntries_setNode_nonLeaf (by simp [entriesAt_alloc]; rfl) _)).trans
                (keepsEntries_setParents _ _ parented)
            split_ifs at climbed
            all_goals simp only [Option.bind_eq_some, Option.some.injEq, alloc_snd] at climbed
            · -- a full node split, the new separator going to the old node
              obtain ⟨middle, parented, inner, inserted, rfl⟩ := climbed
              have kept := sibling parented
              exact (kept.trans (keepsEntries_nonLeafSimpleInsert ((kept id).trans bare)
                inserted)).trans (keepsEntries_of_heap rfl)
            iterate 2
              -- a full node split, the new separator going to the sibling or up
              obtain ⟨middle, parented, rfl⟩ := climbed
              have kept := sibling parented
              exact (kept.trans (keepsEntries_setNode_nonLeaf ((kept id).trans bare) _)).trans
                (keepsEntries_of_heap rfl)
            · -- room in the node
              obtain ⟨inner, inserted, rfl⟩ := climbed
              exact keepsEntries_nonLeafSimpleInsert bare inserted

theorem keepsEntries_parentNodeBuild (fuel : Nat) :
    ∀ {tree tree' : BplusTreeLo} {left right : NodeId} {separator : Int},
      parentNodeBuild fuel tree left right separator = some tree' → KeepsEntries tree tree' := by
  induction fuel with
  | zero => intro tree tree' left right separator built; cases built
  | succ fuel inductionHypothesis =>
      intro tree tree' left right separator built
      simp only [parentNodeBuild, Option.bind_eq_bind, Option.bind_eq_some] at built
      obtain ⟨leftNode, -, rightNode, -, built⟩ := built
      split at built
      · simp only [Option.bind_eq_some, Option.pure_def, Option.some.injEq] at built
        obtain ⟨withLeft, leftSet, withRight, rightSet, linkedTree, linked, rfl⟩ := built
        exact ((((keepsEntries_alloc_nonLeaf _ _).trans (keepsEntries_setParent leftSet)).trans
          (keepsEntries_setParent rightSet)).trans (keepsEntries_linkHead linked)).trans
            (keepsEntries_of_heap rfl)
      all_goals
        simp only [Option.bind_eq_some] at built
        obtain ⟨middle, reparented, step, climbed, finished⟩ := built
        refine (keepsEntries_setParent reparented).trans
          ((keepsEntries_nonLeafInsertStep climbed).trans ?_)
        cases step with
        | done inner =>
            cases finished
            exact KeepsEntries.refl _
        | split inner left right above => exact inductionHypothesis finished

@[simp]
theorem mem_insertAt_iff {α : Type} {xs : List α} {i : Nat} {x y : α} :
    x ∈ insertAt xs i y ↔ x = y ∨ x ∈ xs := by
  conv_rhs => rw [← List.take_append_drop i xs]
  simp only [insertAt, List.mem_append, List.mem_cons]
  tauto

theorem mem_take_or_mem_drop {α : Type} {xs : List α} {x : α} (member : x ∈ xs) (n : Nat) :
    x ∈ xs.take n ∨ x ∈ xs.drop n := by
  rw [← List.take_append_drop n xs] at member
  exact List.mem_append.mp member

variable {tree middle tree' : BplusTreeLo} {id : Nat} {leaf : Leaf} {key : Int}
  {added : Int × ObjectPointer → Prop} {entry : Int × ObjectPointer}

/-- What `leaf_insert` and `leaf_remove` do to the entries: every address but the leaf's own
keeps its entries; the leaf and any new address hold only the leaf's old entries and what
`added` allows; and every old entry of another key is still held somewhere. -/
structure LeafRewrite (tree tree' : BplusTreeLo) (id : Nat) (leaf : Leaf) (key : Int)
    (added : Int × ObjectPointer → Prop) : Prop where
  others : ∀ other, other ≠ id → other < tree.heap.length →
    tree'.entriesAt other = tree.entriesAt other
  drawn : ∀ other, other = id ∨ tree.heap.length ≤ other →
    ∀ entry ∈ tree'.entriesAt other, added entry ∨ entry ∈ leaf.entries
  moved : ∀ entry ∈ leaf.entries, entry.1 ≠ key → tree'.HoldsEntry entry

theorem LeafRewrite.keeps (rewrite : LeafRewrite tree middle id leaf key added)
    (kept : KeepsEntries middle tree') : LeafRewrite tree tree' id leaf key added :=
  ⟨fun other apart inside => (kept other).trans (rewrite.others other apart inside),
    fun other fresh entry member => rewrite.drawn other fresh entry (kept other ▸ member),
    fun entry member other => kept.holds (rewrite.moved entry member other)⟩

theorem LeafRewrite.holdsEntry (rewrite : LeafRewrite tree tree' id leaf key added)
    (present : tree.node? id = some (.leaf leaf)) (other : entry.1 ≠ key)
    (held : tree.HoldsEntry entry) : tree'.HoldsEntry entry := by
  obtain ⟨at_, member⟩ := held
  by_cases here : at_ = id
  · subst here
    rw [entriesAt_of_node? present] at member
    exact rewrite.moved entry member other
  · exact ⟨at_, by rw [rewrite.others at_ here (lt_of_mem_entriesAt member)]; exact member⟩

theorem LeafRewrite.holdsEntry_inv (rewrite : LeafRewrite tree tree' id leaf key added)
    (present : tree.node? id = some (.leaf leaf)) (held : tree'.HoldsEntry entry) :
    added entry ∨ tree.HoldsEntry entry := by
  obtain ⟨at_, member⟩ := held
  have fromLeaf : at_ = id ∨ tree.heap.length ≤ at_ → added entry ∨ tree.HoldsEntry entry :=
    fun fresh => (rewrite.drawn at_ fresh entry member).imp_right
    fun inLeaf => ⟨id, by rw [entriesAt_of_node? present]; exact inLeaf⟩
  by_cases here : at_ = id
  · exact fromLeaf (.inl here)
  by_cases inside : at_ < tree.heap.length
  · exact .inr ⟨at_, rewrite.others at_ here inside ▸ member⟩
  · exact fromLeaf (.inr (Nat.le_of_not_lt inside))

theorem leafRewrite_setNode (present : tree.node? id = some (.leaf leaf))
    {entries : List (Int × ObjectPointer)}
    (drawn : ∀ entry ∈ entries, added entry ∨ entry ∈ leaf.entries)
    (moved : ∀ entry ∈ leaf.entries, entry.1 ≠ key → entry ∈ entries) :
    LeafRewrite tree (tree.setNode id (.leaf { leaf with entries })) id leaf key added := by
  have inHeap := lt_of_node? present
  refine ⟨fun other apart _ => ?_, fun other fresh entry member => ?_,
    fun entry member other => ⟨id, ?_⟩⟩
  · rw [entriesAt_setNode, if_neg fun both => apart both.1.symm]
  · rw [entriesAt_setNode] at member
    split_ifs at member with here
    · exact drawn entry member
    · rw [entriesAt_of_le (by omega)] at member
      cases member
  · rw [entriesAt_setNode, if_pos ⟨rfl, inHeap⟩]
    exact moved entry member other

theorem holdsEntry_leafInsert {p : ObjectPointer} (present : tree.node? id = some (.leaf leaf))
    (inserted : leafInsert tree id leaf key p = some tree') :
    tree'.HoldsEntry (key, p) ∧ LeafRewrite tree tree' id leaf key (· = (key, p)) := by
  have inHeap := lt_of_node? present
  unfold leafInsert at inserted
  by_cases found : 0 ≤ keyBinarySearch leaf.keys leaf.entries.length key
  · -- the key is there: its slot is overwritten
    rw [if_pos found] at inserted
    cases inserted
    have slot := slot_of_found found
    generalize (keyBinarySearch leaf.keys leaf.entries.length key).toNat = i at slot ⊢
    have inLeaf : i < leaf.entries.length := by
      obtain ⟨_, at_i, -⟩ := Option.map_eq_some'.mp slot
      exact (List.getElem?_eq_some_iff.mp at_i).1
    refine ⟨⟨id, ?_⟩, leafRewrite_setNode present
      (fun entry member => (List.mem_or_eq_of_mem_set member).symm)
      fun entry member other => mem_set_of_slot slot other member _⟩
    rw [entriesAt_setNode, if_pos ⟨rfl, inHeap⟩]
    exact List.mem_set _ _ inLeaf _
  rw [if_neg found] at inserted
  by_cases full : leaf.entries.length = bplusMaxEntries
  · simp only [full, if_true, alloc_snd] at inserted
    have apart : id ≠ tree.heap.length := Nat.ne_of_lt inHeap
    have inGrown : id < tree.heap.length + 1 := Nat.lt_succ_of_lt inHeap
    have fresh : ∀ other, other = id ∨ tree.heap.length ≤ other →
        other = id ∨ other = tree.heap.length ∨ tree.heap.length + 1 ≤ other := by omega
    split at inserted
    all_goals
      refine (fun kept => ⟨kept.holds ?_, LeafRewrite.keeps ⟨fun other apart' inside => ?_,
        fun other beyond entry member => ?_, fun entry member _ => ?_⟩ kept⟩)
        (keepsEntries_parentNodeBuild _ inserted)
    · -- a split to the left: the new leaf takes the smaller keys and the new entry
      exact ⟨tree.heap.length, by simp [entriesAt_setNode, entriesAt_alloc, leafSplitLeft, apart]⟩
    · simp [entriesAt_setNode, entriesAt_alloc, Ne.symm apart', Nat.ne_of_lt inside,
        Nat.ne_of_gt inside]
    · rcases fresh other beyond with rfl | rfl | beyond
      · simp only [entriesAt_linkBefore, entriesAt_setEntries, entriesAt_setNode, inGrown,
          heap_length_setNode, heap_length_alloc, and_self, if_true, Node.leafEntries_leaf,
          leafSplitLeft] at member
        exact .inr (List.mem_of_mem_drop member)
      · simp [entriesAt_setNode, entriesAt_alloc, leafSplitLeft, apart] at member
        exact member.imp_right List.mem_of_mem_take
      · simp [entriesAt_setNode, entriesAt_alloc, apart, entriesAt_of_le, beyond,
          Nat.ne_of_gt (Nat.lt_of_lt_of_le inGrown beyond), Nat.ne_of_gt beyond] at member
    · rcases mem_take_or_mem_drop member ((leaf.entries.length + 1) / 2 - 1) with front | back
      · exact ⟨tree.heap.length, by
          simp [entriesAt_setNode, entriesAt_alloc, leafSplitLeft, apart, front]⟩
      · exact ⟨id, by simp [entriesAt_setNode, entriesAt_alloc, leafSplitLeft, inGrown,
          apart.symm, back]⟩
    · -- a split to the right: the new leaf takes the larger keys and the new entry
      exact ⟨tree.heap.length, by
        simp [entriesAt_setNode, entriesAt_alloc, leafSplitRight, apart]⟩
    · simp [entriesAt_setNode, entriesAt_alloc, Ne.symm apart', Nat.ne_of_lt inside,
        Nat.ne_of_gt inside]
    · rcases fresh other beyond with rfl | rfl | beyond
      · simp [entriesAt_setNode, entriesAt_alloc, leafSplitRight, inGrown, apart,
          apart.symm] at member
        exact .inr (List.mem_of_mem_take member)
      · simp [entriesAt_setNode, entriesAt_alloc, leafSplitRight] at member
        exact member.imp_right List.mem_of_mem_drop
      · simp [entriesAt_setNode, entriesAt_alloc, apart, entriesAt_of_le, beyond,
          Nat.ne_of_gt (Nat.lt_of_lt_of_le inGrown beyond), Nat.ne_of_gt beyond] at member
    · rcases mem_take_or_mem_drop member ((leaf.entries.length + 1) / 2) with front | back
      · exact ⟨id, by
          simp [entriesAt_setNode, entriesAt_alloc, leafSplitRight, inGrown, apart.symm, front]⟩
      · exact ⟨tree.heap.length, by
          simp [entriesAt_setNode, entriesAt_alloc, leafSplitRight, apart, back]⟩
  · -- room in the leaf: the entry is inserted in place
    simp only [full, if_false, Option.some.injEq] at inserted
    subst inserted
    refine ⟨⟨id, by simp [entriesAt_setNode, inHeap, leafSimpleInsert]⟩,
      (leafRewrite_setNode present (fun entry member => ?_) fun entry member _ => ?_).keeps
        (keepsEntries_of_heap rfl)⟩
    · simpa [leafSimpleInsert] using member
    · simp [leafSimpleInsert, member]

theorem leafRewrite_refl (present : tree.node? id = some (.leaf leaf)) :
    LeafRewrite tree tree id leaf key added := by
  refine ⟨fun _ _ _ => rfl, fun other fresh entry member => .inr ?_,
    fun entry member _ => ⟨id, by rw [entriesAt_of_node? present]; exact member⟩⟩
  rcases fresh with rfl | beyond
  · rwa [entriesAt_of_node? present] at member
  · rw [entriesAt_of_le beyond] at member
    cases member

theorem leafRewrite_leafRemove (present : tree.node? id = some (.leaf leaf)) :
    LeafRewrite tree (leafRemove tree id leaf key).2 id leaf key fun _ => False := by
  unfold leafRemove
  dsimp only
  split_ifs with missed
  · exact leafRewrite_refl present
  · have slot := slot_of_found (Int.not_lt.mp missed)
    exact (leafRewrite_setNode present (fun _ member => .inr (List.mem_of_mem_eraseIdx member))
      fun _ member other => mem_eraseIdx_of_slot slot other member).keeps
        (keepsEntries_of_heap rfl)

theorem holdsEntry_bplusTreeLoPut {status : Int} {p : ObjectPointer}
    (put : bplusTreeLoPut tree key p = some (status, tree')) :
    (objectPointerIsValid p = true → tree'.HoldsEntry (key, p)) ∧
      (∀ entry, entry.1 ≠ key → tree.HoldsEntry entry → tree'.HoldsEntry entry) ∧
      ∀ entry, tree'.HoldsEntry entry → entry = (key, p) ∨ tree.HoldsEntry entry := by
  unfold bplusTreeLoPut at put
  split_ifs at put with invalid
  · cases put
    exact ⟨fun valid => by simp [valid] at invalid, fun _ _ held => held, fun _ => .inr⟩
  split at put
  · simp only [Option.bind_eq_bind, Option.bind_eq_some, Option.pure_def, Option.some.injEq,
      Prod.mk.injEq] at put
    obtain ⟨⟨id, leaf⟩, located, inner, inserted, -, rfl⟩ := put
    have present := locate_present located
    obtain ⟨own, rewrite⟩ := holdsEntry_leafInsert present inserted
    exact ⟨fun _ => own, fun _ other held => rewrite.holdsEntry present other held,
      fun _ held => rewrite.holdsEntry_inv present held⟩
  · -- no root yet: a first leaf
    simp only [Option.bind_eq_bind, Option.bind_eq_some, Option.pure_def, Option.some.injEq,
      Prod.mk.injEq, alloc_snd] at put
    obtain ⟨linkedTree, linked, -, rfl⟩ := put
    have kept := keepsEntries_linkHead linked
    refine ⟨fun _ => ⟨tree.heap.length, ?_⟩, fun entry _ ⟨at_, member⟩ => ⟨at_, ?_⟩,
      fun entry ⟨at_, member⟩ => ?_⟩
    · simp [kept _, entriesAt_alloc]
    · rw [entriesAt_setRoot, kept, entriesAt_alloc,
        if_neg (Nat.ne_of_lt (lt_of_mem_entriesAt member))]
      exact member
    · rw [entriesAt_setRoot, kept, entriesAt_alloc] at member
      split_ifs at member
      · exact .inl (List.mem_singleton.mp member)
      · exact .inr ⟨at_, member⟩

theorem holdsEntry_bplusTreeLoDelete {status : Int}
    (deleted : bplusTreeLoDelete tree key = some (status, tree')) :
    (∀ entry, entry.1 ≠ key → tree.HoldsEntry entry → tree'.HoldsEntry entry) ∧
      ∀ entry, tree'.HoldsEntry entry → tree.HoldsEntry entry := by
  unfold bplusTreeLoDelete at deleted
  split at deleted
  · cases deleted
    exact ⟨fun _ _ held => held, fun _ held => held⟩
  simp only [Option.bind_eq_bind, Option.bind_eq_some, Option.pure_def,
    Option.some.injEq] at deleted
  obtain ⟨⟨id, leaf⟩, located, removed⟩ := deleted
  have present := locate_present located
  have rewrite : LeafRewrite tree (leafRemove tree id leaf key).2 id leaf key fun _ => False :=
    leafRewrite_leafRemove present
  rw [removed] at rewrite
  exact ⟨fun _ other held => rewrite.holdsEntry present other held,
    fun _ held => (rewrite.holdsEntry_inv present held).resolve_left not_false⟩

theorem bplusTreeLoPut_status_of_valid {status : Int} {p : ObjectPointer}
    (valid : objectPointerIsValid p = true)
    (put : bplusTreeLoPut tree key p = some (status, tree')) : status = 0 := by
  unfold bplusTreeLoPut at put
  rw [if_neg (by simp [valid])] at put
  split at put <;>
    simp only [Option.bind_eq_bind, Option.bind_eq_some, Option.pure_def, Option.some.injEq,
      Prod.mk.injEq] at put
  · obtain ⟨_, -, _, -, rfl, -⟩ := put
    rfl
  · obtain ⟨_, -, rfl, -⟩ := put
    rfl

end ZipCache.LoTier
