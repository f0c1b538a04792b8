import ZipCache.LoTier.Keys
import ZipCache.LoTier.Spec

/-!
# Sorted leaves: what a delete and an unsplit put leave for a lookup

`leaf_insert` stores a new key where `key_binary_search` says it belongs, and a split cuts a
leaf's entries without reordering them, so on every tree that `bplus_tree_lo_init` and then
puts and deletes reach, the keys of each leaf of the heap are strictly ascending, whether the
root reaches the leaf or not. The climb above a split writes internal nodes only
(`KeepsLeaves`).

`bplus_tree_lo_get`, `bplus_tree_lo_put` and `bplus_tree_lo_delete` walk to the same leaf for
a key. On a sorted leaf a delete takes out the key's one entry, so the lookup that follows
answers `INVALID_OBJECT_POINTER`; and a put that splits nothing leaves its entry where the
lookup finds it.
-/

namespace ZipCache.LoTier

namespace BplusTreeLo

/-- The keys of every leaf of the heap are strictly ascending. -/
def LeavesSorted (tree : BplusTreeLo) : Prop :=
  ∀ node ∈ tree.heap, node.leafKeys.Pairwise (· < ·)

theorem KeepsLeaves.leavesSorted {tree tree' : BplusTreeLo} (kept : KeepsLeaves tree tree')
    (sorted : tree.LeavesSorted) : tree'.LeavesSorted := by
  intro node' member
  rcases kept node' member with empty | ⟨node, inOld, same⟩
  · rw [empty]
    exact List.Pairwise.nil
  · exact same ▸ sorted node inOld

theorem LeavesSorted.entries {tree : BplusTreeLo} {id : NodeId} {leaf : Leaf}
    (sorted : tree.LeavesSorted) (present : tree.node? id = some (.leaf leaf)) :
    leaf.entries.Pairwise (·.1 < ·.1) :=
  List.pairwise_map.mp (sorted _ (List.getElem?_mem present))

theorem leavesSorted_setNode {tree : BplusTreeLo} {id : NodeId} {node : Node}
    (sorted : tree.LeavesSorted) (ascending : node.leafKeys.Pairwise (· < ·)) :
    (tree.setNode id node).LeavesSorted := by
  intro node' member
  rcases List.mem_or_eq_of_mem_set member with old | rfl
  · exact sorted node' old
  · exact ascending

theorem leavesSorted_setNode_leaf {tree : BplusTreeLo} {id : NodeId} {parent : Option NodeId}
    {entries : List (Int × ObjectPointer)} (sorted : tree.LeavesSorted)
    (ascending : entries.Pairwise (·.1 < ·.1)) :
    (tree.setNode id (.leaf ⟨parent, entries⟩)).LeavesSorted :=
  leavesSorted_setNode sorted (List.pairwise_map.mpr ascending)

theorem leavesSorted_alloc {tree : BplusTreeLo} {node : Node} (sorted : tree.LeavesSorted)
    (ascending : node.leafKeys.Pairwise (· < ·)) : (tree.alloc node).1.LeavesSorted := by
  intro node' member
  rcases List.mem_append.mp member with old | fresh
  · exact sorted node' old
  · rw [List.mem_singleton.mp fresh]
    exact ascending

theorem node?_setNode_self {tree : BplusTreeLo} {id : NodeId} (node : Node)
    (inside : id < tree.heap.length) : (tree.setNode id node).node? id = some node :=
  List.getElem?_set_self inside

theorem node?_setNode_of_ne {tree : BplusTreeLo} {id other : NodeId} (node : Node)
    (apart : id ≠ other) : (tree.setNode id node).node? other = tree.node? other :=
  List.getElem?_set_ne apart

end BplusTreeLo

open BplusTreeLo

theorem pairwise_insert_at_cut {front back : List (Int × ObjectPointer)}
    {entry : Int × ObjectPointer} (ascending : (front ++ back).Pairwise (·.1 < ·.1))
    (allBelow : ∀ e ∈ front, e.1 < entry.1) (allAbove : ∀ e ∈ back, entry.1 < e.1) :
    (front ++ entry :: back).Pairwise (·.1 < ·.1) := by
  rw [List.pairwise_append] at ascending ⊢
  obtain ⟨inFront, inBack, across⟩ := ascending
  refine ⟨inFront, List.pairwise_cons.mpr ⟨allAbove, inBack⟩, fun a inA b inB => ?_⟩
  rcases List.mem_cons.mp inB with rfl | later
  · exact allBelow a inA
  · exact across a inA b later

theorem leafInsert_hit (tree : BplusTreeLo) (id : NodeId) {parent : Option NodeId}
    {front back : List (Int × ObjectPointer)} {old : Int × ObjectPointer} {key : Int}
    (p : ObjectPointer) (keyed : old.1 = key) (allBelow : ∀ e ∈ front, e.1 < key)
    (allAbove : ∀ e ∈ back, key < e.1) :
    leafInsert tree id ⟨parent, front ++ old :: back⟩ key p =
      some (tree.setNode id (.leaf ⟨parent, front ++ (key, p) :: back⟩)) := by
  have found := keyBinarySearch_leaf_hit parent keyed allBelow allAbove
  simp only [leafInsert, found, Int.toNat_ofNat, List.set_append_right _ _ (Nat.le_refl _),
    Nat.sub_self, List.set_cons_zero]
  rw [if_pos (by omega)]

theorem leafLocate_setNode_leaf {tree : BplusTreeLo} {key : Int} {id : NodeId} {leaf : Leaf}
    (leaf' : Leaf) (fuel : Nat) :
    ∀ {start : NodeId}, leafLocate tree key fuel start = some (id, leaf) →
      leafLocate (tree.setNode id (.leaf leaf')) key fuel start = some (id, leaf') := by
  induction fuel with
  | zero => intro start located; cases located
  | succ fuel inductionHypothesis =>
      intro start located
      have inside : id < tree.heap.length :=
        (List.getElem?_eq_some_iff.mp (leafLocate_present _ located)).1
      simp only [leafLocate] at located ⊢
      by_cases reached : id = start
      · subst reached
        rw [node?_setNode_self _ inside]
      · rw [node?_setNode_of_ne _ reached]
        split at located
        · next leaf'' present =>
          cases located
          exact absurd rfl reached
        · exact inductionHypothesis located
        · cases located

theorem locate_setNode_leaf {tree : BplusTreeLo} {key : Int} {id : NodeId} {leaf : Leaf}
    (located : tree.locate key = some (id, leaf)) (leaf' : Leaf) :
    (tree.setNode id (.leaf leaf')).locate key = some (id, leaf') := by
  simp only [BplusTreeLo.locate, Option.bind_eq_some] at located ⊢
  obtain ⟨root, rooted, walked⟩ := located
  refine ⟨root, rooted, ?_⟩
  rw [BplusTreeLo.setNode, List.length_set]
  exact leafLocate_setNode_leaf leaf' _ walked

theorem leafLocate_congr {tree tree' : BplusTreeLo} (sameHeap : tree'.heap = tree.heap)
    (key : Int) (fuel : Nat) :
    ∀ start, leafLocate tree' key fuel start = leafLocate tree key fuel start := by
  induction fuel with
  | zero => intro start; rfl
  | succ fuel inductionHypothesis =>
      intro start
      simp only [leafLocate, BplusTreeLo.node?, sameHeap, inductionHypothesis]

theorem locate_setEntries (tree : BplusTreeLo) (count key : Int) :
    { tree with entries := count }.locate key = tree.locate key := by
  have sameHeap : ({ tree with entries := count } : BplusTreeLo).heap = tree.heap := rfl
  have walk : leafLocate { tree with entries := count } key = leafLocate tree key :=
    funext fun fuel => funext (leafLocate_congr sameHeap key fuel)
  rw [BplusTreeLo.locate, BplusTreeLo.locate, walk]

theorem root_of_locate {tree : BplusTreeLo} {key : Int} {found : NodeId × Leaf}
    (located : tree.locate key = some found) : ∃ root, tree.root = some root := by
  cases rooted : tree.root with
  | none => simp [BplusTreeLo.locate, rooted] at located
  | some root => exact ⟨root, rfl⟩

theorem bplusTreeLoGet_of_located_hit {tree : BplusTreeLo} {key : Int} {id : NodeId}
    {parent : Option NodeId} {front back : List (Int × ObjectPointer)}
    {entry : Int × ObjectPointer}
    (located : tree.locate key = some (id, ⟨parent, front ++ entry :: back⟩))
    (keyed : entry.1 = key) (allBelow : ∀ e ∈ front, e.1 < key)
    (allAbove : ∀ e ∈ back, key < e.1) : bplusTreeLoGet tree key = some entry.2 := by
  obtain ⟨root, rooted⟩ := root_of_locate located
  have found := keyBinarySearch_leaf_hit parent keyed allBelow allAbove
  simp only [bplusTreeLoGet, rooted, located, Option.bind_eq_bind, Option.some_bind, found,
    Option.pure_def, Int.toNat_ofNat, List.getD_eq_getElem?_getD,
    List.getElem?_append_right (Nat.le_refl _), Nat.sub_self, List.getElem?_cons_zero,
    Option.getD_some]
  rw [if_pos (by omega)]

theorem bplusTreeLoGet_of_located_miss {tree : BplusTreeLo} {key : Int} {id : NodeId}
    {parent : Option NodeId} {front back : List (Int × ObjectPointer)}
    (located : tree.locate key = some (id, ⟨parent, front ++ back⟩))
    (allBelow : ∀ e ∈ front, e.1 < key) (allAbove : ∀ e ∈ back, key < e.1) :
    bplusTreeLoGet tree key = some invalidObjectPointer := by
  obtain ⟨root, rooted⟩ := root_of_locate located
  have missed := keyBinarySearch_leaf_cut parent allBelow allAbove
  simp only [bplusTreeLoGet, rooted, located, Option.bind_eq_bind, Option.some_bind, missed,
    Option.pure_def]
  rw [if_neg (by omega)]

theorem bplusTreeLoDelete_of_located_hit {tree : BplusTreeLo} {key : Int} {id : NodeId}
    {parent : Option NodeId} {front back : List (Int × ObjectPointer)}
    {old : Int × ObjectPointer}
    (located : tree.locate key = some (id, ⟨parent, front ++ old :: back⟩))
    (keyed : old.1 = key) (allBelow : ∀ e ∈ front, e.1 < key)
    (allAbove : ∀ e ∈ back, key < e.1) :
    bplusTreeLoDelete tree key =
      some (0, { tree.setNode id (.leaf ⟨parent, front ++ back⟩) with
        entries := tree.entries - 1 }) := by
  obtain ⟨root, rooted⟩ := root_of_locate located
  have found := keyBinarySearch_leaf_hit parent keyed allBelow allAbove
  simp only [bplusTreeLoDelete, rooted, located, Option.bind_eq_bind, Option.some_bind,
    Option.pure_def, leafRemove, found, Int.toNat_ofNat,
    List.eraseIdx_append_of_length_le (Nat.le_refl _), Nat.sub_self, List.eraseIdx_cons_zero]
  rw [if_neg (by omega)]

theorem bplusTreeLoDelete_of_located_miss {tree : BplusTreeLo} {key : Int} {id : NodeId}
    {parent : Option NodeId} {front back : List (Int × ObjectPointer)}
    (located : tree.locate key = some (id, ⟨parent, front ++ back⟩))
    (allBelow : ∀ e ∈ front, e.1 < key) (allAbove : ∀ e ∈ back, key < e.1) :
    bplusTreeLoDelete tree key = some (-1, tree) := by
  obtain ⟨root, rooted⟩ := root_of_locate located
  have missed := keyBinarySearch_leaf_cut parent allBelow allAbove
  simp only [bplusTreeLoDelete, rooted, located, Option.bind_eq_bind, Option.some_bind,
    Option.pure_def, leafRemove, missed]
  rw [if_pos (by omega)]

theorem leavesSorted_leafInsert {tree tree' : BplusTreeLo} {id : NodeId} {leaf : Leaf}
    {key : Int} {p : ObjectPointer} (sorted : tree.LeavesSorted)
    (present : tree.node? id = some (.leaf leaf))
    (inserted : leafInsert tree id leaf key p = some tree') : tree'.LeavesSorted := by
  obtain ⟨parent, entries⟩ := leaf
  have ascending := sorted.entries present
  obtain ⟨front, back, allBelow, allAbove, absent | ⟨old, keyed, rfl⟩⟩ :=
    exists_cut_of_pairwise Prod.fst ascending key
  · subst absent
    have placed : (front ++ (key, p) :: back).Pairwise (·.1 < ·.1) :=
      pairwise_insert_at_cut ascending allBelow allAbove
    by_cases full : (front ++ back).length = bplusMaxEntries
    · have found := keyBinarySearch_leaf_cut parent allBelow allAbove
      have position : (-(-(front.length : Int) - 1) - 1).toNat = front.length := by omega
      unfold leafInsert at inserted
      simp only [found] at inserted
      rw [if_neg (by omega)] at inserted
      simp only [position, full, if_true, BplusTreeLo.alloc, leafSplitLeft,
        leafSplitRight] at inserted
      split_ifs at inserted with toLeft
      · -- the new key among the first half: a new left sibling takes the smaller keys
        refine (keepsLeaves_parentNodeBuild _ inserted).leavesSorted
          (leavesSorted_setNode_leaf (leavesSorted_setNode_leaf
            (leavesSorted_alloc sorted List.Pairwise.nil) ?_) ?_)
        · have short : front.length ≤ (bplusMaxEntries + 1) / 2 - 1 := by omega
          rw [List.take_append_eq_append_take, List.take_of_length_le short,
            insertAt_append_length]
          exact placed.sublist (((List.take_sublist _ back).cons₂ _).append_left front)
        · exact ascending.sublist (List.drop_sublist _ _)
      · -- the new key among the second half: a new right sibling takes the larger keys
        refine (keepsLeaves_parentNodeBuild _ inserted).leavesSorted
          (leavesSorted_setNode_leaf (leavesSorted_setNode_leaf
            (leavesSorted_alloc sorted List.Pairwise.nil) ?_) ?_)
        · exact ascending.sublist (List.take_sublist _ _)
        · have long : (bplusMaxEntries + 1) / 2 ≤ front.length := by omega
          have shifted : front.length - (bplusMaxEntries + 1) / 2 =
              (front.drop ((bplusMaxEntries + 1) / 2)).length := (List.length_drop _ _).symm
          rw [List.drop_append_of_le_length long, shifted, insertAt_append_length]
          exact placed.sublist ((List.drop_sublist _ front).append (List.Sublist.refl _))
    · rw [leafInsert_cut tree id p full allBelow allAbove] at inserted
      cases inserted
      exact leavesSorted_setNode_leaf sorted placed
  · rw [leafInsert_hit tree id p keyed allBelow allAbove] at inserted
    cases inserted
    exact leavesSorted_setNode_leaf sorted (pairwise_insert_at_cut
      (ascending.sublist ((List.sublist_cons_self old back).append_left front)) allBelow allAbove)

theorem leavesSorted_bplusTreeLoPut {tree tree' : BplusTreeLo} {key : Int} {p : ObjectPointer}
    {status : Int} (sorted : tree.LeavesSorted)
    (put : bplusTreeLoPut tree key p = some (status, tree')) : tree'.LeavesSorted := by
  unfold bplusTreeLoPut at put
  split_ifs at put
  · cases put
    exact sorted
  · split at put
    · simp only [Option.bind_eq_bind, Option.bind_eq_some, Option.pure_def, Option.some.injEq,
        Prod.mk.injEq] at put
      obtain ⟨⟨id, leaf⟩, located, inserted, placed, -, rfl⟩ := put
      exact leavesSorted_leafInsert sorted (locate_present located) placed
    · simp only [BplusTreeLo.alloc, Option.bind_eq_bind, Option.bind_eq_some, Option.pure_def,
        Option.some.injEq, Prod.mk.injEq] at put
      obtain ⟨linked, linkedEq, -, rfl⟩ := put
      exact (keepsLeaves_linkHead linkedEq).trans (keepsLeaves_of_heap rfl) |>.leavesSorted
        (leavesSorted_alloc sorted (List.pairwise_singleton _ _))

theorem leavesSorted_bplusTreeLoDelete {tree tree' : BplusTreeLo} {key : Int} {status : Int}
    (sorted : tree.LeavesSorted) (deleted : bplusTreeLoDelete tree key = some (status, tree')) :
    tree'.LeavesSorted := by
  unfold bplusTreeLoDelete at deleted
  split at deleted
  · cases deleted
    exact sorted
  · simp only [Option.bind_eq_bind, Option.bind_eq_some, Option.pure_def,
      Option.some.injEq] at deleted
    obtain ⟨⟨id, leaf⟩, located, removed⟩ := deleted
    unfold leafRemove at removed
    dsimp only at removed
    split_ifs at removed
    · cases removed
      exact sorted
    · cases removed
      exact leavesSorted_setNode_leaf sorted
        ((sorted.entries (locate_present located)).sublist (List.eraseIdx_sublist _ _))

namespace BplusTreeLo

/-- The trees that `bplus_tree_lo_init` and then any puts and deletes reach. -/
inductive Reachable : BplusTreeLo → Prop
  | init (order : Nat) {tree : BplusTreeLo} : bplusTreeLoInit order = some tree → Reachable tree
  | put {tree tree' : BplusTreeLo} (key : Int) (p : ObjectPointer) {status : Int} :
      Reachable tree → bplusTreeLoPut tree key p = some (status, tree') → Reachable tree'
  | delete {tree tree' : BplusTreeLo} (key : Int) {status : Int} :
      Reachable tree → bplusTreeLoDelete tree key = some (status, tree') → Reachable tree'

theorem Reachable.leavesSorted {tree : BplusTreeLo} (reachable : tree.Reachable) :
    tree.LeavesSorted := by
  induction reachable with
  | init order init =>
      unfold bplusTreeLoInit at init
      split_ifs at init
      cases init
      intro node member
      rw [List.mem_singleton.mp member]
      exact List.Pairwise.nil
  | put key p _ put sorted => exact leavesSorted_bplusTreeLoPut sorted put
  | delete key _ deleted sorted => exact leavesSorted_bplusTreeLoDelete sorted deleted

end BplusTreeLo

/-- On every tree that puts and deletes reach from `bplus_tree_lo_init`, `bplus_tree_lo_get`
right after `bplus_tree_lo_delete` of a key, whatever the delete returned, answers
`INVALID_OBJECT_POINTER`. -/
theorem bplusTreeLoGet_misses_after_delete {tree tree' : BplusTreeLo} {key status : Int}
    (reachable : tree.Reachable) (deleted : bplusTreeLoDelete tree key = some (status, tree')) :
    bplusTreeLoGet tree' key = some invalidObjectPointer := by
  cases rooted : tree.root with
  | none =>
      simp only [bplusTreeLoDelete, rooted, Option.some.injEq, Prod.mk.injEq] at deleted
      obtain ⟨-, rfl⟩ := deleted
      simp [bplusTreeLoGet, rooted]
  | some root =>
      obtain ⟨⟨id, ⟨parent, entries⟩⟩, located⟩ : ∃ found, tree.locate key = some found := by
        cases located : tree.locate key with
        | none => simp [bplusTreeLoDelete, rooted, located] at deleted
        | some found => exact ⟨found, rfl⟩
      obtain ⟨front, back, allBelow, allAbove, absent | ⟨old, keyed, rfl⟩⟩ :=
        exists_cut_of_pairwise Prod.fst
          (reachable.leavesSorted.entries (locate_present located)) key
      · subst absent
        rw [bplusTreeLoDelete_of_located_miss located allBelow allAbove, Option.some.injEq,
          Prod.mk.injEq] at deleted
        obtain ⟨-, rfl⟩ := deleted
        exact bplusTreeLoGet_of_located_miss located allBelow allAbove
      · rw [bplusTreeLoDelete_of_located_hit located keyed allBelow allAbove, Option.some.injEq,
          Prod.mk.injEq] at deleted
        obtain ⟨-, rfl⟩ := deleted
        exact bplusTreeLoGet_of_located_miss
          ((locate_setEntries _ _ key).trans (locate_setNode_leaf located _)) allBelow allAbove

theorem bplusTreeLoGet_misses_after_delete_of_seven :
    ∃ tree status tree' status' tree'', bplusTreeLoInit 16 = some tree ∧
      bplusTreeLoPut tree 7 ⟨1#64, 1#32, 0#32⟩ = some (status, tree') ∧
      bplusTreeLoDelete tree' 7 = some (status', tree'') ∧
      bplusTreeLoGet tree'' 7 = some invalidObjectPointer :=
  ⟨_, _, _, _, _, rfl, rfl, rfl,
    bplusTreeLoGet_misses_after_delete (.put 7 ⟨1#64, 1#32, 0#32⟩ (.init 16 rfl) rfl) rfl⟩

/-- On every reachable tree, a put of a valid pointer whose key routes to a leaf that holds
the key or has room leaves the pointer where `bplus_tree_lo_get` finds it. -/
theorem bplusTreeLoGet_after_put_without_split {tree tree' : BplusTreeLo} {key status : Int}
    {p : ObjectPointer} {id : NodeId} {leaf : Leaf} (reachable : tree.Reachable)
    (located : tree.locate key = some (id, leaf))
    (roomy : leaf.entries.length < bplusMaxEntries ∨ key ∈ leaf.keys)
    (valid : objectPointerIsValid p = true)
    (put : bplusTreeLoPut tree key p = some (status, tree')) :
    bplusTreeLoGet tree' key = some p := by
  obtain ⟨root, rooted⟩ := root_of_locate located
  obtain ⟨parent, entries⟩ := leaf
  obtain ⟨front, back, allBelow, allAbove, absent | ⟨old, keyed, rfl⟩⟩ :=
    exists_cut_of_pairwise Prod.fst (reachable.leavesSorted.entries (locate_present located)) key
  · subst absent
    have room : (front ++ back).length ≠ bplusMaxEntries := by
      rcases roomy with shorter | held
      · exact Nat.ne_of_lt shorter
      · obtain ⟨e, member, rfl⟩ := List.mem_map.mp held
        rcases List.mem_append.mp member with below | above
        · exact absurd (allBelow e below) (Int.lt_irrefl _)
        · exact absurd (allAbove e above) (Int.lt_irrefl _)
    rw [bplusTreeLoPut_cut valid located room allBelow allAbove, Option.some.injEq,
      Prod.mk.injEq] at put
    obtain ⟨-, rfl⟩ := put
    exact bplusTreeLoGet_of_located_hit ((locate_setEntries _ _ key).trans
      (locate_setNode_leaf located ⟨parent, front ++ (key, p) :: back⟩)) rfl allBelow allAbove
  · simp only [bplusTreeLoPut, valid, Bool.not_true, Bool.false_eq_true, if_false, rooted,
      located, Option.bind_eq_bind, Option.some_bind, leafInsert_hit tree id p keyed allBelow
      allAbove, Option.pure_def, Option.some.injEq, Prod.mk.injEq] at put
    obtain ⟨-, rfl⟩ := put
    exact bplusTreeLoGet_of_located_hit
      (locate_setNode_leaf located ⟨parent, front ++ (key, p) :: back⟩) rfl allBelow allAbove

theorem bplusTreeLoGet_after_put_without_split_of_seven :
    ∃ tree status tree', bplusTreeLoInit 16 = some tree ∧
      bplusTreeLoPut tree 7 ⟨1#64, 1#32, 0#32⟩ = some (status, tree') ∧
      bplusTreeLoGet tree' 7 = some ⟨1#64, 1#32, 0#32⟩ :=
  ⟨_, _, _, rfl, rfl,
    bplusTreeLoGet_after_put_without_split (.init 16 rfl) rfl (.inl (by decide)) rfl rfl⟩

end ZipCache.LoTier
