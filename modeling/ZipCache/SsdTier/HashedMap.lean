import ZipCache.SsdTier.SlotPages

/-!
# The hashed super-leaf is a map

The SSD tree calls `super_leaf_insert_hashed`, `super_leaf_search_hashed` and
`super_leaf_delete_hashed` on a super-leaf. Each call loads only the slot that the key's hash
names. The insert allocates that slot's block on first use; the search and the delete return
`-1` for a slot without a block.

Every super-leaf that `super_leaf_create` and then these calls and `super_leaf_flush_dirty`
reach keeps each binding in the slot of its key's hash. So the super-leaf stands for one map,
`SuperLeaf.lookup`, and the calls act on it as a map does:

* the search returns the key's binding, or `-1`;
* an insert that returns `0` binds the key;
* an insert that returns `-1` or `-2` changes nothing, because the key's sub-page is full or
  no block was free for it;
* a delete drops the key's binding, and returns `0` exactly when there was one;
* a flush changes no binding.
-/

namespace ZipCache.SsdTier

theorem lookup_cons_pair (k first value : Int) (rest : List (Int × Int)) :
    ((first, value) :: rest).lookup k = if k = first then some value else rest.lookup k := by
  by_cases hit : k = first
  · rw [List.lookup_cons, hit, beq_self_eq_true, if_pos rfl]
  · rw [List.lookup_cons, beq_false_of_ne hit, if_neg hit]

theorem lookup_sortedInsert (key data k : Int) :
    ∀ pairs : List (Int × Int),
      (sortedInsert key data pairs).lookup k = if k = key then some data else pairs.lookup k
  | [] => by simp [sortedInsert, lookup_cons_pair]
  | (first, value) :: rest => by
      have step := lookup_sortedInsert key data k rest
      unfold sortedInsert
      split_ifs with below same <;> by_cases hit : k = key <;>
        simp_all [lookup_cons_pair]

theorem mem_sortedInsert {key data : Int} {pair : Int × Int} :
    ∀ {pairs : List (Int × Int)}, pair ∈ sortedInsert key data pairs →
      pair.1 = key ∨ pair ∈ pairs
  | [], member => by simp [sortedInsert] at member; simp [member]
  | first :: rest, member => by
      unfold sortedInsert at member
      split_ifs at member
      · rcases List.mem_cons.mp member with rfl | old
        · exact .inl rfl
        · exact .inr old
      · rcases List.mem_cons.mp member with rfl | old
        · exact .inl rfl
        · exact .inr (List.mem_cons_of_mem _ old)
      · rcases List.mem_cons.mp member with rfl | later
        · exact .inr (List.mem_cons_self _ _)
        · exact (mem_sortedInsert later).imp_right (List.mem_cons_of_mem _)

theorem lookup_filter_key (key k : Int) : ∀ pairs : List (Int × Int),
    (pairs.filter (fun pair => pair.1 ≠ key)).lookup k = if k = key then none else pairs.lookup k
  | [] => by simp
  | (first, value) :: rest => by
      rw [List.filter_cons, lookup_cons_pair]
      by_cases kept : first = key
      · subst kept
        rw [if_neg (by simp), lookup_filter_key first k rest]
        by_cases hit : k = first <;> simp [hit]
      · rw [if_pos (by simpa using kept), lookup_cons_pair, lookup_filter_key key k rest]
        by_cases hit : k = key
        · rw [if_pos hit, if_pos hit, if_neg (hit ▸ Ne.symm kept)]
        · rw [if_neg hit, if_neg hit]

theorem mem_map_fst_iff_lookup (key : Int) : ∀ pairs : List (Int × Int),
    key ∈ pairs.map Prod.fst ↔ (pairs.lookup key).isSome
  | [] => by simp
  | (first, value) :: rest => by
      by_cases hit : key = first <;> simp [lookup_cons_pair, hit, mem_map_fst_iff_lookup key rest]

/-- The binding of a key: the one in the slot its hash names. -/
def SuperLeaf.lookup (superLeaf : SuperLeaf) (key : Int) : Option Int :=
  (superLeaf.pageAt (subPageIndex key)).lookup key

/-- What every super-leaf that the hashed calls reach keeps beside `SlotsWf`: each binding sits
in the slot its key hashes to. -/
structure SuperLeaf.HashedWf (superLeaf : SuperLeaf) extends superLeaf.SlotsWf : Prop where
  placed : ∀ i, ∀ pair ∈ superLeaf.pageAt i, subPageIndex pair.1 = i

section Slot

variable {before after : SuperLeaf} {key : Int}

theorem SuperLeaf.lookup_of_slot {answer : Option Int}
    (others : ∀ j, j ≠ subPageIndex key → after.pageAt j = before.pageAt j)
    (slot : ∀ k, (after.pageAt (subPageIndex key)).lookup k =
      if k = key then answer else (before.pageAt (subPageIndex key)).lookup k)
    (k : Int) : after.lookup k = if k = key then answer else before.lookup k := by
  unfold SuperLeaf.lookup
  by_cases same : subPageIndex k = subPageIndex key
  · rw [same, slot]
  · rw [others _ same, if_neg fun hit : k = key => same (by rw [hit])]

theorem placed_of_slot
    (placed : ∀ i, ∀ pair ∈ before.pageAt i, subPageIndex pair.1 = i)
    (others : ∀ j, j ≠ subPageIndex key → after.pageAt j = before.pageAt j)
    (slot : ∀ pair ∈ after.pageAt (subPageIndex key),
      pair.1 = key ∨ pair ∈ before.pageAt (subPageIndex key)) :
    ∀ i, ∀ pair ∈ after.pageAt i, subPageIndex pair.1 = i := by
  intro i pair member
  by_cases here : i = subPageIndex key
  · subst here
    rcases slot pair member with keyed | old
    · rw [keyed]
    · exact placed _ pair old
  · exact placed i pair (others i here ▸ member)

end Slot

section Load

variable {superLeaf : SuperLeaf} (wf : superLeaf.SlotsWf) (dm : DiskManager) {key : Int}
include wf

theorem superLeafLoadSubPageByHash_of_failed (empty : superLeaf.cached (subPageIndex key) = none)
    (failed : (allocateBlock dm.allocator).1 = invalidBlockId) :
    superLeafLoadSubPageByHash dm superLeaf key = (none, dm, superLeaf) := by
  unfold superLeafLoadSubPageByHash
  simp only [empty, (wf.backed _).mpr empty, if_true, failed, allocateBlock_of_invalid failed]

theorem superLeafLoadSubPageByHash_of_allocated
    (empty : superLeaf.cached (subPageIndex key) = none)
    (issued : (allocateBlock dm.allocator).1 ≠ invalidBlockId) :
    superLeafLoadSubPageByHash dm superLeaf key =
      (some subPageCreate, { dm with allocator := (allocateBlock dm.allocator).2 },
        { (superLeaf.setCached (subPageIndex key) (some subPageCreate)).setDirty
            (subPageIndex key) true with
          subPageBlocks :=
            superLeaf.subPageBlocks.set (subPageIndex key) (allocateBlock dm.allocator).1,
          activeSubPages := if superLeaf.activeSubPages ≤ subPageIndex key
            then subPageIndex key + 1 else superLeaf.activeSubPages }) := by
  unfold superLeafLoadSubPageByHash
  simp only [empty, (wf.backed _).mpr empty, if_true, issued, if_false]

end Load

section Calls

variable {superLeaf : SuperLeaf} (dm : DiskManager) (key : Int)

theorem superLeafSearchHashed_eq (wf : superLeaf.SlotsWf) :
    superLeafSearchHashed dm superLeaf key = ((superLeaf.lookup key).getD (-1), dm, superLeaf) := by
  unfold superLeafSearchHashed
  by_cases blocked : superLeaf.block (subPageIndex key) = invalidBlockId
  · rw [if_pos blocked, SuperLeaf.lookup,
      SuperLeaf.pageAt_of_uncached ((wf.backed _).mp blocked)]
    rfl
  · obtain ⟨page, cachedPage, sorted⟩ := wf.cached_of_block blocked
    rw [if_neg blocked, superLeafLoadSubPageByHash_cached dm cachedPage, SuperLeaf.lookup,
      SuperLeaf.pageAt_of_cached cachedPage, ← sorted.subPageSearch_eq]

section InsertStep

variable {dm₀ : DiskManager} {superLeaf₀ : SuperLeaf} {page : SubPage} (data : Int)

theorem superLeafInsertHashed_of_room
    (loaded : superLeafLoadSubPageByHash dm₀ superLeaf₀ key = (some page, dm, superLeaf))
    (sorted : page.Sorted) (room : page.entries < entriesPerSubPage) :
    superLeafInsertHashed dm₀ superLeaf₀ key data =
      (0, dm, { (superLeaf.setCached (subPageIndex key)
        (some (subPageInsert page key data).2)).setDirty (subPageIndex key) true with
          totalEntries := superLeaf.totalEntries + 1 }) := by
  have inserted : subPageInsert page key data = (0, (subPageInsert page key data).2) :=
    Prod.ext (sorted.subPageInsert_of_room room key data).1 rfl
  rw [superLeafInsertHashed, loaded]
  simp only [subPageIsFull, decide_eq_false (Nat.not_le.mpr room), Bool.false_eq_true, if_false]
  rw [inserted]
  rfl

theorem superLeafInsertHashed_of_full
    (loaded : superLeafLoadSubPageByHash dm₀ superLeaf₀ key = (some page, dm, superLeaf))
    (full : entriesPerSubPage ≤ page.entries) :
    superLeafInsertHashed dm₀ superLeaf₀ key data =
      (if superLeafIsFull superLeaf then -2 else -1, dm, superLeaf) := by
  rw [superLeafInsertHashed, loaded]
  simp only [subPageIsFull, decide_eq_true full, if_true]

theorem superLeafInsertHashed_of_none
    (loaded : superLeafLoadSubPageByHash dm₀ superLeaf₀ key = (none, dm, superLeaf)) :
    superLeafInsertHashed dm₀ superLeaf₀ key data = (-1, dm, superLeaf) := by
  rw [superLeafInsertHashed, loaded]

end InsertStep

theorem hashedWrite_spec {base : SuperLeaf} (wf : base.HashedWf) {old : SubPage}
    (cachedOld : base.cached (subPageIndex key) = some old)
    (room : old.entries < entriesPerSubPage) (data : Int) :
    let final : SuperLeaf := { (base.setCached (subPageIndex key)
      (some (subPageInsert old key data).2)).setDirty (subPageIndex key) true with
        totalEntries := base.totalEntries + 1 }
    final.HashedWf ∧ final.pageAt (subPageIndex key) = sortedInsert key data old.pairs ∧
      ∀ j, j ≠ subPageIndex key → final.pageAt j = base.pageAt j := by
  intro final
  obtain ⟨-, sortedAfter, pairsAfter⟩ :=
    (wf.sorted _ old cachedOld).subPageInsert_of_room room key data
  have written : final.pageAt (subPageIndex key) = sortedInsert key data old.pairs := by
    show (base.setCached _ _).pageAt _ = _
    rw [SuperLeaf.pageAt_of_cached (SuperLeaf.cached_setCached_self
      (SuperLeaf.lt_length_of_cached cachedOld) _), pairsAfter]
  have others : ∀ j, j ≠ subPageIndex key → final.pageAt j = base.pageAt j := fun j apart =>
    SuperLeaf.pageAt_setCached_of_ne (Ne.symm apart) _
  refine ⟨⟨wf.setPage cachedOld sortedAfter _ _, placed_of_slot wf.placed others ?_⟩, written,
    others⟩
  rw [written, SuperLeaf.pageAt_of_cached cachedOld]
  exact fun pair member => mem_sortedInsert member

theorem superLeafInsertHashed_spec (wf : superLeaf.HashedWf) (data : Int) :
    (superLeafInsertHashed dm superLeaf key data).2.2.HashedWf ∧
      ((superLeafInsertHashed dm superLeaf key data).1 = 0 ∧
          (superLeafInsertHashed dm superLeaf key data).2.2.pageAt (subPageIndex key) =
            sortedInsert key data (superLeaf.pageAt (subPageIndex key)) ∧
          (∀ j, j ≠ subPageIndex key →
            (superLeafInsertHashed dm superLeaf key data).2.2.pageAt j = superLeaf.pageAt j) ∨
        ((superLeafInsertHashed dm superLeaf key data).1 = -1 ∨
            (superLeafInsertHashed dm superLeaf key data).1 = -2) ∧
          (superLeafInsertHashed dm superLeaf key data).2.2 = superLeaf ∧
          (entriesPerSubPage ≤ (superLeaf.pageAt (subPageIndex key)).length ∨
            (allocateBlock dm.allocator).1 = invalidBlockId)) := by
  cases cachedSlot : superLeaf.cached (subPageIndex key) with
  | some page =>
      -- the key's sub-page is cached: it takes the binding or it is full
      have sorted := wf.sorted _ page cachedSlot
      have loaded := superLeafLoadSubPageByHash_cached dm cachedSlot
      rw [SuperLeaf.pageAt_of_cached cachedSlot]
      by_cases room : page.entries < entriesPerSubPage
      · rw [superLeafInsertHashed_of_room dm key data loaded sorted room]
        obtain ⟨wf', written, others⟩ := hashedWrite_spec key wf cachedSlot room data
        exact ⟨wf', .inl ⟨rfl, written, others⟩⟩
      · rw [superLeafInsertHashed_of_full dm key data loaded (Nat.not_lt.mp room)]
        refine ⟨wf, .inr ⟨?_, rfl, .inl (sorted.length_pairs ▸ Nat.not_lt.mp room)⟩⟩
        split
        · exact .inr rfl
        · exact .inl rfl
  | none =>
      -- the key's slot is empty: it takes a fresh sub-page if a block is free
      by_cases refused : (allocateBlock dm.allocator).1 = invalidBlockId
      · rw [superLeafInsertHashed_of_none dm key data
          (superLeafLoadSubPageByHash_of_failed wf.toSlotsWf dm cachedSlot refused)]
        exact ⟨wf, .inr ⟨.inl rfl, rfl, .inr refused⟩⟩
      · have inside := subPageIndex_lt key
        have insideCached := wf.cachedSized ▸ inside
        let opened : SuperLeaf := { (superLeaf.setCached (subPageIndex key)
          (some subPageCreate)).setDirty (subPageIndex key) true with
            subPageBlocks :=
              superLeaf.subPageBlocks.set (subPageIndex key) (allocateBlock dm.allocator).1,
            activeSubPages := if superLeaf.activeSubPages ≤ subPageIndex key
              then subPageIndex key + 1 else superLeaf.activeSubPages }
        have cachedFresh : opened.cached (subPageIndex key) = some subPageCreate :=
          SuperLeaf.cached_setCached_self insideCached _
        have openedOthers :
            ∀ j, j ≠ subPageIndex key → opened.pageAt j = superLeaf.pageAt j :=
          fun j apart => SuperLeaf.pageAt_setCached_of_ne (Ne.symm apart) _
        have openedWf : opened.HashedWf := by
          refine ⟨wf.toSlotsWf.allocate inside refused _,
            placed_of_slot wf.placed openedOthers ?_⟩
          rw [SuperLeaf.pageAt_of_cached cachedFresh]
          exact fun pair absent => absurd absent (List.not_mem_nil _)
        rw [superLeafInsertHashed_of_room _ key data (superLeafLoadSubPageByHash_of_allocated
          wf.toSlotsWf dm cachedSlot refused) subPageCreate_sorted (by decide)]
        obtain ⟨wf', written, others⟩ := hashedWrite_spec key openedWf cachedFresh
          (by decide) data
        refine ⟨wf', .inl ⟨rfl, ?_, fun j apart =>
          (others j apart).trans (openedOthers j apart)⟩⟩
        rw [written, SuperLeaf.pageAt_of_uncached cachedSlot]
        rfl

theorem superLeafDeleteHashed_of_cached
    (blocked : superLeaf.block (subPageIndex key) ≠ invalidBlockId) {page : SubPage}
    (cachedPage : superLeaf.cached (subPageIndex key) = some page) :
    superLeafDeleteHashed dm superLeaf key =
      if (subPageDelete page key).1 = 0 then
        (0, dm, { (superLeaf.setCached (subPageIndex key)
          (some (subPageDelete page key).2)).setDirty (subPageIndex key) true with
            totalEntries := superLeaf.totalEntries - 1 })
      else (-1, dm, superLeaf.setCached (subPageIndex key) (some (subPageDelete page key).2)) := by
  rw [superLeafDeleteHashed, if_neg blocked, superLeafLoadSubPageByHash_cached dm cachedPage]
  rfl

theorem superLeafDeleteHashed_spec (wf : superLeaf.HashedWf) :
    (superLeafDeleteHashed dm superLeaf key).2.2.HashedWf ∧
      (superLeafDeleteHashed dm superLeaf key).1 =
        (if key ∈ (superLeaf.pageAt (subPageIndex key)).map Prod.fst then 0 else -1) ∧
      (superLeafDeleteHashed dm superLeaf key).2.2.pageAt (subPageIndex key) =
        (superLeaf.pageAt (subPageIndex key)).filter (fun pair => pair.1 ≠ key) ∧
      ∀ j, j ≠ subPageIndex key →
        (superLeafDeleteHashed dm superLeaf key).2.2.pageAt j = superLeaf.pageAt j := by
  by_cases blocked : superLeaf.block (subPageIndex key) = invalidBlockId
  · -- no block: the slot holds nothing
    rw [superLeafDeleteHashed, if_pos blocked,
      SuperLeaf.pageAt_of_uncached ((wf.backed _).mp blocked)]
    exact ⟨wf, rfl, rfl, fun _ _ => rfl⟩
  · obtain ⟨page, cachedPage, sorted⟩ := wf.cached_of_block blocked
    obtain ⟨deleted, sortedAfter, pairsAfter⟩ := sorted.subPageDelete_eq key
    rw [superLeafDeleteHashed_of_cached dm key blocked cachedPage,
      SuperLeaf.pageAt_of_cached cachedPage]
    let emptied := superLeaf.setCached (subPageIndex key) (some (subPageDelete page key).2)
    have written : emptied.pageAt (subPageIndex key) = page.pairs.filter (·.1 ≠ key) := by
      rw [SuperLeaf.pageAt_of_cached (SuperLeaf.cached_setCached_self
        (SuperLeaf.lt_length_of_cached cachedPage) _), pairsAfter]
    have others : ∀ j, j ≠ subPageIndex key → emptied.pageAt j = superLeaf.pageAt j :=
      fun j apart => SuperLeaf.pageAt_setCached_of_ne (Ne.symm apart) _
    have placed := placed_of_slot wf.placed others (by
      rw [written, ← SuperLeaf.pageAt_of_cached cachedPage]
      exact fun pair member => .inr (List.mem_of_mem_filter member))
    have emptiedWf : emptied.SlotsWf := wf.toSlotsWf.setCachedPage cachedPage sortedAfter
    by_cases present : key ∈ page.pairs.map Prod.fst
    · rw [if_pos present] at deleted
      rw [if_pos deleted, if_pos present]
      exact ⟨⟨(emptiedWf.setDirty _ true).withTotal _, placed⟩, rfl, written, others⟩
    · rw [if_neg present] at deleted
      rw [if_neg (by rw [deleted]; decide), if_neg present]
      exact ⟨⟨emptiedWf, placed⟩, rfl, written, others⟩

theorem superLeafFlushDirty_hashed (wf : superLeaf.HashedWf) :
    (superLeafFlushDirty dm superLeaf).2.2.HashedWf ∧
      ∀ j, (superLeafFlushDirty dm superLeaf).2.2.pageAt j = superLeaf.pageAt j := by
  have kept := superLeafFlushDirty_keeps wf.toSlotsWf dm
  generalize (superLeafFlushDirty dm superLeaf).2.2 = after at kept ⊢
  exact ⟨⟨kept.wf, fun i pair member => wf.placed i pair (kept.pages i ▸ member)⟩,
    kept.pages⟩

end Calls

/-- The super-leaves that `super_leaf_create` and then hashed inserts, searches and deletes
and flushes reach, whatever the disk manager at each call. -/
inductive SuperLeaf.HashedReachable : SuperLeaf → Prop
  | create : superLeafCreate.HashedReachable
  | insert {superLeaf : SuperLeaf} (dm : DiskManager) (key data : Int) :
      superLeaf.HashedReachable →
        (superLeafInsertHashed dm superLeaf key data).2.2.HashedReachable
  | search {superLeaf : SuperLeaf} (dm : DiskManager) (key : Int) :
      superLeaf.HashedReachable → (superLeafSearchHashed dm superLeaf key).2.2.HashedReachable
  | delete {superLeaf : SuperLeaf} (dm : DiskManager) (key : Int) :
      superLeaf.HashedReachable → (superLeafDeleteHashed dm superLeaf key).2.2.HashedReachable
  | flush {superLeaf : SuperLeaf} (dm : DiskManager) :
      superLeaf.HashedReachable → (superLeafFlushDirty dm superLeaf).2.2.HashedReachable

theorem superLeafCreate_hashedWf : superLeafCreate.HashedWf :=
  ⟨superLeafCreate_slotsWf, fun i pair member => by
    rw [SuperLeaf.pageAt_of_uncached (superLeafCreate_uncached i)] at member
    cases member⟩

theorem SuperLeaf.HashedReachable.wf {superLeaf : SuperLeaf}
    (reachable : superLeaf.HashedReachable) : superLeaf.HashedWf := by
  induction reachable with
  | create => exact superLeafCreate_hashedWf
  | insert dm key data _ wf => exact (superLeafInsertHashed_spec dm key wf data).1
  | search dm key _ wf => rw [superLeafSearchHashed_eq dm key wf.toSlotsWf]; exact wf
  | delete dm key _ wf => exact (superLeafDeleteHashed_spec dm key wf).1
  | flush dm _ wf => exact (superLeafFlushDirty_hashed dm wf).1

/-- On every super-leaf that `super_leaf_create` and then hashed inserts, searches, deletes and
flushes reach, with any disk manager at each call, the calls act on `SuperLeaf.lookup` as on a
map. The search returns the key's binding, or `-1`, and changes nothing. An insert either
returns `0` and binds the key, or returns `-1` or `-2` and changes nothing, when the key's
sub-page already holds `ENTRIES_PER_SUB_PAGE` bindings or the allocator refused its block. A
delete returns `0` exactly when the key has a binding, and drops it. A flush changes no
binding. -/
theorem superLeafHashed_refines_map {superLeaf : SuperLeaf}
    (reachable : superLeaf.HashedReachable) (dm : DiskManager) (key data : Int) :
    superLeafSearchHashed dm superLeaf key = ((superLeaf.lookup key).getD (-1), dm, superLeaf) ∧
      ((superLeafInsertHashed dm superLeaf key data).1 = 0 ∧
          (∀ k, (superLeafInsertHashed dm superLeaf key data).2.2.lookup k =
            if k = key then some data else superLeaf.lookup k) ∨
        ((superLeafInsertHashed dm superLeaf key data).1 = -1 ∨
            (superLeafInsertHashed dm superLeaf key data).1 = -2) ∧
          (superLeafInsertHashed dm superLeaf key data).2.2 = superLeaf ∧
          (entriesPerSubPage ≤ (superLeaf.pageAt (subPageIndex key)).length ∨
            (allocateBlock dm.allocator).1 = invalidBlockId)) ∧
      (superLeafDeleteHashed dm superLeaf key).1 =
        (if (superLeaf.lookup key).isSome then 0 else -1) ∧
      (∀ k, (superLeafDeleteHashed dm superLeaf key).2.2.lookup k =
        if k = key then none else superLeaf.lookup k) ∧
      ∀ k, (superLeafFlushDirty dm superLeaf).2.2.lookup k = superLeaf.lookup k := by
  have wf := reachable.wf
  obtain ⟨-, deleted, emptied, untouched⟩ := superLeafDeleteHashed_spec dm key wf
  refine ⟨superLeafSearchHashed_eq dm key wf.toSlotsWf, ?_, ?_,
    SuperLeaf.lookup_of_slot untouched fun k => by rw [emptied, lookup_filter_key],
    fun k => by rw [SuperLeaf.lookup, (superLeafFlushDirty_hashed dm wf).2]; rfl⟩
  · rcases (superLeafInsertHashed_spec dm key wf data).2 with ⟨done, written, others⟩ | refused
    · exact .inl ⟨done, SuperLeaf.lookup_of_slot others fun k => by
        rw [written, lookup_sortedInsert]⟩
    · exact .inr refused
  · rw [deleted]
    exact if_congr (mem_map_fst_iff_lookup _ _) rfl rfl

theorem superLeafHashed_refines_map_after_one_insert :
    SuperLeaf.HashedReachable
        (superLeafInsertHashed (diskManagerInit 8192 false) superLeafCreate 5 50).2.2 ∧
      (superLeafSearchHashed (diskManagerInit 8192 false)
        (superLeafInsertHashed (diskManagerInit 8192 false) superLeafCreate 5 50).2.2 5).1 = 50 :=
  have reachable := SuperLeaf.HashedReachable.insert (diskManagerInit 8192 false) 5 50 .create
  ⟨reachable, by rw [(superLeafHashed_refines_map reachable _ 5 0).1]; decide⟩

end ZipCache.SsdTier
