import ZipCache.SsdTier.SlotPages

/-!
# The legacy super-leaf interface

`super_leaf_insert` and `super_leaf_search` are kept "for compatibility" beside the hashed
operations, and `super_leaf_test.c` exercises them. They ignore the key's hash. The insert
walks the sixteen slots in order, loading each sub-page (`super_leaf_load_sub_page`
allocates a block for an empty slot), and puts the binding into the first sub-page that is
not full. The search walks the slots below `active_sub_pages` and returns the first answer
other than `-1`.

On every super-leaf that `super_leaf_create` and then legacy inserts and searches reach, the
allocated slots are a prefix of the sixteen, each holds a sorted sub-page, and the two
calls act on the list of the slots' bindings as a first-fit put and a first-answer lookup.
So an insert of a key that a full sub-page already holds does not replace its binding: the
new binding lands in a later sub-page, and the search keeps returning the old value.
-/

namespace ZipCache.SsdTier

/-- `super_leaf_load_sub_page(dm, super_leaf, sub_page_idx)`: the cached sub-page of a slot;
else a fresh one in a newly allocated block, marked dirty and counted in
`active_sub_pages`; else the block's image read from disk. -/
def superLeafLoadSubPage (dm : DiskManager) (superLeaf : SuperLeaf) (i : Nat) :
    Option SubPage × DiskManager × SuperLeaf :=
  if subPagesPerSuperLeaf ≤ i then (none, dm, superLeaf)
  else
    match superLeaf.cached i with
    | some subPage => (some subPage, dm, superLeaf)
    | none =>
        if superLeaf.block i = invalidBlockId then
          let (blockId, allocator) := allocateBlock dm.allocator
          let dm := { dm with allocator := allocator }
          if blockId = invalidBlockId then (none, dm, superLeaf)
          else
            (some subPageCreate, dm,
              { (superLeaf.setCached i (some subPageCreate)).setDirty i true with
                subPageBlocks := superLeaf.subPageBlocks.set i blockId,
                activeSubPages := superLeaf.activeSubPages + 1 })
        else
          let loaded := diskReadSubPage dm (superLeaf.block i)
          (loaded, dm, superLeaf.setCached i loaded)

/-- The loop of `super_leaf_insert` over the slots left: the first loaded sub-page that is not
full takes the binding. -/
def superLeafInsertFrom (key data : Int) :
    List Nat → DiskManager → SuperLeaf → Int × DiskManager × SuperLeaf
  | [], dm, superLeaf => (-1, dm, superLeaf)
  | i :: rest, dm, superLeaf =>
      match superLeafLoadSubPage dm superLeaf i with
      | (none, dm, superLeaf) => superLeafInsertFrom key data rest dm superLeaf
      | (some subPage, dm, superLeaf) =>
          if !subPageIsFull subPage then
            let (result, subPage) := subPageInsert subPage key data
            let superLeaf := superLeaf.setCached i (some subPage)
            if result = 0 then
              (0, dm, { superLeaf.setDirty i true with
                totalEntries := superLeaf.totalEntries + 1 })
            else superLeafInsertFrom key data rest dm superLeaf
          else superLeafInsertFrom key data rest dm superLeaf

/-- `super_leaf_insert`: `0`, or `-1` when no sub-page had room. -/
def superLeafInsert (dm : DiskManager) (superLeaf : SuperLeaf) (key data : Int) :
    Int × DiskManager × SuperLeaf :=
  superLeafInsertFrom key data (List.range subPagesPerSuperLeaf) dm superLeaf

/-- The loop of `super_leaf_search` over the slots left, while they lie below
`active_sub_pages`: slots without a block are skipped, and the first answer other than `-1`
is returned. -/
def superLeafSearchFrom (key : Int) :
    List Nat → DiskManager → SuperLeaf → Int × DiskManager × SuperLeaf
  | [], dm, superLeaf => (-1, dm, superLeaf)
  | i :: rest, dm, superLeaf =>
      if (i : Int) < superLeaf.activeSubPages then
        if superLeaf.block i = invalidBlockId then superLeafSearchFrom key rest dm superLeaf
        else
          match superLeafLoadSubPage dm superLeaf i with
          | (none, dm, superLeaf) => superLeafSearchFrom key rest dm superLeaf
          | (some subPage, dm, superLeaf) =>
              let result := subPageSearch subPage key
              if result ≠ -1 then (result, dm, superLeaf)
              else superLeafSearchFrom key rest dm superLeaf
      else (-1, dm, superLeaf)

/-- `super_leaf_search`: the value, or `-1`. Loading a sub-page may cache it. -/
def superLeafSearch (dm : DiskManager) (superLeaf : SuperLeaf) (key : Int) :
    Int × DiskManager × SuperLeaf :=
  superLeafSearchFrom key (List.range subPagesPerSuperLeaf) dm superLeaf

/-- First fit: the binding goes into the first page with room, `none` when every page is
full. -/
def firstFitPut (key data : Int) : List (List (Int × Int)) → Option (List (List (Int × Int)))
  | [] => none
  | page :: rest =>
      if page.length < entriesPerSubPage then some (sortedInsert key data page :: rest)
      else (firstFitPut key data rest).map (page :: ·)

/-- What a page answers for a key: its binding, or `-1`. -/
def pageAnswer (key : Int) (page : List (Int × Int)) : Int :=
  (page.lookup key).getD (-1)

/-- First answer: the answer of the first page that answers something other than `-1`. -/
def firstAnswer (pages : List (List (Int × Int))) (key : Int) : Int :=
  ((pages.map (pageAnswer key)).find? (· ≠ -1)).getD (-1)

/-- What every legacy super-leaf keeps beside `SlotsWf`: the cached slots are a prefix, counted
by `active_sub_pages`. -/
structure SuperLeaf.LegacyWf (superLeaf : SuperLeaf) extends superLeaf.SlotsWf : Prop where
  activeNonneg : 0 ≤ superLeaf.activeSubPages
  counted : ∀ i, (superLeaf.cached i).isSome ↔ (i : Int) < superLeaf.activeSubPages

namespace SuperLeaf.LegacyWf

variable {superLeaf : SuperLeaf} (wf : superLeaf.LegacyWf)
include wf

theorem cached_of_lt {i : Nat} (below : (i : Int) < superLeaf.activeSubPages) :
    ∃ page, superLeaf.cached i = some page ∧ page.Sorted := by
  obtain ⟨page, cachedPage⟩ := Option.isSome_iff_exists.mp ((wf.counted i).mpr below)
  exact ⟨page, cachedPage, wf.sorted i page cachedPage⟩

theorem uncached_of_le {i : Nat} (above : superLeaf.activeSubPages ≤ i) :
    superLeaf.cached i = none :=
  Option.not_isSome_iff_eq_none.mp fun cachedPage => by
    have := (wf.counted i).mp cachedPage
    omega

theorem setDirty (i : Nat) (flag : Bool) : (superLeaf.setDirty i flag).LegacyWf :=
  ⟨wf.toSlotsWf.setDirty i flag, wf.activeNonneg, wf.counted⟩

theorem withTotal (total : Int) : { superLeaf with totalEntries := total }.LegacyWf :=
  ⟨wf.toSlotsWf.withTotal total, wf.activeNonneg, wf.counted⟩

theorem setCachedPage {i : Nat} {old page : SubPage} (cachedOld : superLeaf.cached i = some old)
    (sorted : page.Sorted) : (superLeaf.setCached i (some page)).LegacyWf :=
  ⟨wf.toSlotsWf.setCachedPage cachedOld sorted, wf.activeNonneg, fun j => by
    rw [SuperLeaf.isSome_setCached_of_cached cachedOld]
    exact wf.counted j⟩

theorem setPage {i : Nat} {old page : SubPage} (cachedOld : superLeaf.cached i = some old)
    (sorted : page.Sorted) (flag : Bool) (total : Int) :
    { (superLeaf.setCached i (some page)).setDirty i flag with totalEntries := total }.LegacyWf :=
  ((wf.setCachedPage cachedOld sorted).setDirty i flag).withTotal total

theorem allocate {i : Nat} (atEnd : (i : Int) = superLeaf.activeSubPages)
    (inside : i < subPagesPerSuperLeaf) {blockId : BitVec 32}
    (issued : blockId ≠ invalidBlockId) :
    { (superLeaf.setCached i (some subPageCreate)).setDirty i true with
      subPageBlocks := superLeaf.subPageBlocks.set i blockId,
      activeSubPages := superLeaf.activeSubPages + 1 }.LegacyWf := by
  refine ⟨wf.toSlotsWf.allocate inside issued _,
    show 0 ≤ superLeaf.activeSubPages + 1 by have := wf.activeNonneg; omega, fun j => ?_⟩
  show ((superLeaf.setCached i (some subPageCreate)).cached j).isSome ↔
    (j : Int) < superLeaf.activeSubPages + 1
  rw [SuperLeaf.cached_setCached_inside (wf.cachedSized ▸ inside)]
  by_cases here : i = j
  · subst here
    simp only [if_true, Option.isSome_some, true_iff]
    omega
  · rw [if_neg here, wf.counted j]
    have : (j : Int) ≠ i := fun same => here (Int.ofNat_inj.mp same).symm
    omega

end SuperLeaf.LegacyWf

section Load

variable {superLeaf : SuperLeaf} (wf : superLeaf.LegacyWf) (dm : DiskManager) {i : Nat}
include wf

theorem superLeafLoadSubPage_of_cached {page : SubPage}
    (cachedPage : superLeaf.cached i = some page) :
    superLeafLoadSubPage dm superLeaf i = (some page, dm, superLeaf) := by
  unfold superLeafLoadSubPage
  rw [if_neg (Nat.not_le.mpr (wf.lt_of_cached cachedPage))]
  simp only [cachedPage]

theorem superLeafLoadSubPage_of_failed (empty : superLeaf.cached i = none)
    (failed : (allocateBlock dm.allocator).1 = invalidBlockId) :
    superLeafLoadSubPage dm superLeaf i = (none, dm, superLeaf) := by
  unfold superLeafLoadSubPage
  by_cases outside : subPagesPerSuperLeaf ≤ i
  · rw [if_pos outside]
  · rw [if_neg outside]
    simp only [empty, (wf.backed i).mpr empty, if_true, failed, allocateBlock_of_invalid failed]

theorem superLeafLoadSubPage_of_allocated (inside : i < subPagesPerSuperLeaf)
    (empty : superLeaf.cached i = none)
    (issued : (allocateBlock dm.allocator).1 ≠ invalidBlockId) :
    superLeafLoadSubPage dm superLeaf i =
      (some subPageCreate, { dm with allocator := (allocateBlock dm.allocator).2 },
        { (superLeaf.setCached i (some subPageCreate)).setDirty i true with
          subPageBlocks := superLeaf.subPageBlocks.set i (allocateBlock dm.allocator).1,
          activeSubPages := superLeaf.activeSubPages + 1 }) := by
  unfold superLeafLoadSubPage
  rw [if_neg (Nat.not_le.mpr inside)]
  simp only [empty, (wf.backed i).mpr empty, if_true, issued, if_false]

end Load

theorem firstAnswer_cons (page : List (Int × Int)) (rest : List (List (Int × Int))) (key : Int) :
    firstAnswer (page :: rest) key =
      if pageAnswer key page ≠ -1 then pageAnswer key page else firstAnswer rest key := by
  by_cases answered : pageAnswer key page = -1 <;> simp [firstAnswer, List.find?_cons, answered]

theorem firstAnswer_of_silent {key : Int} :
    ∀ {pages : List (List (Int × Int))}, (∀ page ∈ pages, pageAnswer key page = -1) →
      firstAnswer pages key = -1
  | [], _ => rfl
  | page :: rest, silent => by
      rw [firstAnswer_cons, if_neg (not_not.mpr (silent page (List.mem_cons_self _ _))),
        firstAnswer_of_silent fun other member => silent other (List.mem_cons_of_mem _ member)]

theorem firstFitPut_cons_of_room {key data : Int} {page : List (Int × Int)}
    (room : page.length < entriesPerSubPage) (rest : List (List (Int × Int))) :
    firstFitPut key data (page :: rest) = some (sortedInsert key data page :: rest) := by
  rw [firstFitPut, if_pos room]

theorem firstFitPut_cons_of_full {key data : Int} {page : List (Int × Int)}
    (full : entriesPerSubPage ≤ page.length) (rest : List (List (Int × Int))) :
    firstFitPut key data (page :: rest) = (firstFitPut key data rest).map (page :: ·) := by
  rw [firstFitPut, if_neg (Nat.not_lt.mpr full)]

theorem superLeafSearchFrom_eq {superLeaf : SuperLeaf} (wf : superLeaf.LegacyWf)
    (dm : DiskManager) (key : Int) :
    ∀ ids : List Nat, ids.Pairwise (· < ·) →
      superLeafSearchFrom key ids dm superLeaf =
        (firstAnswer (ids.map superLeaf.pageAt) key, dm, superLeaf)
  | [], _ => rfl
  | i :: rest, ascending => by
      have later := (List.pairwise_cons.mp ascending).2
      rw [superLeafSearchFrom]
      by_cases below : (i : Int) < superLeaf.activeSubPages
      · obtain ⟨page, cachedPage, sorted⟩ := wf.cached_of_lt below
        have answer : subPageSearch page key = pageAnswer key page.pairs :=
          sorted.subPageSearch_eq key
        rw [if_pos below, if_neg (wf.block_ne_of_cached cachedPage),
          superLeafLoadSubPage_of_cached wf dm cachedPage]
        simp only [List.map_cons, firstAnswer_cons, SuperLeaf.pageAt_of_cached cachedPage, answer]
        split_ifs
        · rfl
        · exact superLeafSearchFrom_eq wf dm key rest later
      · rw [if_neg below, List.map_cons, ← List.map_cons, firstAnswer_of_silent]
        intro page member
        obtain ⟨j, slot, rfl⟩ := List.mem_map.mp member
        have atLeast : i ≤ j := by
          rcases List.mem_cons.mp slot with rfl | inRest
          · exact Nat.le_refl _
          · exact Nat.le_of_lt ((List.pairwise_cons.mp ascending).1 j inRest)
        rw [SuperLeaf.pageAt_of_uncached (wf.uncached_of_le (by omega))]
        rfl

section InsertStep

variable {key data : Int} {i : Nat} {rest : List Nat} {dm₀ dm : DiskManager}
  {superLeaf₀ superLeaf : SuperLeaf} {page : SubPage}

theorem superLeafInsertFrom_cons_of_room
    (loaded : superLeafLoadSubPage dm₀ superLeaf₀ i = (some page, dm, superLeaf))
    (sorted : page.Sorted) (room : page.entries < entriesPerSubPage) :
    superLeafInsertFrom key data (i :: rest) dm₀ superLeaf₀ =
      (0, dm, { (superLeaf.setCached i (some (subPageInsert page key data).2)).setDirty i true with
        totalEntries := superLeaf.totalEntries + 1 }) := by
  have inserted : subPageInsert page key data = (0, (subPageInsert page key data).2) :=
    Prod.ext (sorted.subPageInsert_of_room room key data).1 rfl
  rw [superLeafInsertFrom, loaded]
  simp only [subPageIsFull, decide_eq_false (Nat.not_le.mpr room), Bool.not_false, if_true]
  rw [inserted]
  rfl

theorem superLeafInsertFrom_cons_of_full
    (loaded : superLeafLoadSubPage dm₀ superLeaf₀ i = (some page, dm, superLeaf))
    (full : entriesPerSubPage ≤ page.entries) :
    superLeafInsertFrom key data (i :: rest) dm₀ superLeaf₀ =
      superLeafInsertFrom key data rest dm superLeaf := by
  rw [superLeafInsertFrom, loaded]
  simp [subPageIsFull, full]

theorem superLeafInsertFrom_cons_of_none
    (loaded : superLeafLoadSubPage dm₀ superLeaf₀ i = (none, dm, superLeaf)) :
    superLeafInsertFrom key data (i :: rest) dm₀ superLeaf₀ =
      superLeafInsertFrom key data rest dm superLeaf := by
  rw [superLeafInsertFrom, loaded]

end InsertStep

theorem superLeafInsertFrom_of_failed {superLeaf : SuperLeaf} (wf : superLeaf.LegacyWf)
    {dm : DiskManager} (failed : (allocateBlock dm.allocator).1 = invalidBlockId)
    (key data : Int) :
    ∀ ids : List Nat, (∀ j ∈ ids, superLeaf.cached j = none) →
      superLeafInsertFrom key data ids dm superLeaf = (-1, dm, superLeaf)
  | [], _ => rfl
  | i :: rest, empty => by
      rw [superLeafInsertFrom_cons_of_none (superLeafLoadSubPage_of_failed wf dm
        (empty i (List.mem_cons_self _ _)) failed)]
      exact superLeafInsertFrom_of_failed wf failed key data rest
        fun j member => empty j (List.mem_cons_of_mem _ member)

theorem legacyWrite_spec {superLeaf base : SuperLeaf} (baseWf : base.LegacyWf) {i : Nat}
    {ids : List Nat} (fresh : ∀ j ∈ ids, j ≠ i) {old : SubPage}
    (cachedOld : base.cached i = some old) (room : old.entries < entriesPerSubPage)
    (frame : ∀ j, j ≠ i → base.pageAt j = superLeaf.pageAt j)
    (same : old.pairs = superLeaf.pageAt i) (key data : Int) :
    let final : SuperLeaf := { (base.setCached i (some (subPageInsert old key data).2)).setDirty
      i true with totalEntries := base.totalEntries + 1 }
    final.LegacyWf ∧ (∀ j, j ≠ i → final.pageAt j = superLeaf.pageAt j) ∧
      firstFitPut key data (superLeaf.pageAt i :: ids.map superLeaf.pageAt) =
        some (final.pageAt i :: ids.map final.pageAt) := by
  intro final
  have sorted := baseWf.sorted i old cachedOld
  obtain ⟨-, sortedAfter, pairsAfter⟩ := sorted.subPageInsert_of_room room key data
  have insideCached := SuperLeaf.lt_length_of_cached cachedOld
  have others : ∀ j, j ≠ i → final.pageAt j = superLeaf.pageAt j := fun j apart =>
    (SuperLeaf.pageAt_setCached_of_ne (Ne.symm apart) _).trans (frame j apart)
  have roomy : (superLeaf.pageAt i).length < entriesPerSubPage := by
    rw [← same, sorted.length_pairs]
    exact room
  have written : final.pageAt i = sortedInsert key data (superLeaf.pageAt i) := by
    show (base.setCached i _).pageAt i = _
    rw [SuperLeaf.pageAt_of_cached (SuperLeaf.cached_setCached_self insideCached _), pairsAfter,
      same]
  refine ⟨baseWf.setPage cachedOld sortedAfter _ _, others, ?_⟩
  rw [firstFitPut_cons_of_room roomy, written,
    List.map_congr_left fun j member => others j (fresh j member)]

theorem superLeafInsertFrom_spec (key data : Int) (dm : DiskManager) :
    ∀ {n i : Nat} {superLeaf superLeaf' : SuperLeaf} {result : Int} {dm' : DiskManager},
      superLeaf.LegacyWf → i + n = subPagesPerSuperLeaf →
      (i : Int) ≤ superLeaf.activeSubPages →
      superLeafInsertFrom key data (List.range' i n) dm superLeaf = (result, dm', superLeaf') →
      superLeaf'.LegacyWf ∧ (∀ j < i, superLeaf'.pageAt j = superLeaf.pageAt j) ∧
        (result = 0 ∧ firstFitPut key data ((List.range' i n).map superLeaf.pageAt) =
            some ((List.range' i n).map superLeaf'.pageAt) ∨
          result = -1 ∧ superLeaf' = superLeaf ∧
            (firstFitPut key data ((List.range' i n).map superLeaf.pageAt) = none ∨
              (allocateBlock dm.allocator).1 = invalidBlockId)) := by
  intro n
  induction n with
  | zero =>
      intro i superLeaf superLeaf' result dm' wf _ _ done
      cases done
      exact ⟨wf, fun _ _ => rfl, .inr ⟨rfl, rfl, .inl rfl⟩⟩
  | succ n inductionHypothesis =>
      intro i superLeaf superLeaf' result dm' wf sized allocated done
      have inside : i < subPagesPerSuperLeaf := by omega
      have fresh : ∀ j ∈ List.range' (i + 1) n, j ≠ i := fun j member => by
        rw [List.mem_range'_1] at member
        omega
      rw [List.range'_succ] at done ⊢
      simp only [List.map_cons]
      by_cases below : (i : Int) < superLeaf.activeSubPages
      · obtain ⟨page, cachedPage, sorted⟩ := wf.cached_of_lt below
        have loaded := superLeafLoadSubPage_of_cached wf dm cachedPage
        by_cases room : page.entries < entriesPerSubPage
        · -- slot `i` has room: it takes the binding
          rw [superLeafInsertFrom_cons_of_room loaded sorted room] at done
          cases done
          obtain ⟨wf', frame, put⟩ := legacyWrite_spec wf fresh cachedPage room (fun _ _ => rfl)
            (SuperLeaf.pageAt_of_cached cachedPage).symm key data
          exact ⟨wf', fun j lt => frame j (Nat.ne_of_lt lt), .inl ⟨rfl, put⟩⟩
        · -- slot `i` is full: the walk goes on
          rw [superLeafInsertFrom_cons_of_full loaded (Nat.not_lt.mp room)] at done
          obtain ⟨wf', frame, outcome⟩ := inductionHypothesis wf (by omega) (by omega) done
          have full : entriesPerSubPage ≤ (superLeaf.pageAt i).length := by
            rw [SuperLeaf.pageAt_of_cached cachedPage, sorted.length_pairs]
            omega
          refine ⟨wf', fun j lt => frame j (by omega), ?_⟩
          rw [firstFitPut_cons_of_full full, frame i (Nat.lt_succ_self i)]
          rcases outcome with ⟨rfl, put⟩ | ⟨rfl, rfl, failed⟩
          · exact .inl ⟨rfl, by rw [put]; rfl⟩
          · exact .inr ⟨rfl, rfl, failed.imp_left fun none => by rw [none]; rfl⟩
      · -- slot `i` is the first empty one
        have atEnd : (i : Int) = superLeaf.activeSubPages := by omega
        have empty := wf.uncached_of_le (by omega : superLeaf.activeSubPages ≤ i)
        by_cases refused : (allocateBlock dm.allocator).1 = invalidBlockId
        · have laterEmpty : ∀ j ∈ List.range' (i + 1) n, superLeaf.cached j = none :=
            fun j member => wf.uncached_of_le (by rw [List.mem_range'_1] at member; omega)
          rw [superLeafInsertFrom_cons_of_none (superLeafLoadSubPage_of_failed wf dm empty
            refused), superLeafInsertFrom_of_failed wf refused key data _ laterEmpty] at done
          cases done
          exact ⟨wf, fun _ _ => rfl, .inr ⟨rfl, rfl, .inr refused⟩⟩
        · have loaded := superLeafLoadSubPage_of_allocated wf dm inside empty refused
          have insideCached : i < superLeaf.cachedSubPages.length := wf.cachedSized ▸ inside
          rw [superLeafInsertFrom_cons_of_room loaded subPageCreate_sorted (by decide)] at done
          cases done
          obtain ⟨wf', frame, put⟩ := legacyWrite_spec (wf.allocate atEnd inside refused) fresh
            (SuperLeaf.cached_setCached_self insideCached _) (by decide)
            (fun j apart => SuperLeaf.pageAt_setCached_of_ne (Ne.symm apart) _)
            (SuperLeaf.pageAt_of_uncached empty).symm key data
          exact ⟨wf', fun j lt => frame j (Nat.ne_of_lt lt), .inl ⟨rfl, put⟩⟩

section Calls

variable {superLeaf : SuperLeaf} (wf : superLeaf.LegacyWf) (dm : DiskManager)
include wf

theorem superLeafSearch_eq (key : Int) :
    superLeafSearch dm superLeaf key = (firstAnswer superLeaf.pageMaps key, dm, superLeaf) :=
  superLeafSearchFrom_eq wf dm key _ (List.pairwise_lt_range _)

theorem superLeafInsert_spec (key data : Int) :
    (superLeafInsert dm superLeaf key data).2.2.LegacyWf ∧
      ((superLeafInsert dm superLeaf key data).1 = 0 ∧ firstFitPut key data superLeaf.pageMaps =
          some (superLeafInsert dm superLeaf key data).2.2.pageMaps ∨
        (superLeafInsert dm superLeaf key data).1 = -1 ∧
          (superLeafInsert dm superLeaf key data).2.2 = superLeaf ∧
          (firstFitPut key data superLeaf.pageMaps = none ∨
            (allocateBlock dm.allocator).1 = invalidBlockId)) := by
  have run : superLeafInsertFrom key data (List.range' 0 subPagesPerSuperLeaf) dm superLeaf =
      superLeafInsert dm superLeaf key data := by
    rw [superLeafInsert, List.range_eq_range']
  obtain ⟨wf', -, outcome⟩ :=
    superLeafInsertFrom_spec key data dm wf (Nat.zero_add _) wf.activeNonneg run
  rw [SuperLeaf.pageMaps, SuperLeaf.pageMaps, List.range_eq_range']
  exact ⟨wf', outcome⟩

end Calls

theorem superLeafFlushDirty_legacy {superLeaf : SuperLeaf} (wf : superLeaf.LegacyWf)
    (dm : DiskManager) :
    (superLeafFlushDirty dm superLeaf).2.2.LegacyWf ∧
      (superLeafFlushDirty dm superLeaf).2.2.pageMaps = superLeaf.pageMaps := by
  have kept := superLeafFlushDirty_keeps wf.toSlotsWf dm
  generalize (superLeafFlushDirty dm superLeaf).2.2 = after at kept ⊢
  refine ⟨⟨kept.wf, kept.active ▸ wf.activeNonneg, fun j => ?_⟩,
    List.map_congr_left fun j _ => kept.pages j⟩
  rw [kept.cachedSlots, kept.active]
  exact wf.counted j

/-- The super-leaves that `super_leaf_create` and then legacy inserts, legacy searches and
flushes reach, whatever the disk manager at each call. -/
inductive SuperLeaf.LegacyReachable : SuperLeaf → Prop
  | create : superLeafCreate.LegacyReachable
  | insert {superLeaf : SuperLeaf} (dm : DiskManager) (key data : Int) :
      superLeaf.LegacyReachable → (superLeafInsert dm superLeaf key data).2.2.LegacyReachable
  | search {superLeaf : SuperLeaf} (dm : DiskManager) (key : Int) :
      superLeaf.LegacyReachable → (superLeafSearch dm superLeaf key).2.2.LegacyReachable
  | flush {superLeaf : SuperLeaf} (dm : DiskManager) :
      superLeaf.LegacyReachable → (superLeafFlushDirty dm superLeaf).2.2.LegacyReachable

theorem superLeafCreate_legacyWf : superLeafCreate.LegacyWf :=
  ⟨superLeafCreate_slotsWf, Int.le_refl _, fun i => by
    rw [superLeafCreate_uncached i, Option.isSome_none, Bool.false_eq_true, false_iff]
    show ¬ (i : Int) < 0
    omega⟩

theorem SuperLeaf.LegacyReachable.wf {superLeaf : SuperLeaf}
    (reachable : superLeaf.LegacyReachable) : superLeaf.LegacyWf := by
  induction reachable with
  | create => exact superLeafCreate_legacyWf
  | insert dm key data _ wf => exact (superLeafInsert_spec wf dm key data).1
  | search dm key _ wf => rw [superLeafSearch_eq wf]; exact wf
  | flush dm _ wf => exact (superLeafFlushDirty_legacy wf dm).1

/-- On every super-leaf that `super_leaf_create` and then legacy inserts, searches and flushes
reach, with any disk manager at each call: `super_leaf_search` returns the first answer of the
slots' bindings and changes nothing, `super_leaf_flush_dirty` keeps every slot's bindings, and
`super_leaf_insert` is the first-fit put on them with status `0`, or status `-1` with nothing
changed, when every sub-page is full or the first empty slot's block was refused. -/
theorem superLeafLegacy_refines_firstFit {superLeaf : SuperLeaf}
    (reachable : superLeaf.LegacyReachable) (dm : DiskManager) (key data : Int) :
    superLeafSearch dm superLeaf key = (firstAnswer superLeaf.pageMaps key, dm, superLeaf) ∧
      (superLeafFlushDirty dm superLeaf).2.2.pageMaps = superLeaf.pageMaps ∧
      ((superLeafInsert dm superLeaf key data).1 = 0 ∧ firstFitPut key data superLeaf.pageMaps =
          some (superLeafInsert dm superLeaf key data).2.2.pageMaps ∨
        (superLeafInsert dm superLeaf key data).1 = -1 ∧
          (superLeafInsert dm superLeaf key data).2.2 = superLeaf ∧
          (firstFitPut key data superLeaf.pageMaps = none ∨
            (allocateBlock dm.allocator).1 = invalidBlockId)) :=
  ⟨superLeafSearch_eq reachable.wf dm key, (superLeafFlushDirty_legacy reachable.wf dm).2,
    (superLeafInsert_spec reachable.wf dm key data).2⟩

theorem superLeafLegacy_refines_firstFit_after_one_insert :
    (superLeafInsert (diskManagerInit 8192 false) superLeafCreate 5 50).2.2.LegacyReachable ∧
      (superLeafSearch (diskManagerInit 8192 false)
        (superLeafInsert (diskManagerInit 8192 false) superLeafCreate 5 50).2.2 5).1 = 50 :=
  have reachable := SuperLeaf.LegacyReachable.insert (diskManagerInit 8192 false) 5 50 .create
  ⟨reachable, by rw [(superLeafLegacy_refines_firstFit reachable _ 5 0).1]; decide⟩

theorem firstFitPut_append_of_full {key data : Int} {page : List (Int × Int)}
    (full : entriesPerSubPage ≤ page.length) (back : List (List (Int × Int))) :
    ∀ {front : List (List (Int × Int))},
      (∀ other ∈ front, entriesPerSubPage ≤ other.length) →
      firstFitPut key data (front ++ page :: back) =
        (firstFitPut key data back).map (front ++ page :: ·)
  | [], _ => by rw [List.nil_append, firstFitPut_cons_of_full full]; rfl
  | other :: front, frontFull => by
      rw [List.cons_append, firstFitPut_cons_of_full (frontFull other (List.mem_cons_self _ _)),
        firstFitPut_append_of_full full back fun p member =>
          frontFull p (List.mem_cons_of_mem _ member), Option.map_map]
      rfl

theorem firstAnswer_append_of_silent {key : Int} (rest : List (List (Int × Int))) :
    ∀ {front : List (List (Int × Int))}, (∀ page ∈ front, pageAnswer key page = -1) →
      firstAnswer (front ++ rest) key = firstAnswer rest key
  | [], _ => rfl
  | page :: front, silent => by
      rw [List.cons_append, firstAnswer_cons,
        if_neg (not_not.mpr (silent page (List.mem_cons_self _ _))),
        firstAnswer_append_of_silent rest fun other member =>
          silent other (List.mem_cons_of_mem _ member)]

/-- When the key's binding sits in a full sub-page, behind pages that are all full and hold no
answer for it, a legacy insert of the key does not touch that page, and the legacy search
afterwards, with any disk manager, still returns the old value. -/
theorem superLeafSearch_keeps_value_in_full_page {superLeaf : SuperLeaf}
    (reachable : superLeaf.LegacyReachable) (dm dm' : DiskManager) {key data old : Int}
    {front back : List (List (Int × Int))} {page : List (Int × Int)}
    (split : superLeaf.pageMaps = front ++ page :: back)
    (frontFull : ∀ other ∈ front, entriesPerSubPage ≤ other.length)
    (frontSilent : ∀ other ∈ front, pageAnswer key other = -1)
    (full : entriesPerSubPage ≤ page.length) (held : page.lookup key = some old)
    (valid : old ≠ -1) :
    (superLeafSearch dm' (superLeafInsert dm superLeaf key data).2.2 key).1 = old := by
  obtain ⟨wf', outcome⟩ := superLeafInsert_spec reachable.wf dm key data
  have kept : ∃ back', (superLeafInsert dm superLeaf key data).2.2.pageMaps =
      front ++ page :: back' := by
    rcases outcome with ⟨-, put⟩ | ⟨-, same, -⟩
    · rw [split, firstFitPut_append_of_full full back frontFull] at put
      obtain ⟨back', -, after⟩ := Option.map_eq_some'.mp put
      exact ⟨back', after.symm⟩
    · exact ⟨back, by rw [same, split]⟩
  obtain ⟨back', after⟩ := kept
  have answer : pageAnswer key page = old := by rw [pageAnswer, held]; rfl
  rw [superLeafSearch_eq wf', after, firstAnswer_append_of_silent _ frontSilent,
    firstAnswer_cons, answer, if_pos valid]

theorem superLeafInsert_create {dm : DiskManager}
    (issued : (allocateBlock dm.allocator).1 ≠ invalidBlockId) (key data : Int) :
    superLeafInsert dm superLeafCreate key data =
      (0, { dm with allocator := (allocateBlock dm.allocator).2 },
        slotZeroLeaf 1 1 (allocateBlock dm.allocator).1 (some (pageOf [(key, data)])) true) := by
  have loaded := superLeafLoadSubPage_of_allocated superLeafCreate_legacyWf dm
    (show 0 < subPagesPerSuperLeaf by decide) rfl issued
  show superLeafInsertFrom key data (0 :: List.range' 1 15) dm superLeafCreate = _
  rw [superLeafInsertFrom_cons_of_room loaded (pageOf_sorted List.Pairwise.nil (Nat.zero_le _))
    (by decide), subPageCreate_eq_pageOf_nil, subPageInsert_pageOf_append data
    (fun _ absent => absurd absent (List.not_mem_nil _)) (by decide)]
  rfl

theorem superLeafInsert_slotZeroLeaf (dm : DiskManager) {total : Int} {block : BitVec 32}
    {pairs : List (Int × Int)} {key : Int} (data : Int)
    (ascending : pairs.Pairwise (fun a b => a.1 < b.1)) (below : ∀ pair ∈ pairs, pair.1 < key)
    (room : pairs.length < entriesPerSubPage) :
    superLeafInsert dm (slotZeroLeaf total 1 block (some (pageOf pairs)) true) key data =
      (0, dm, slotZeroLeaf (total + 1) 1 block (some (pageOf (pairs ++ [(key, data)]))) true) := by
  have loaded : superLeafLoadSubPage dm (slotZeroLeaf total 1 block (some (pageOf pairs)) true) 0 =
      (some (pageOf pairs), dm, slotZeroLeaf total 1 block (some (pageOf pairs)) true) := rfl
  show superLeafInsertFrom key data (0 :: List.range' 1 15) dm _ = _
  rw [superLeafInsertFrom_cons_of_room loaded (pageOf_sorted ascending (Nat.le_of_lt room)) room,
    subPageInsert_pageOf_append data below room]
  rfl

theorem slotZeroLeaf_pageMaps (total active : Int) (block : BitVec 32) (page : SubPage)
    (dirty : Bool) :
    (slotZeroLeaf total active block (some page) dirty).pageMaps =
      [] ++ page.pairs :: List.replicate 15 [] := rfl

theorem legacyReachable_slotZeroLeaf {dm : DiskManager}
    (issued : (allocateBlock dm.allocator).1 ≠ invalidBlockId) {pairs : List (Int × Int)}
    (nonempty : pairs ≠ []) (ascending : pairs.Pairwise (fun a b => a.1 < b.1))
    (fits : pairs.length ≤ entriesPerSubPage) :
    (slotZeroLeaf pairs.length 1 (allocateBlock dm.allocator).1 (some (pageOf pairs))
      true).LegacyReachable := by
  induction pairs using List.reverseRecOn with
  | nil => exact absurd rfl nonempty
  | append_singleton init last inductionHypothesis =>
      obtain ⟨initAscending, -, below⟩ := List.pairwise_append.mp ascending
      by_cases first : init = []
      · subst first
        have reached := SuperLeaf.LegacyReachable.insert dm last.1 last.2 .create
        rw [superLeafInsert_create issued] at reached
        exact reached
      · have count : ((init ++ [last]).length : Int) = init.length + 1 := by simp
        have room : init.length < entriesPerSubPage := by
          rw [List.length_append, List.length_singleton] at fits
          omega
        have reached := (inductionHypothesis first initAscending (Nat.le_of_lt room)).insert
          { dm with allocator := (allocateBlock dm.allocator).2 } last.1 last.2
        rw [superLeafInsert_slotZeroLeaf _ last.2 initAscending
          (fun pair member => below pair member last (List.mem_singleton_self _)) room] at reached
        rw [count]
        exact reached

theorem superLeafSearch_keeps_value_in_full_page_of_zero :
    (slotZeroLeaf 340 1 0 (some (pageOf fullPairs)) true).LegacyReachable ∧
      (superLeafInsert { diskManagerInit 8192 false with
          allocator := (allocateBlock (diskManagerInit 8192 false).allocator).2 }
        (slotZeroLeaf 340 1 0 (some (pageOf fullPairs)) true) 0 7).1 = 0 ∧
      (superLeafSearch (diskManagerInit 8192 false)
        (superLeafInsert { diskManagerInit 8192 false with
            allocator := (allocateBlock (diskManagerInit 8192 false).allocator).2 }
          (slotZeroLeaf 340 1 0 (some (pageOf fullPairs)) true) 0 7).2.2 0).1 = 0 := by
  have ascending : fullPairs.Pairwise (fun a b => a.1 < b.1) :=
    List.pairwise_map.mpr (List.pairwise_lt_range _ |>.imp Int.ofNat_lt.mpr)
  have full : fullPairs.length = entriesPerSubPage := by simp [fullPairs]
  have reachable : (slotZeroLeaf 340 1 0 (some (pageOf fullPairs)) true).LegacyReachable := by
    have issued : (allocateBlock (diskManagerInit 8192 false).allocator).1 ≠ invalidBlockId := by
      decide
    have reached := legacyReachable_slotZeroLeaf issued
      (List.ne_nil_of_length_pos (by rw [full]; decide)) ascending full.le
    rwa [full] at reached
  have split := slotZeroLeaf_pageMaps 340 1 0 (pageOf fullPairs) true
  rw [pairs_pageOf] at split
  have accepted : (superLeafInsert { diskManagerInit 8192 false with
      allocator := (allocateBlock (diskManagerInit 8192 false).allocator).2 }
        (slotZeroLeaf 340 1 0 (some (pageOf fullPairs)) true) 0 7).1 = 0 := by
    rcases (superLeafInsert_spec reachable.wf _ 0 7).2 with
      ⟨done, -⟩ | ⟨-, -, unfit | refused⟩
    · exact done
    · rw [split, firstFitPut_append_of_full full.ge _ fun _ absent =>
        absurd absent (List.not_mem_nil _), show List.replicate 15 [] =
        [] :: List.replicate 14 ([] : List (Int × Int)) from rfl,
        firstFitPut_cons_of_room (by decide)] at unfit
      cases unfit
    · exact absurd refused (by decide)
  refine ⟨reachable, accepted, superLeafSearch_keeps_value_in_full_page reachable _ _ split
    (fun _ absent => absurd absent (List.not_mem_nil _))
    (fun _ absent => absurd absent (List.not_mem_nil _)) full.ge rfl (by decide)⟩

end ZipCache.SsdTier
