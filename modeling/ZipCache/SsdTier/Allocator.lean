import ZipCache.SsdTier.Disk

/-!
# The block allocator over whole runs

Seen through its bitmap, the allocator is the set of blocks in use. `allocate_block` scans
from `next_search_hint`, wrapping at `total_blocks`, and takes the first block outside the
set; `free_block` takes a block out of it; `allocated_blocks` counts it; and
`allocate_multiple_blocks` takes `count` blocks or gives back every block it took.

The scan visits every block once only while `next_search_hint + i` stays below `2^32`, that
is while `total_blocks ≤ 2^31`: past that the sum wraps and some blocks are never probed.
The disk manager's allocator has at most 262144 blocks.
-/

namespace ZipCache.SsdTier

theorem countP_or_eq_of_nodup {l : List Nat} {p : Nat → Bool} {x : Nat} (nodup : l.Nodup)
    (mem : x ∈ l) (fresh : p x = false) :
    l.countP (fun n => decide (n = x) || p n) = l.countP p + 1 := by
  induction l with
  | nil => cases mem
  | cons y rest inductionHypothesis =>
      obtain ⟨notInRest, restNodup⟩ := List.nodup_cons.mp nodup
      rw [List.countP_cons, List.countP_cons]
      by_cases same : y = x
      · subst same
        have unchanged : rest.countP (fun n => decide (n = y) || p n) = rest.countP p :=
          List.countP_congr fun n member => by
            simp [show n ≠ y from fun h => notInRest (h ▸ member)]
        simp [unchanged, fresh]
      · have inRest : x ∈ rest := (List.mem_cons.mp mem).resolve_left (Ne.symm same)
        simp [inductionHypothesis restNodup inRest, same]
        split <;> omega

theorem countP_and_ne_of_nodup {l : List Nat} {p : Nat → Bool} {x : Nat} (nodup : l.Nodup)
    (mem : x ∈ l) (set : p x = true) :
    l.countP (fun n => p n && !decide (n = x)) + 1 = l.countP p := by
  induction l with
  | nil => cases mem
  | cons y rest inductionHypothesis =>
      obtain ⟨notInRest, restNodup⟩ := List.nodup_cons.mp nodup
      rw [List.countP_cons, List.countP_cons]
      by_cases same : y = x
      · subst same
        have unchanged : rest.countP (fun n => p n && !decide (n = y)) = rest.countP p :=
          List.countP_congr fun n member => by
            simp [show n ≠ y from fun h => notInRest (h ▸ member)]
        simp [unchanged, set]
      · have inRest : x ∈ rest := (List.mem_cons.mp mem).resolve_left (Ne.symm same)
        rw [← inductionHypothesis restNodup inRest]
        simp [same]
        split <;> omega

namespace BlockAllocator

/-- Bit `n` of the bitmap: whether block `n` is in use. -/
def used (allocator : BlockAllocator) (n : Nat) : Bool :=
  (allocator.bitmap.getD (n / 32) 0#32).getLsbD (n % 32)

/-- The number of blocks below `total_blocks` in use. -/
def usedCount (allocator : BlockAllocator) : Nat :=
  (List.range allocator.totalBlocks.toNat).countP allocator.used

/-- The block that round `i` of `allocate_block`'s scan probes, while the sum does not wrap. -/
def probe (allocator : BlockAllocator) (i : Nat) : Nat :=
  (allocator.nextSearchHint.toNat + i) % allocator.totalBlocks.toNat

/-- What `allocate_block` does to the allocator once its scan has found a clear bit. -/
def take (allocator : BlockAllocator) (blockId : BitVec 32) : BlockAllocator :=
  { allocator.setWord blockId (allocator.word blockId ||| mask blockId) with
    allocatedBlocks := allocator.allocatedBlocks + 1#32,
    nextSearchHint := (blockId + 1#32) % allocator.totalBlocks }

/-- What every allocator of a run keeps: at most `2^31` blocks, a bitmap with a bit for each,
a hint below the total, and a counter equal to the number of blocks in use. -/
structure Wf (allocator : BlockAllocator) : Prop where
  small : allocator.totalBlocks.toNat ≤ 2147483648
  covered : allocator.totalBlocks.toNat ≤ 32 * allocator.bitmap.length
  hint : allocator.nextSearchHint.toNat < allocator.totalBlocks.toNat ∨
    allocator.totalBlocks.toNat = 0
  counted : allocator.allocatedBlocks.toNat = allocator.usedCount

@[simp]
theorem take_totalBlocks (allocator : BlockAllocator) (blockId : BitVec 32) :
    (allocator.take blockId).totalBlocks = allocator.totalBlocks := rfl

@[simp]
theorem take_bitmap_length (allocator : BlockAllocator) (blockId : BitVec 32) :
    (allocator.take blockId).bitmap.length = allocator.bitmap.length :=
  List.length_set _ _ _

theorem toNat_div_thirtyTwo (blockId : BitVec 32) :
    (blockId / 32#32).toNat = blockId.toNat / 32 :=
  BitVec.toNat_udiv

theorem toNat_mod_thirtyTwo (blockId : BitVec 32) :
    (blockId % 32#32).toNat = blockId.toNat % 32 :=
  BitVec.toNat_umod

theorem mask_eq_twoPow (blockId : BitVec 32) :
    mask blockId = BitVec.twoPow 32 (blockId.toNat % 32) := by
  rw [mask, toNat_mod_thirtyTwo]
  rfl

theorem and_twoPow_ne_zero (word : BitVec 32) {bit : Nat} (below : bit < 32) :
    (word &&& BitVec.twoPow 32 bit != 0#32) = word.getLsbD bit := by
  cases set : word.getLsbD bit
  · have cleared : word &&& BitVec.twoPow 32 bit = 0#32 := by
      apply BitVec.eq_of_getLsbD_eq
      intro i
      rw [BitVec.getLsbD_and, BitVec.getLsbD_twoPow, BitVec.getLsbD_zero]
      by_cases same : bit = i.val
      · simp [← same, set]
      · simp [same]
    simp [cleared]
  · simp only [bne_iff_ne, ne_eq]
    intro zero
    have kept := congrArg (·.getLsbD bit) zero
    simp [BitVec.getLsbD_and, BitVec.getLsbD_twoPow, set, below] at kept

theorem isSet_eq_used (allocator : BlockAllocator) (blockId : BitVec 32) :
    allocator.isSet blockId = allocator.used blockId.toNat := by
  rw [isSet, word, mask_eq_twoPow, toNat_div_thirtyTwo]
  exact and_twoPow_ne_zero _ (Nat.mod_lt _ (by decide))

theorem used_setWord (allocator : BlockAllocator) (blockId word : BitVec 32) (n : Nat)
    (inside : blockId.toNat / 32 < allocator.bitmap.length) :
    (allocator.setWord blockId word).used n =
      if n / 32 = blockId.toNat / 32 then word.getLsbD (n % 32) else allocator.used n := by
  unfold setWord used
  simp only [List.getD_eq_getElem?_getD, List.getElem?_set, toNat_div_thirtyTwo]
  split_ifs with same same' same' <;> first | rfl | omega

theorem used_take (allocator : BlockAllocator) {blockId : BitVec 32}
    (inside : blockId.toNat / 32 < allocator.bitmap.length) (n : Nat) :
    (allocator.take blockId).used n = (decide (n = blockId.toNat) || allocator.used n) := by
  show (allocator.setWord blockId _).used n = _
  rw [used_setWord _ _ _ _ inside]
  split_ifs with same
  · rw [BitVec.getLsbD_or, mask_eq_twoPow, BitVec.getLsbD_twoPow, word, toNat_div_thirtyTwo,
      ← same]
    by_cases equal : n = blockId.toNat
    · simp [equal, Nat.mod_lt]
    · have : blockId.toNat % 32 ≠ n % 32 := by omega
      simp [equal, this, used]
  · have : n ≠ blockId.toNat := fun equal => same (by rw [equal])
    simp [this]

theorem word_inside {allocator : BlockAllocator}
    (covered : allocator.totalBlocks.toNat ≤ 32 * allocator.bitmap.length) {n : Nat}
    (below : n < allocator.totalBlocks.toNat) : n / 32 < allocator.bitmap.length := by
  omega

theorem used_freeBlock {allocator : BlockAllocator}
    (covered : allocator.totalBlocks.toNat ≤ 32 * allocator.bitmap.length)
    (blockId : BitVec 32) (n : Nat) :
    (freeBlock allocator blockId).used n = (allocator.used n &&
      !(decide (n = blockId.toNat) && decide (blockId.toNat < allocator.totalBlocks.toNat))) := by
  unfold freeBlock
  split_ifs with past isSet
  · rw [BitVec.le_def] at past
    simp [show ¬ blockId.toNat < allocator.totalBlocks.toNat by omega]
  · rw [BitVec.le_def] at past
    have below := Nat.lt_of_not_le past
    show (allocator.setWord blockId _).used n = _
    rw [used_setWord _ _ _ _ (word_inside covered below)]
    split_ifs with same
    · rw [BitVec.getLsbD_and, BitVec.getLsbD_not, mask_eq_twoPow, BitVec.getLsbD_twoPow, word,
        toNat_div_thirtyTwo, ← same]
      by_cases equal : n = blockId.toNat
      · simp [equal, below, Nat.mod_lt, used]
      · have : blockId.toNat % 32 ≠ n % 32 := by omega
        simp [equal, this, Nat.mod_lt, used]
    · have : n ≠ blockId.toNat := fun equal => same (by rw [equal])
      simp [this]
  · rw [isSet_eq_used] at isSet
    by_cases equal : n = blockId.toNat
    · simp [equal, isSet]
    · simp [equal]

theorem usedCount_le (allocator : BlockAllocator) :
    allocator.usedCount ≤ allocator.totalBlocks.toNat :=
  (List.countP_le_length _).trans_eq (List.length_range _)

theorem usedCount_eq_total_iff (allocator : BlockAllocator) :
    allocator.usedCount = allocator.totalBlocks.toNat ↔
      ∀ n < allocator.totalBlocks.toNat, allocator.used n = true := by
  have all := @List.countP_eq_length _ (List.range allocator.totalBlocks.toNat) allocator.used
  rw [List.length_range] at all
  rw [usedCount, all]
  simp only [List.mem_range]

theorem usedCount_take {allocator : BlockAllocator} {blockId : BitVec 32}
    (covered : allocator.totalBlocks.toNat ≤ 32 * allocator.bitmap.length)
    (below : blockId.toNat < allocator.totalBlocks.toNat)
    (free : allocator.used blockId.toNat = false) :
    (allocator.take blockId).usedCount = allocator.usedCount + 1 := by
  unfold usedCount
  rw [take_totalBlocks, ← countP_or_eq_of_nodup (List.nodup_range _) (List.mem_range.mpr below)
    free]
  exact List.countP_congr fun n _ => by rw [used_take _ (word_inside covered below)]

@[simp]
theorem freeBlock_totalBlocks (allocator : BlockAllocator) (blockId : BitVec 32) :
    (freeBlock allocator blockId).totalBlocks = allocator.totalBlocks := by
  unfold freeBlock; split_ifs <;> rfl

@[simp]
theorem freeBlock_bitmap_length (allocator : BlockAllocator) (blockId : BitVec 32) :
    (freeBlock allocator blockId).bitmap.length = allocator.bitmap.length := by
  unfold freeBlock; split_ifs <;> simp [setWord]

@[simp]
theorem freeBlock_nextSearchHint (allocator : BlockAllocator) (blockId : BitVec 32) :
    (freeBlock allocator blockId).nextSearchHint = allocator.nextSearchHint := by
  unfold freeBlock; split_ifs <;> rfl

theorem freeBlock_allocatedBlocks (allocator : BlockAllocator) (blockId : BitVec 32) :
    (freeBlock allocator blockId).allocatedBlocks =
      if blockId.toNat < allocator.totalBlocks.toNat ∧ allocator.used blockId.toNat = true then
        allocator.allocatedBlocks - 1#32
      else allocator.allocatedBlocks := by
  unfold freeBlock
  by_cases past : allocator.totalBlocks ≤ blockId
  · rw [BitVec.le_def] at past
    rw [if_pos (BitVec.le_def.mpr past), if_neg (by omega)]
  · rw [BitVec.le_def] at past
    rw [if_neg (mt BitVec.le_def.mp past)]
    by_cases set : allocator.isSet blockId
    · rw [isSet_eq_used] at set
      rw [if_pos (by rw [isSet_eq_used, set]), if_pos ⟨by omega, set⟩]
    · rw [isSet_eq_used] at set
      rw [if_neg (by rw [isSet_eq_used]; exact set), if_neg fun cleared => set cleared.2]

theorem usedCount_freeBlock {allocator : BlockAllocator}
    (covered : allocator.totalBlocks.toNat ≤ 32 * allocator.bitmap.length)
    (blockId : BitVec 32) :
    (freeBlock allocator blockId).usedCount +
        (if blockId.toNat < allocator.totalBlocks.toNat ∧ allocator.used blockId.toNat = true
          then 1 else 0) = allocator.usedCount := by
  unfold usedCount
  rw [freeBlock_totalBlocks]
  split_ifs with cleared
  · rw [← countP_and_ne_of_nodup (List.nodup_range _) (List.mem_range.mpr cleared.1) cleared.2]
    congr 1
    exact List.countP_congr fun n _ => by simp [used_freeBlock covered, cleared.1]
  · refine (List.countP_congr fun n _ => ?_).trans (Nat.add_zero _).symm
    rw [used_freeBlock covered]
    by_cases equal : n = blockId.toNat
    · subst equal
      by_cases below : blockId.toNat < allocator.totalBlocks.toNat
      · simp [below, show allocator.used blockId.toNat = false by simpa [below] using cleared]
      · simp [below]
    · simp [equal]

theorem Wf.take {allocator : BlockAllocator} (wf : allocator.Wf) {blockId : BitVec 32}
    (below : blockId.toNat < allocator.totalBlocks.toNat)
    (free : allocator.used blockId.toNat = false) : (allocator.take blockId).Wf := by
  have counted := usedCount_take wf.covered below free
  have room := usedCount_le (allocator.take blockId)
  have small := wf.small
  refine ⟨small, by rw [take_totalBlocks, take_bitmap_length]; exact wf.covered, .inl ?_, ?_⟩
  · show ((blockId + 1#32) % allocator.totalBlocks).toNat < allocator.totalBlocks.toNat
    rw [BitVec.toNat_umod]
    exact Nat.mod_lt _ (by omega)
  · show (allocator.allocatedBlocks + 1#32).toNat = _
    rw [counted, BitVec.toNat_add, wf.counted, BitVec.toNat_ofNat]
    rw [take_totalBlocks, counted] at room
    omega

theorem Wf.freeBlock {allocator : BlockAllocator} (wf : allocator.Wf) (blockId : BitVec 32) :
    (freeBlock allocator blockId).Wf := by
  have counted := usedCount_freeBlock wf.covered blockId
  refine ⟨by simpa using wf.small, by simpa using wf.covered, by simpa using wf.hint, ?_⟩
  rw [freeBlock_allocatedBlocks]
  split_ifs with cleared
  · rw [if_pos cleared] at counted
    have positive : 1 ≤ allocator.allocatedBlocks.toNat := by rw [wf.counted]; omega
    rw [BitVec.toNat_sub_of_le (by rw [BitVec.le_def]; simpa using positive), wf.counted]
    simp only [BitVec.toNat_ofNat, Nat.reducePow, Nat.reduceMod]
    omega
  · rw [if_neg cleared] at counted
    rw [wf.counted]
    omega

theorem probe_lt (allocator : BlockAllocator) {j : Nat}
    (nonEmpty : 0 < allocator.totalBlocks.toNat) :
    allocator.probe j < allocator.totalBlocks.toNat :=
  Nat.mod_lt _ nonEmpty

theorem toNat_ofNat_probe {allocator : BlockAllocator} (wf : allocator.Wf) {j : Nat}
    (nonEmpty : 0 < allocator.totalBlocks.toNat) :
    (BitVec.ofNat 32 (allocator.probe j)).toNat = allocator.probe j := by
  have := probe_lt allocator (j := j) nonEmpty
  have := wf.small
  rw [BitVec.toNat_ofNat, Nat.mod_eq_of_lt (by omega)]

theorem scanBlock_eq {allocator : BlockAllocator} (wf : allocator.Wf) {i : BitVec 32}
    (inRange : i.toNat < allocator.totalBlocks.toNat) :
    (allocator.nextSearchHint + i) % allocator.totalBlocks =
      BitVec.ofNat 32 (allocator.probe i.toNat) := by
  have := wf.small
  have := wf.hint
  apply BitVec.eq_of_toNat_eq
  rw [toNat_ofNat_probe wf (by omega), BitVec.toNat_umod, BitVec.toNat_add,
    Nat.mod_eq_of_lt (show allocator.nextSearchHint.toNat + i.toNat < 2 ^ 32 by omega)]
  rfl

theorem allocateBlockScan_spec {allocator : BlockAllocator} (wf : allocator.Wf) :
    ∀ (remaining : Nat) (i : BitVec 32), i.toNat + remaining ≤ allocator.totalBlocks.toNat →
      (∃ j, i.toNat ≤ j ∧ j < i.toNat + remaining ∧
          (∀ k, i.toNat ≤ k → k < j → allocator.used (allocator.probe k) = true) ∧
          allocator.used (allocator.probe j) = false ∧
          allocateBlockScan allocator remaining i =
            (BitVec.ofNat 32 (allocator.probe j),
              allocator.take (BitVec.ofNat 32 (allocator.probe j)))) ∨
        ((∀ k, i.toNat ≤ k → k < i.toNat + remaining →
            allocator.used (allocator.probe k) = true) ∧
          allocateBlockScan allocator remaining i = (invalidBlockId, allocator))
  | 0, _, _ => .inr ⟨fun _ low high => absurd high (by omega), rfl⟩
  | remaining + 1, i, fits => by
      have blockId := scanBlock_eq wf (i := i) (by omega)
      have probedId : (BitVec.ofNat 32 (allocator.probe i.toNat)).toNat =
          allocator.probe i.toNat := toNat_ofNat_probe wf (by omega)
      rw [allocateBlockScan]
      dsimp only
      rw [blockId, isSet_eq_used, probedId]
      cases set : allocator.used (allocator.probe i.toNat)
      · exact .inl ⟨i.toNat, le_refl _, by omega, fun _ low high => absurd high (by omega), set,
          by rw [if_neg Bool.false_ne_true]; rfl⟩
      · have small := wf.small
        have next : (i + 1#32).toNat = i.toNat + 1 := by
          rw [BitVec.toNat_add, BitVec.toNat_ofNat, Nat.mod_eq_of_lt (by omega),
            Nat.mod_eq_of_lt (by omega)]
        rw [if_pos rfl]
        rcases allocateBlockScan_spec wf remaining (i + 1#32) (by omega) with
          ⟨j, low, high, before, free, issued⟩ | ⟨allUsed, failed⟩
        · refine .inl ⟨j, by omega, by omega, fun k kLow kHigh => ?_, free, issued⟩
          rcases Nat.eq_or_lt_of_le kLow with rfl | later
          · exact set
          · exact before k (by omega) kHigh
        · refine .inr ⟨fun k kLow kHigh => ?_, failed⟩
          rcases Nat.eq_or_lt_of_le kLow with rfl | later
          · exact set
          · exact allUsed k (by omega) (by omega)

theorem exists_probe_eq {allocator : BlockAllocator} (wf : allocator.Wf) {n : Nat}
    (below : n < allocator.totalBlocks.toNat) :
    ∃ k < allocator.totalBlocks.toNat, allocator.probe k = n := by
  have hint := wf.hint
  unfold probe
  by_cases after : allocator.nextSearchHint.toNat ≤ n
  · refine ⟨n - allocator.nextSearchHint.toNat, by omega, ?_⟩
    rw [Nat.add_sub_cancel' after, Nat.mod_eq_of_lt below]
  · refine ⟨n + allocator.totalBlocks.toNat - allocator.nextSearchHint.toNat, by omega, ?_⟩
    rw [show allocator.nextSearchHint.toNat +
        (n + allocator.totalBlocks.toNat - allocator.nextSearchHint.toNat) =
          n + allocator.totalBlocks.toNat by omega,
      Nat.add_mod_right, Nat.mod_eq_of_lt below]

theorem allocateBlock_spec {allocator : BlockAllocator} (wf : allocator.Wf) :
    (∃ j < allocator.totalBlocks.toNat,
        (∀ k < j, allocator.used (allocator.probe k) = true) ∧
        allocator.used (allocator.probe j) = false ∧
        allocateBlock allocator = (BitVec.ofNat 32 (allocator.probe j),
          allocator.take (BitVec.ofNat 32 (allocator.probe j)))) ∨
      ((∀ n < allocator.totalBlocks.toNat, allocator.used n = true) ∧
        allocateBlock allocator = (invalidBlockId, allocator)) := by
  unfold allocateBlock
  split_ifs with full
  · refine .inr ⟨(usedCount_eq_total_iff allocator).mp ?_, rfl⟩
    rw [BitVec.le_def, wf.counted] at full
    exact Nat.le_antisymm (usedCount_le allocator) full
  · rcases allocateBlockScan_spec wf allocator.totalBlocks.toNat 0#32 (by simp) with
      ⟨j, -, below, before, free, issued⟩ | ⟨allUsed, failed⟩
    · exact .inl ⟨j, by simpa using below, fun k => before k (Nat.zero_le k), free, issued⟩
    · refine .inr ⟨fun n below => ?_, failed⟩
      obtain ⟨k, kBelow, rfl⟩ := exists_probe_eq wf below
      exact allUsed k (Nat.zero_le k) (by simpa using kBelow)

theorem Wf.allocateBlock {allocator : BlockAllocator} (wf : allocator.Wf) :
    (allocateBlock allocator).2.Wf := by
  rcases allocateBlock_spec wf with ⟨j, below, -, free, issued⟩ | ⟨-, failed⟩
  · have nonEmpty : 0 < allocator.totalBlocks.toNat := by omega
    rw [issued]
    exact wf.take (by rw [toNat_ofNat_probe wf nonEmpty]; exact probe_lt _ nonEmpty)
      (by rw [toNat_ofNat_probe wf nonEmpty]; exact free)
  · rw [failed]
    exact wf

theorem ofNat_probe_ne_invalid {allocator : BlockAllocator} (wf : allocator.Wf) {j : Nat}
    (nonEmpty : 0 < allocator.totalBlocks.toNat) :
    BitVec.ofNat 32 (allocator.probe j) ≠ invalidBlockId := by
  intro same
  have ids := congrArg BitVec.toNat same
  have := wf.small
  rw [toNat_ofNat_probe wf nonEmpty] at ids
  have := probe_lt allocator (j := j) nonEmpty
  simp only [invalidBlockId, BitVec.toNat_ofNat] at ids
  omega

theorem freeMultipleBlocks_spec {allocator : BlockAllocator} (wf : allocator.Wf)
    (blockIds : List (BitVec 32)) :
    (freeMultipleBlocks allocator blockIds).Wf ∧
      (freeMultipleBlocks allocator blockIds).totalBlocks = allocator.totalBlocks ∧
      ∀ n, (freeMultipleBlocks allocator blockIds).used n = (allocator.used n &&
        !blockIds.any fun b =>
          decide (n = b.toNat) && decide (b.toNat < allocator.totalBlocks.toNat)) := by
  induction blockIds generalizing allocator with
  | nil => exact ⟨wf, rfl, fun n => by simp [freeMultipleBlocks]⟩
  | cons blockId rest inductionHypothesis =>
      obtain ⟨restWf, restTotal, restUsed⟩ := inductionHypothesis (wf.freeBlock blockId)
      refine ⟨restWf, restTotal.trans (freeBlock_totalBlocks _ _), fun n => ?_⟩
      show (freeMultipleBlocks (freeBlock allocator blockId) rest).used n = _
      rw [restUsed, used_freeBlock wf.covered, freeBlock_totalBlocks, List.any_cons,
        Bool.not_or, Bool.and_assoc]

/-- `allocator` is `start` with the blocks of `issued`, each of them free in `start`, taken. -/
structure Issued (start allocator : BlockAllocator) (issued : List (BitVec 32)) : Prop where
  wf : allocator.Wf
  total : allocator.totalBlocks = start.totalBlocks
  distinct : (issued.map BitVec.toNat).Nodup
  fresh : ∀ b ∈ issued, b.toNat < start.totalBlocks.toNat ∧ start.used b.toNat = false
  used : ∀ n, allocator.used n = (decide (n ∈ issued.map BitVec.toNat) || start.used n)

theorem Issued.refl {start : BlockAllocator} (wf : start.Wf) : Issued start start [] :=
  ⟨wf, rfl, List.nodup_nil, fun _ absent => absurd absent (List.not_mem_nil _),
    fun n => by simp⟩

theorem Issued.take {start allocator : BlockAllocator} {issued : List (BitVec 32)}
    (taken : Issued start allocator issued) {j : Nat}
    (below : j < allocator.totalBlocks.toNat)
    (free : allocator.used (allocator.probe j) = false) :
    Issued start (allocator.take (BitVec.ofNat 32 (allocator.probe j)))
      (issued ++ [BitVec.ofNat 32 (allocator.probe j)]) := by
  have nonEmpty : 0 < allocator.totalBlocks.toNat := by omega
  have probed := toNat_ofNat_probe taken.wf (j := j) nonEmpty
  have inside := word_inside taken.wf.covered (probe_lt allocator (j := j) nonEmpty)
  have atProbe := taken.used (allocator.probe j)
  rw [free] at atProbe
  obtain ⟨notIssued, freeAtStart⟩ := Bool.or_eq_false_iff.mp atProbe.symm
  refine ⟨taken.wf.take (by rw [probed]; exact probe_lt _ nonEmpty) (by rw [probed]; exact free),
    taken.total, ?_, ?_, ?_⟩
  · rw [List.map_append, List.map_singleton, probed]
    exact List.pairwise_append.mpr ⟨taken.distinct, List.pairwise_singleton _ _,
      fun m member x same => by
        rw [List.mem_singleton.mp same]
        rintro rfl
        exact of_decide_eq_false notIssued member⟩
  · intro b member
    rcases List.mem_append.mp member with old | new
    · exact taken.fresh b old
    · rw [List.mem_singleton.mp new, probed, ← taken.total]
      exact ⟨probe_lt _ nonEmpty, freeAtStart⟩
  · intro n
    rw [← probed] at inside
    rw [used_take _ inside, taken.used, List.map_append, List.map_singleton, probed]
    simp only [List.mem_append, List.mem_singleton, Bool.decide_or]
    ac_rfl

theorem Issued.rollback {start allocator : BlockAllocator} {issued : List (BitVec 32)}
    (taken : Issued start allocator issued) (n : Nat) :
    (freeMultipleBlocks allocator issued).used n = start.used n := by
  have freed : (issued.any fun b => decide (n = b.toNat) &&
      decide (b.toNat < start.totalBlocks.toNat)) = decide (n ∈ issued.map BitVec.toNat) := by
    rw [Bool.eq_iff_iff, List.any_eq_true, decide_eq_true_iff, List.mem_map]
    constructor
    · rintro ⟨b, member, hit⟩
      exact ⟨b, member, (of_decide_eq_true (Bool.and_eq_true_iff.mp hit).1).symm⟩
    · rintro ⟨b, member, rfl⟩
      exact ⟨b, member, by simp [(taken.fresh b member).1]⟩
  rw [(freeMultipleBlocks_spec taken.wf issued).2.2, taken.used, taken.total, freed]
  by_cases member : n ∈ issued.map BitVec.toNat
  · obtain ⟨b, issuedB, rfl⟩ := List.mem_map.mp member
    simp [member, (taken.fresh b issuedB).2]
  · simp [member]

theorem allocateEach_spec {start : BlockAllocator} :
    ∀ (count : Nat) {allocator : BlockAllocator} {issued : List (BitVec 32)},
      Issued start allocator issued →
      ∀ {result : Int} {issued' : List (BitVec 32)} {allocator' : BlockAllocator},
        allocateEach allocator issued count = (result, issued', allocator') →
        allocator'.Wf ∧
          ((result = 0 ∧ issued'.length = issued.length + count ∧
              Issued start allocator' issued') ∨
            (result = -1 ∧ allocator'.totalBlocks = start.totalBlocks ∧
              ∀ n, allocator'.used n = start.used n))
  | 0, allocator, issued, taken, result, issued', allocator', done => by
      obtain ⟨rfl, rfl, rfl⟩ : 0 = result ∧ issued = issued' ∧ allocator = allocator' := by
        simpa only [allocateEach, Prod.mk.injEq] using done
      exact ⟨taken.wf, .inl ⟨rfl, rfl, taken⟩⟩
  | count + 1, allocator, issued, taken, result, issued', allocator', done => by
      rcases allocateBlock_spec taken.wf with ⟨j, below, -, free, issuedBlock⟩ | ⟨-, failed⟩
      · have valid := ofNat_probe_ne_invalid taken.wf (j := j) (by omega)
        rw [allocateEach, issuedBlock] at done
        dsimp only at done
        rw [if_neg valid] at done
        obtain ⟨wf', finished | rolledBack⟩ := allocateEach_spec count (taken.take below free) done
        · refine ⟨wf', .inl ⟨finished.1, ?_, finished.2.2⟩⟩
          rw [finished.2.1, List.length_append, List.length_singleton]
          omega
        · exact ⟨wf', .inr rolledBack⟩
      · rw [allocateEach, failed] at done
        dsimp only at done
        rw [if_pos rfl] at done
        obtain ⟨rfl, rfl, rfl⟩ : -1 = result ∧ issued = issued' ∧
            freeMultipleBlocks allocator issued = allocator' := by
          simpa only [Prod.mk.injEq] using done
        obtain ⟨freedWf, freedTotal, -⟩ := freeMultipleBlocks_spec taken.wf issued
        exact ⟨freedWf, .inr ⟨rfl, freedTotal.trans taken.total, taken.rollback⟩⟩

theorem usedCount_congr {allocator allocator' : BlockAllocator}
    (total : allocator'.totalBlocks = allocator.totalBlocks)
    (same : ∀ n, allocator'.used n = allocator.used n) :
    allocator'.usedCount = allocator.usedCount := by
  unfold usedCount
  rw [total]
  exact List.countP_congr fun n _ => by rw [same]

theorem allocateMultipleBlocks_spec {allocator : BlockAllocator} (wf : allocator.Wf)
    {count : BitVec 32} {result : Int} {issued : List (BitVec 32)}
    {allocator' : BlockAllocator}
    (allocated : allocateMultipleBlocks allocator count = (result, issued, allocator')) :
    allocator'.Wf ∧
      ((result = 0 ∧ issued.length = count.toNat ∧ Issued allocator allocator' issued) ∨
        (result = -1 ∧ (∀ n, allocator'.used n = allocator.used n) ∧
          allocator'.allocatedBlocks = allocator.allocatedBlocks)) := by
  unfold allocateMultipleBlocks at allocated
  split_ifs at allocated with refused
  · obtain ⟨rfl, rfl, rfl⟩ : -1 = result ∧ [] = issued ∧ allocator = allocator' := by
      simpa only [Prod.mk.injEq] using allocated
    exact ⟨wf, .inr ⟨rfl, fun _ => rfl, rfl⟩⟩
  · obtain ⟨wf', finished | ⟨failed, total, same⟩⟩ :=
      allocateEach_spec count.toNat (Issued.refl wf) allocated
    · exact ⟨wf', .inl ⟨finished.1, by simpa using finished.2.1, finished.2.2⟩⟩
    · refine ⟨wf', .inr ⟨failed, same, BitVec.eq_of_toNat_eq ?_⟩⟩
      rw [wf'.counted, wf.counted, usedCount_congr total same]

theorem Wf.init {totalBlocks : BitVec 32} (small : totalBlocks.toNat ≤ 2147483648) :
    (blockAllocatorInit totalBlocks).Wf := by
  refine ⟨small, ?_, by simp; omega, ?_⟩
  · simp only [blockAllocatorInit, List.length_replicate, BitVec.toNat_udiv, BitVec.toNat_add,
      BitVec.toNat_ofNat, Nat.reducePow, Nat.reduceMod]
    omega
  · rw [blockAllocatorInit_allocatedBlocks, usedCount, List.countP_eq_zero.mpr]
    · rfl
    · intro n _
      simp [used, blockAllocatorInit, List.getD_eq_getElem?_getD, List.getElem?_replicate]
      split <;> simp

/-- The allocators a program can hold: `block_allocator_init` of at most `2^31` blocks, then
any sequence of the four operations. -/
inductive Reachable : BlockAllocator → Prop
  | init {totalBlocks : BitVec 32} : totalBlocks.toNat ≤ 2147483648 →
      Reachable (blockAllocatorInit totalBlocks)
  | allocate {allocator : BlockAllocator} : Reachable allocator →
      Reachable (allocateBlock allocator).2
  | free {allocator : BlockAllocator} (blockId : BitVec 32) : Reachable allocator →
      Reachable (freeBlock allocator blockId)
  | allocateMultiple {allocator : BlockAllocator} (count : BitVec 32) : Reachable allocator →
      Reachable (allocateMultipleBlocks allocator count).2.2
  | freeMultiple {allocator : BlockAllocator} (blockIds : List (BitVec 32)) :
      Reachable allocator → Reachable (freeMultipleBlocks allocator blockIds)

theorem Reachable.wf {allocator : BlockAllocator} (reachable : allocator.Reachable) :
    allocator.Wf := by
  induction reachable with
  | init small => exact Wf.init small
  | allocate _ wf => exact wf.allocateBlock
  | free blockId _ wf => exact wf.freeBlock blockId
  | allocateMultiple count _ wf => exact (allocateMultipleBlocks_spec wf rfl).1
  | freeMultiple blockIds _ wf => exact (freeMultipleBlocks_spec wf blockIds).1

/-- On every allocator a run reaches, `allocated_blocks` is the number of blocks in use, and
`allocate_block` issues the first block not in use at or after `next_search_hint`, wrapping
at `total_blocks`, and marks it and nothing else in use; it returns `INVALID_BLOCK_ID` and
changes nothing exactly when every block is in use. -/
theorem allocateBlock_issues_first_free_block {allocator : BlockAllocator}
    (reachable : allocator.Reachable) :
    allocator.allocatedBlocks.toNat = allocator.usedCount ∧
      ((∃ j < allocator.totalBlocks.toNat,
          (∀ k < j, allocator.used (allocator.probe k) = true) ∧
          allocator.used (allocator.probe j) = false ∧
          (allocateBlock allocator).1 = BitVec.ofNat 32 (allocator.probe j) ∧
          ∀ n, (allocateBlock allocator).2.used n =
            (decide (n = allocator.probe j) || allocator.used n)) ∨
        ((∀ n < allocator.totalBlocks.toNat, allocator.used n = true) ∧
          allocateBlock allocator = (invalidBlockId, allocator))) := by
  have wf := reachable.wf
  refine ⟨wf.counted, ?_⟩
  rcases allocateBlock_spec wf with ⟨j, below, before, free, issued⟩ | failed
  · have nonEmpty : 0 < allocator.totalBlocks.toNat := by omega
    have probed := toNat_ofNat_probe wf (j := j) nonEmpty
    refine .inl ⟨j, below, before, free, by rw [issued], fun n => ?_⟩
    rw [issued, used_take _ (by rw [probed]; exact word_inside wf.covered (probe_lt _ nonEmpty)),
      probed]
  · exact .inr failed

theorem allocateBlock_issues_first_free_block_on_eight_blocks :
    let once := (allocateBlock (blockAllocatorInit 8#32)).2
    let full := (allocateBlock (blockAllocatorInit 1#32)).2
    (once.allocatedBlocks.toNat = once.usedCount ∧
      ∃ j < once.totalBlocks.toNat, (∀ k < j, once.used (once.probe k) = true) ∧
        once.used (once.probe j) = false ∧
        (allocateBlock once).1 = BitVec.ofNat 32 (once.probe j) ∧
        ∀ n, (allocateBlock once).2.used n = (decide (n = once.probe j) || once.used n)) ∧
    (full.allocatedBlocks.toNat = full.usedCount ∧
      (∀ n < full.totalBlocks.toNat, full.used n = true) ∧
      allocateBlock full = (invalidBlockId, full)) := by
  intro once full
  obtain ⟨counted, issued | ⟨used, -⟩⟩ :=
    allocateBlock_issues_first_free_block (.allocate (.init (by decide)) : once.Reachable)
  · refine ⟨⟨counted, issued⟩, ?_⟩
    obtain ⟨counted', ⟨j, below, -, free, -⟩ | exhausted⟩ :=
      allocateBlock_issues_first_free_block (.allocate (.init (by decide)) : full.Reachable)
    · have single : (allocateBlock (blockAllocatorInit 1#32)).2.totalBlocks.toNat = 1 := by
        decide
      obtain rfl : j = 0 := by omega
      exact absurd free (by decide)
    · exact ⟨counted', exhausted⟩
  · exact absurd (used 1 (by decide)) (by decide)

/-- On every allocator a run reaches, `allocate_multiple_blocks` either returns `0` with
`count` distinct blocks, each below the total and free before the call, and marks exactly
those in use; or returns `-1` and leaves the blocks in use and `allocated_blocks` as they
were. -/
theorem allocateMultipleBlocks_all_or_nothing {allocator allocator' : BlockAllocator}
    {count : BitVec 32} {result : Int} {issued : List (BitVec 32)}
    (reachable : allocator.Reachable)
    (allocated : allocateMultipleBlocks allocator count = (result, issued, allocator')) :
    (result = 0 ∧ issued.length = count.toNat ∧ (issued.map BitVec.toNat).Nodup ∧
        (∀ b ∈ issued, b.toNat < allocator.totalBlocks.toNat ∧ allocator.used b.toNat = false) ∧
        ∀ n, allocator'.used n = (decide (n ∈ issued.map BitVec.toNat) || allocator.used n)) ∨
      (result = -1 ∧ (∀ n, allocator'.used n = allocator.used n) ∧
        allocator'.allocatedBlocks = allocator.allocatedBlocks) := by
  obtain ⟨-, ⟨done, length, taken⟩ | failed⟩ := allocateMultipleBlocks_spec reachable.wf allocated
  · exact .inl ⟨done, length, taken.distinct, taken.fresh, taken.used⟩
  · exact .inr failed

theorem allocateMultipleBlocks_all_or_nothing_on_eight_blocks :
    (blockAllocatorInit 8#32).Reachable ∧
      allocateMultipleBlocks (blockAllocatorInit 8#32) 3#32 =
        (0, [0#32, 1#32, 2#32], (allocateMultipleBlocks (blockAllocatorInit 8#32) 3#32).2.2) ∧
      ∀ n, (allocateMultipleBlocks (blockAllocatorInit 8#32) 3#32).2.2.used n =
        (decide (n ∈ [0, 1, 2]) || (blockAllocatorInit 8#32).used n) :=
  have issued : allocateMultipleBlocks (blockAllocatorInit 8#32) 3#32 =
      (0, [0#32, 1#32, 2#32], (allocateMultipleBlocks (blockAllocatorInit 8#32) 3#32).2.2) := by
    decide
  ⟨.init (by decide), issued,
    match allocateMultipleBlocks_all_or_nothing (.init (by decide)) issued with
    | .inl ⟨_, _, _, _, used⟩ => used
    | .inr ⟨failed, _⟩ => absurd failed (by decide)⟩

end BlockAllocator

theorem diskManagerInit_allocator_reachable (fileSize : Nat) (extended : Bool) :
    (diskManagerInit fileSize extended).allocator.Reachable := by
  apply BlockAllocator.Reachable.init
  simp only [diskManagerInit, subPageSize, BitVec.toNat_ofNat]
  split_ifs <;> omega

end ZipCache.SsdTier
