import ZipCache.SsdTier.SubPage

/-!
# Block allocator and disk manager of the SSD tree

The allocator is a bitmap of `uint32_t` words over `total_blocks` blocks, with a counter
and a rolling search hint; all of its arithmetic is `uint32_t` and is `BitVec 32` here.
The disk manager owns the allocator and the storage file, modelled as one sub-page image
per 4 KiB block. Positioned reads and writes of a whole block inside the pre-sized file
are taken to succeed.
-/

namespace ZipCache.SsdTier

/-- `INVALID_BLOCK_ID`. -/
def invalidBlockId : BitVec 32 := 0xFFFFFFFF#32

/-- `struct block_allocator`. -/
structure BlockAllocator where
  bitmap : List (BitVec 32)
  totalBlocks : BitVec 32
  allocatedBlocks : BitVec 32
  nextSearchHint : BitVec 32
deriving DecidableEq, Repr

/-- `block_allocator_init`: `(total_blocks + 31) / 32` zeroed words, in `uint32_t`. -/
def blockAllocatorInit (totalBlocks : BitVec 32) : BlockAllocator :=
  ⟨List.replicate ((totalBlocks + 31#32) / 32#32).toNat 0#32, totalBlocks, 0#32, 0#32⟩

@[simp]
theorem blockAllocatorInit_totalBlocks (totalBlocks : BitVec 32) :
    (blockAllocatorInit totalBlocks).totalBlocks = totalBlocks := rfl

@[simp]
theorem blockAllocatorInit_allocatedBlocks (totalBlocks : BitVec 32) :
    (blockAllocatorInit totalBlocks).allocatedBlocks = 0#32 := rfl

@[simp]
theorem blockAllocatorInit_nextSearchHint (totalBlocks : BitVec 32) :
    (blockAllocatorInit totalBlocks).nextSearchHint = 0#32 := rfl

theorem blockAllocatorInit_bitmap_of_huge {totalBlocks : BitVec 32}
    (huge : 4294967265 ≤ totalBlocks.toNat) : (blockAllocatorInit totalBlocks).bitmap = [] := by
  have wraps : ((totalBlocks + 31#32) / 32#32).toNat = 0 := by
    have := totalBlocks.isLt
    simp only [BitVec.toNat_udiv, BitVec.toNat_add, BitVec.toNat_ofNat, Nat.reducePow,
      Nat.reduceMod] at this ⊢
    omega
  simp [blockAllocatorInit, wraps]

namespace BlockAllocator

/-- The word holding a block's bit. -/
def word (allocator : BlockAllocator) (blockId : BitVec 32) : BitVec 32 :=
  allocator.bitmap.getD (blockId / 32#32).toNat 0#32

/-- `1U << bit_idx` for a block. -/
def mask (blockId : BitVec 32) : BitVec 32 :=
  1#32 <<< (blockId % 32#32).toNat

/-- Whether a block's bit is set. -/
def isSet (allocator : BlockAllocator) (blockId : BitVec 32) : Bool :=
  allocator.word blockId &&& mask blockId != 0#32

/-- Overwrite the word holding a block's bit. -/
def setWord (allocator : BlockAllocator) (blockId word : BitVec 32) : BlockAllocator :=
  { allocator with bitmap := allocator.bitmap.set (blockId / 32#32).toNat word }

end BlockAllocator

/-- The `for (i = 0; i < total_blocks; i++)` scan of `allocate_block`, from round `i`,
with `remaining` rounds left. -/
def allocateBlockScan (allocator : BlockAllocator) : Nat → BitVec 32 →
    BitVec 32 × BlockAllocator
  | 0, _ => (invalidBlockId, allocator)
  | remaining + 1, i =>
      let blockId := (allocator.nextSearchHint + i) % allocator.totalBlocks
      if allocator.isSet blockId then allocateBlockScan allocator remaining (i + 1#32)
      else
        (blockId, { allocator.setWord blockId
            (allocator.word blockId ||| BlockAllocator.mask blockId) with
          allocatedBlocks := allocator.allocatedBlocks + 1#32,
          nextSearchHint := (blockId + 1#32) % allocator.totalBlocks })

/-- `allocate_block`: `INVALID_BLOCK_ID` once the counter reaches the total. -/
def allocateBlock (allocator : BlockAllocator) : BitVec 32 × BlockAllocator :=
  if allocator.totalBlocks ≤ allocator.allocatedBlocks then (invalidBlockId, allocator)
  else allocateBlockScan allocator allocator.totalBlocks.toNat 0#32

/-- `free_block`: ignore ids past the total; clear a set bit and count it. -/
def freeBlock (allocator : BlockAllocator) (blockId : BitVec 32) : BlockAllocator :=
  if allocator.totalBlocks ≤ blockId then allocator
  else if allocator.isSet blockId then
    { allocator.setWord blockId (allocator.word blockId &&& ~~~(BlockAllocator.mask blockId))
      with allocatedBlocks := allocator.allocatedBlocks - 1#32 }
  else allocator

/-- `free_multiple_blocks`. -/
def freeMultipleBlocks (allocator : BlockAllocator) (blockIds : List (BitVec 32)) :
    BlockAllocator :=
  blockIds.foldl freeBlock allocator

/-- The loop of `allocate_multiple_blocks`: allocate one by one, and on the first failure
free what this call issued. Returns the ids issued, oldest first. -/
def allocateEach (allocator : BlockAllocator) (issued : List (BitVec 32)) :
    Nat → Int × List (BitVec 32) × BlockAllocator
  | 0 => (0, issued, allocator)
  | count + 1 =>
      let (blockId, next) := allocateBlock allocator
      if blockId = invalidBlockId then (-1, issued, freeMultipleBlocks next issued)
      else allocateEach next (issued ++ [blockId]) count

/-- `allocate_multiple_blocks`: refuse a zero count or one past the free count (in
`uint32_t`), else allocate `count` blocks or roll back. -/
def allocateMultipleBlocks (allocator : BlockAllocator) (count : BitVec 32) :
    Int × List (BitVec 32) × BlockAllocator :=
  if count = 0#32 ∨ allocator.totalBlocks < allocator.allocatedBlocks + count then
    (-1, [], allocator)
  else allocateEach allocator [] count.toNat

/-- `struct disk_manager`: the block count, the allocator, and the file's blocks. -/
structure DiskManager where
  total4kbBlocks : BitVec 32
  allocator : BlockAllocator
  blocks : Nat → SubPage

/-- `disk_manager_init`, for a file of `fileSize` bytes whose extension to 1 GiB
(`ftruncate`) succeeds or not. The file's bytes start as zeros. -/
def diskManagerInit (fileSize : Nat) (extended : Bool) : DiskManager :=
  let wanted := (1024 * 1024 * 1024) / subPageSize
  let total := if fileSize < wanted * subPageSize ∧ ¬ extended then fileSize / subPageSize
    else wanted
  ⟨BitVec.ofNat 32 total, blockAllocatorInit (BitVec.ofNat 32 total), fun _ => zeroSubPage⟩

/-- `disk_write_sub_page`: refuse a block past the file, else zero the page's unused
slots (in place: the caller's cached copy changes too) and write it. -/
def diskWriteSubPage (dm : DiskManager) (blockId : BitVec 32) (subPage : SubPage) :
    Int × DiskManager × SubPage :=
  if dm.total4kbBlocks ≤ blockId then (-1, dm, subPage)
  else
    let image := subPagePrepareForCompression subPage
    (0, { dm with blocks := Function.update dm.blocks blockId.toNat image }, image)

/-- `disk_read_sub_page`: the image of a block inside the file. -/
def diskReadSubPage (dm : DiskManager) (blockId : BitVec 32) : Option SubPage :=
  if dm.total4kbBlocks ≤ blockId then none else some (dm.blocks blockId.toNat)

/-- On an allocator of `2^32 - 31` blocks or more, which `block_allocator_init` gave no bitmap
words, the first `allocate_block` probes block 0 and issues it: it reads and then writes
bitmap word 0, which is not below the 0 words allocated. -/
theorem allocateBlock_touches_word_past_bitmap {totalBlocks : BitVec 32}
    (huge : 4294967265 ≤ totalBlocks.toNat) :
    (blockAllocatorInit totalBlocks).bitmap = [] ∧
      (allocateBlock (blockAllocatorInit totalBlocks)).1 = 0#32 := by
  have empty := blockAllocatorInit_bitmap_of_huge huge
  have notFull : ¬ totalBlocks ≤ 0#32 := by rw [BitVec.le_def]; simp; omega
  obtain ⟨rounds, scanned⟩ : ∃ rounds, totalBlocks.toNat = rounds + 1 :=
    ⟨_, (Nat.succ_pred_eq_of_pos (by omega)).symm⟩
  refine ⟨empty, ?_⟩
  unfold allocateBlock
  rw [blockAllocatorInit_totalBlocks, blockAllocatorInit_allocatedBlocks, if_neg notFull, scanned]
  simp [allocateBlockScan, BlockAllocator.isSet, BlockAllocator.word, empty]

theorem allocateBlock_touches_word_past_bitmap_of_max :
    4294967265 ≤ (0xFFFFFFFF#32).toNat ∧
      (blockAllocatorInit 0xFFFFFFFF#32).bitmap = [] ∧
      (allocateBlock (blockAllocatorInit 0xFFFFFFFF#32)).1 = 0#32 :=
  ⟨by decide, allocateBlock_touches_word_past_bitmap (by decide)⟩

end ZipCache.SsdTier
