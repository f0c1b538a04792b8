import ZipCache.DramTier.HashedLeaf
import ZipCache.DramTier.CodecRoundTrip

/-!
# The hashed write path at its edges

Two places where the write path of `bplustree_compressed.c` leaves the hashed layout's
contract. `hash_key_to_sub_page` is C's `key % num_sub_pages`, which takes the key's sign: a
key below zero that the sub-page count does not divide hashes below zero, and the slot loop of
`flush_to_hashed_leaf` starts before the leaf's arrays. And `bplus_tree_compressed_put`
ignores what `decompress_leaf_node_with_metadata_ex` returns: when it fails, the put still
writes through the base tree and returns `0`, while the metadata entry keeps the leaf marked
compressed with its old image, which the next successful decompression copies back.
-/

namespace ZipCache.DramTier

theorem tmod_nonpos_of_neg {a : Int} (negative : a < 0) (b : Int) : a.tmod b ≤ 0 := by
  cases a with
  | ofNat m => exact absurd negative (Int.not_lt.mpr (Int.ofNat_nonneg m))
  | negSucc m => cases b <;> exact Int.neg_nonpos_of_nonneg (Int.ofNat_nonneg _)

theorem hashKeyToSubPage_mul_neg {key numSubPages subcap : Int} (negative : key < 0)
    (partitioned : 0 < numSubPages) (offGrid : key.tmod numSubPages ≠ 0) (capacity : 0 < subcap) :
    hashKeyToSubPage key numSubPages * subcap < 0 := by
  have below : key.tmod numSubPages < 0 := by
    have := tmod_nonpos_of_neg negative numSubPages
    omega
  rw [hashKeyToSubPage, if_neg (by omega)]
  exact Int.mul_neg_of_neg_of_pos below capacity

section
variable {basePut : BplusLeaf → Int → Int → BplusLeaf} {numSubPages subcap : Int}

theorem flushRecord_of_start_neg {leaf : BplusLeaf} {record : BufferEntry}
    (before : hashKeyToSubPage record.key numSubPages * subcap < 0) (capacity : 0 < subcap) :
    flushRecord basePut numSubPages subcap leaf record = none := by
  obtain ⟨remaining, slots⟩ : ∃ remaining, subcap.toNat = remaining + 1 :=
    ⟨subcap.toNat - 1, by omega⟩
  unfold flushRecord
  dsimp only
  rw [slots, scanSlots, readSlot, if_neg (by omega)]

theorem flushRecords_eq_none_of_mem {record : BufferEntry}
    (stuck : ∀ leaf, flushRecord basePut numSubPages subcap leaf record = none) :
    ∀ {records : List BufferEntry} {leaf : BplusLeaf}, record ∈ records →
      flushRecords basePut numSubPages subcap records leaf = none
  | first :: rest, leaf, member => by
      rw [flushRecords]
      rcases List.mem_cons.mp member with rfl | later
      · rw [stuck]; rfl
      · cases flushRecord basePut numSubPages subcap leaf first with
        | none => rfl
        | some leaf' => exact flushRecords_eq_none_of_mem stuck later

end

/-- For every buffered key below zero that the sub-page count does not divide, the slot loop
of `flush_to_hashed_leaf` starts at a negative index, `(key % n) * c < 0`, so it reads
`leaf->key` before its first slot and the flush never completes. -/
theorem flushToHashedLeaf_reads_before_leaf (basePut : BplusLeaf → Int → Int → BplusLeaf)
    (t : TreeSettings) (codecs : Codecs) (leaf : BplusLeaf) (metadata : LeafMetaEntry)
    (buffer : WritingBuffer) (record : BufferEntry) (uncompressed : metadata.isCompressed = false)
    (partitioned : 0 < metadata.numSubPages) (capacity : 0 < t.entries.tdiv metadata.numSubPages)
    (member : record ∈ buffer.entries) (negative : record.key < 0)
    (offGrid : record.key.tmod metadata.numSubPages ≠ 0) :
    hashKeyToSubPage record.key metadata.numSubPages * t.entries.tdiv metadata.numSubPages < 0 ∧
      flushToHashedLeaf basePut t codecs leaf metadata buffer = none := by
  have before := hashKeyToSubPage_mul_neg negative partitioned offGrid capacity
  refine ⟨before, ?_⟩
  unfold flushToHashedLeaf
  rw [if_neg (by simp [uncompressed])]
  dsimp only [Option.some_bind]
  rw [if_neg (by omega),
    flushRecords_eq_none_of_mem (fun _ => flushRecord_of_start_neg before capacity) member]
  rfl

theorem flushToHashedLeaf_reads_before_leaf_at_minus_one :
    let t : TreeSettings := ⟨32, .lz4, 16, true, 28, false⟩
    let codecs : Codecs := ⟨byteCodec, byteCodec⟩
    hashKeyToSubPage (-1) 16 * t.entries.tdiv 16 = -2 ∧
      flushToHashedLeaf (fun leaf _ _ => leaf) t codecs
        ⟨0, List.replicate 32 0, List.replicate 32 0⟩ (addLeafMetadata t) ⟨[⟨-1, 5, 'I'⟩], true⟩ =
          none :=
  ⟨by decide, (flushToHashedLeaf_reads_before_leaf (fun leaf _ _ => leaf)
    ⟨32, .lz4, 16, true, 28, false⟩ ⟨byteCodec, byteCodec⟩
    ⟨0, List.replicate 32 0, List.replicate 32 0⟩ _ _ ⟨-1, 5, 'I'⟩ rfl
    (by decide) (by decide) (List.mem_singleton_self _) (by decide) (by decide)).2⟩

theorem decompressLeafNodeWithMetadataEx_metadata_of_failed {t : TreeSettings} {codecs : Codecs}
    {state opened : LeafState} {result : Int}
    (failed : decompressLeafNodeWithMetadataEx t codecs state = some (result, opened))
    (nonzero : result ≠ 0) : opened.metadata = state.metadata := by
  rcases decompressLeafNodeWithMetadataEx_cases failed with
    rfl | ⟨metadata, ⟨code, leaf⟩, -, finished⟩
  · rfl
  · by_cases succeeded : code = 0
    · simp [finishDecompression, succeeded] at finished
      exact absurd finished.1.symm nonzero
    · simp only [finishDecompression, if_pos succeeded, Prod.mk.injEq] at finished
      rw [← finished.2]

theorem decompressLeafNodeWithMetadataEx_of_qpl_unready {t : TreeSettings} {codecs : Codecs}
    {state : LeafState} {metadata : LeafMetaEntry} (stored : state.metadata = some metadata)
    (compressed : metadata.isCompressed = true) (sized : 0 < metadata.compressedSize)
    (partitioned : 0 < metadata.numSubPages) (qpl : t.algo = .qpl) (unready : t.qplReady = false) :
    decompressLeafNodeWithMetadataEx t codecs state = some (-1, state) := by
  obtain ⟨rest, range⟩ : ∃ rest, List.range metadata.numSubPages.toNat = 0 :: rest :=
    ⟨_, by rw [show metadata.numSubPages.toNat = (metadata.numSubPages.toNat - 1) + 1 by omega,
      List.range_succ_eq_map]⟩
  unfold decompressLeafNodeWithMetadataEx
  rw [stored]
  dsimp only
  rw [if_neg (by simp [compressed]; omega), if_neg (by omega), qpl]
  dsimp only
  rw [range, decompressSubPages]
  simp [decompressLeafPartialQpl, decompressLeafPartial, unready, finishDecompression]

/-- With lazy compression off, a put on a compressed leaf whose decompression fails goes on
regardless: it writes through the base tree into the arrays the failed decompression left,
keeps the entry marked compressed with its old image, and returns `0`. -/
theorem bplusTreeCompressedPut_ignores_failed_decompression
    (basePut : BplusLeaf → Int → Int → BplusLeaf) (t : TreeSettings) (codecs : Codecs)
    (alloc : Hashed.Allocations) (state : LeafState) (key data : Int) {result : Int}
    {opened : LeafState} (eager : t.enableLazyCompression = false)
    (compressed : state.metadata.map LeafMetaEntry.isCompressed = some true)
    (failed : decompressLeafNodeWithMetadataEx t codecs state = some (result, opened))
    (nonzero : result ≠ 0) :
    Hashed.bplusTreeCompressedPut basePut t codecs alloc state key data =
      some (0, ⟨basePut opened.leaf key data, state.metadata⟩) := by
  obtain ⟨metadata, stored, isCompressed⟩ := Option.map_eq_some'.mp compressed
  have kept := decompressLeafNodeWithMetadataEx_metadata_of_failed failed nonzero
  unfold Hashed.bplusTreeCompressedPut
  simp only [eager, Bool.false_eq_true, if_false, Option.map_none', Option.getD_none,
    Option.some_bind, stored, isCompressed, if_true, failed, Option.map_some']
  rw [kept, stored]

theorem bplusTreeCompressedPut_ignores_failed_decompression_after_codec_switch :
    let lz4 : TreeSettings := ⟨4, .lz4, 2, false, 0, false⟩
    let qpl : TreeSettings := ⟨4, .qpl, 2, false, 0, false⟩
    let codecs : Codecs := ⟨byteCodec, byteCodec⟩
    let basePut := fun (leaf : BplusLeaf) (key data : Int) =>
      { leaf with
        data := (leaf.key.zip leaf.data).map fun slot => if slot.1 = key then data else slot.2 }
    let compressed := ((compressLeafNodeWithMetadataEx lz4 codecs
      ⟨⟨3, [2, 0, 1, 0], [20, 0, 10, 0]⟩, some (addLeafMetadata lz4)⟩).getD
        (0, ⟨⟨0, [], []⟩, none⟩)).2
    let put := Hashed.bplusTreeCompressedPut basePut qpl codecs ⟨true, true, true⟩ compressed 2 99
    put.map (fun r => (r.1, r.2.leaf)) = some (0, ⟨3, [2, 0, 1, 0], [99, 0, 10, 0]⟩) ∧
      (put.bind fun r => decompressLeafNodeWithMetadataEx lz4 codecs r.2).map
        (fun r => (r.1, r.2.leaf)) = some (0, ⟨3, [2, 0, 1, 0], [20, 0, 10, 0]⟩) := by
  intro lz4 qpl codecs basePut compressed put
  have facts :
      compressed.metadata.map (fun m => (m.isCompressed, m.compressedSize, m.numSubPages)) =
        some (true, 10, 2) := by decide
  obtain ⟨m, stored, found⟩ := Option.map_eq_some'.mp facts
  simp only [Prod.mk.injEq] at found
  have ran : put = some (0, ⟨basePut compressed.leaf 2 99, compressed.metadata⟩) :=
    bplusTreeCompressedPut_ignores_failed_decompression basePut qpl codecs _ compressed 2 99 rfl
      (by rw [stored, Option.map_some', found.1])
      (decompressLeafNodeWithMetadataEx_of_qpl_unready stored found.1 (by omega) (by omega) rfl rfl)
      (by decide)
  rw [ran]
  exact ⟨by decide, by decide⟩

end ZipCache.DramTier
