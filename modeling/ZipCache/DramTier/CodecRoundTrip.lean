import ZipCache.DramTier.LeafCodec

/-!
# Compression of a leaf round-trips

For a leaf whose arrays hold the tree's `entries` slots, compressing it with a codec that
gives back what it compressed, and then decompressing it with the same configuration, leaves
the leaf as it was. The compression loop lays one block per sub-page into the image, each
starting where the one before ends (`BlocksChained`); a later block never overwrites an
earlier one, so decompression reads back exactly what each sub-page was compressed to.
-/

namespace ZipCache.DramTier

theorem readSlots_eq {a : List Int} {start count : Int} (nonneg : 0 ≤ start) (counted : 0 ≤ count)
    (inside : start + count ≤ a.length) :
    readSlots a start count = some ((a.drop start.toNat).take count.toNat) :=
  if_pos ⟨nonneg, counted, inside⟩

theorem length_of_readSlots {a xs : List Int} {start count : Int}
    (read : readSlots a start count = some xs) : (xs.length : Int) = count := by
  unfold readSlots at read
  split at read
  · next inside =>
      cases read
      simp only [List.length_take, List.length_drop]
      omega
  · cases read

@[simp]
theorem length_readImage (image : Nat → UInt8) (offset length : Nat) :
    (readImage image offset length).length = length := by
  simp [readImage]

theorem readImage_writeImage_self (image : Nat → UInt8) (offset : Nat) (bytes : List UInt8) :
    readImage (writeImage image offset bytes) offset bytes.length = bytes := by
  apply List.ext_getElem
  · simp [readImage]
  · intro i inRead inBytes
    simp [readImage, writeImage, inBytes, List.getD_eq_getElem?_getD]

/-- Sub-page `s`'s entry of the block index. -/
def blockOf (index : List SubpageIndexEntry) (s : Nat) : SubpageIndexEntry :=
  index.getD s ⟨0, 0⟩

/-- The byte after a block's last. -/
def SubpageIndexEntry.stop (entry : SubpageIndexEntry) : Nat :=
  entry.offset + entry.length

/-- The blocks of the sub-pages `sps`, in order, fill the image from `start` to `stop`: each
starts where the one before it ends. -/
def BlocksChained (index : List SubpageIndexEntry) : List Nat → Nat → Nat → Prop
  | [], start, stop => start = stop
  | sp :: rest, start, stop =>
      (blockOf index sp).offset = start ∧ BlocksChained index rest (blockOf index sp).stop stop

theorem blocksChained_range' {index : List SubpageIndexEntry} :
    ∀ {a k start stop : Nat}, BlocksChained index (List.range' a k) start stop →
      start ≤ stop ∧ (0 < k → (blockOf index a).offset = start) ∧
      (∀ s, a ≤ s → s < a + k → start ≤ (blockOf index s).offset ∧ (blockOf index s).stop ≤ stop) ∧
      (∀ s, a ≤ s → s + 1 < a + k → (blockOf index (s + 1)).offset = (blockOf index s).stop) ∧
      (∀ s s', a ≤ s → s < s' → s' < a + k → (blockOf index s).stop ≤ (blockOf index s').offset)
  | a, 0, start, stop, chained => ⟨le_of_eq chained, by omega, by omega, by omega, by omega⟩
  | a, k + 1, start, stop, chained => by
      obtain ⟨headed, rest⟩ := chained
      obtain ⟨ordered, restHead, restBounds, restChain, restApart⟩ := blocksChained_range' rest
      have grows : start ≤ (blockOf index a).stop := by
        rw [SubpageIndexEntry.stop, headed]; omega
      refine ⟨grows.trans ordered, fun _ => headed, fun s low high => ?_, fun s low high => ?_,
        fun s s' low before high => ?_⟩
      · rcases Nat.eq_or_lt_of_le low with rfl | later
        · exact ⟨headed.ge, ordered⟩
        · have := restBounds s later (by omega)
          exact ⟨grows.trans this.1, this.2⟩
      · rcases Nat.eq_or_lt_of_le low with rfl | later
        · exact restHead (by omega)
        · exact restChain s later (by omega)
      · rcases Nat.eq_or_lt_of_le low with rfl | later
        · exact (restBounds s' (by omega) (by omega)).1
        · exact restApart s s' later before (by omega)

@[simp]
theorem recordBlock_isCompressed (metadata : LeafMetaEntry) (sp offset : Nat) (out : List UInt8) :
    (recordBlock metadata sp offset out).isCompressed = metadata.isCompressed := rfl

theorem compressSubPages_cons {codec : Codec} {leaf : BplusLeaf} {subcap : Int} {sp : Nat}
    {rest : List Nat} {offset : Nat} {metadata metadata' : LeafMetaEntry}
    {result : Except Int Nat}
    (looped : compressSubPages codec leaf subcap (sp :: rest) offset metadata =
      some (result, metadata')) :
    (∃ payload, subPagePayload leaf sp subcap = some payload ∧
      let out := codec.compress payload (maxCompressedSize - offset)
      out ≠ [] ∧ offset + out.length ≤ maxCompressedSize ∧
      compressSubPages codec leaf subcap rest (offset + out.length)
        (recordBlock metadata sp offset out) = some (result, metadata')) ∨
    (∃ code, result = .error code ∧
      (metadata' = metadata ∨ ∃ out, metadata' = recordBlock metadata sp offset out)) := by
  unfold compressSubPages at looped
  split at looped
  · cases looped
  · next payload _ =>
      split at looped
      · cases looped
        exact .inr ⟨_, rfl, .inl rfl⟩
      · dsimp only at looped
        split at looped
        · cases looped
          exact .inr ⟨_, rfl, .inl rfl⟩
        · split at looped
          · cases looped
            exact .inr ⟨_, rfl, .inr ⟨_, rfl⟩⟩
          · exact .inl ⟨payload, ‹_›, ‹_›, by omega, looped⟩

theorem readImage_congr {image image' : Nat → UInt8} {offset length : Nat}
    (agree : ∀ i < offset + length, image' i = image i) :
    readImage image' offset length = readImage image offset length := by
  unfold readImage
  exact List.map_congr_left fun i member => agree _ (by have := List.mem_range.mp member; omega)

theorem compressSubPages_fields {codec : Codec} {leaf : BplusLeaf} {subcap : Int} :
    ∀ {sps : List Nat} {offset : Nat} {metadata metadata' : LeafMetaEntry}
      {result : Except Int Nat},
      compressSubPages codec leaf subcap sps offset metadata = some (result, metadata') →
      ∃ image index, index.length = metadata.subpageIndex.length ∧
        metadata' = { metadata with compressedData := image, subpageIndex := index }
  | [], _, _, _, _, looped => by cases looped; exact ⟨_, _, rfl, rfl⟩
  | sp :: rest, offset, metadata, metadata', result, looped => by
      rcases compressSubPages_cons looped with
        ⟨payload, -, -, -, ranOn⟩ | ⟨code, -, rfl | ⟨out, rfl⟩⟩
      · obtain ⟨image, index, sized, rfl⟩ := compressSubPages_fields ranOn
        exact ⟨image, index, by simpa [recordBlock] using sized, rfl⟩
      · exact ⟨_, _, rfl, rfl⟩
      · exact ⟨_, _, by simp [recordBlock], rfl⟩

theorem compressSubPages_ok {codec : Codec} {leaf : BplusLeaf} {subcap : Int} :
    ∀ {sps : List Nat} {offset stop : Nat} {metadata metadata' : LeafMetaEntry},
      sps.Nodup → (∀ sp ∈ sps, sp < metadata.subpageIndex.length) →
      offset ≤ maxCompressedSize →
      compressSubPages codec leaf subcap sps offset metadata = some (.ok stop, metadata') →
      stop ≤ maxCompressedSize ∧ BlocksChained metadata'.subpageIndex sps offset stop ∧
      (∀ i < offset, metadata'.compressedData i = metadata.compressedData i) ∧
      (∀ sp, sp ∉ sps → blockOf metadata'.subpageIndex sp = blockOf metadata.subpageIndex sp) ∧
      ∀ sp ∈ sps, ∃ payload, subPagePayload leaf sp subcap = some payload ∧
        let entry := blockOf metadata'.subpageIndex sp
        codec.compress payload (maxCompressedSize - entry.offset) ≠ [] ∧
        readImage metadata'.compressedData entry.offset entry.length =
          codec.compress payload (maxCompressedSize - entry.offset)
  | [], offset, stop, metadata, metadata', _, _, fits, looped => by
      cases looped
      exact ⟨fits, rfl, fun _ _ => rfl, fun _ _ => rfl, by simp⟩
  | sp :: rest, offset, stop, metadata, metadata', distinct, indexed, _, looped => by
      rcases compressSubPages_cons looped with ⟨payload, found, written, fits, ranOn⟩ |
        ⟨code, stopped, -⟩
      · obtain ⟨spFresh, restDistinct⟩ := List.nodup_cons.mp distinct
        have inIndex := indexed sp (List.mem_cons_self _ _)
        obtain ⟨restFits, restChained, below, others, blocks⟩ :=
          compressSubPages_ok restDistinct
            (fun sp' member => by
              simpa [recordBlock] using indexed sp' (List.mem_cons_of_mem _ member))
            fits ranOn
        set out := codec.compress payload (maxCompressedSize - offset)
        have entry : blockOf metadata'.subpageIndex sp = ⟨offset, out.length⟩ := by
          rw [others sp spFresh]
          simp [blockOf, recordBlock, List.getD_eq_getElem?_getD, List.getElem?_set_self inIndex]
        refine ⟨restFits, ⟨by rw [entry], by rw [entry]; exact restChained⟩, fun i early => ?_,
          fun sp' absent => ?_, fun sp' member => ?_⟩
        · rw [below i (by omega)]
          simp only [recordBlock, writeImage]
          rw [if_neg (by omega)]
        · rw [others sp' fun member => absent (List.mem_cons_of_mem _ member)]
          have differs : sp ≠ sp' := fun same => absent (same ▸ List.mem_cons_self _ _)
          simp [blockOf, recordBlock, List.getD_eq_getElem?_getD, List.getElem?_set_ne differs]
        · rcases List.mem_cons.mp member with rfl | later
          · refine ⟨payload, found, ?_⟩
            rw [entry]
            refine ⟨written, ?_⟩
            rw [readImage_congr fun i inside => below i inside]
            exact readImage_writeImage_self _ _ _
          · exact blocks sp' later
      · cases stopped

theorem subPagePayload_eq_some {leaf : BplusLeaf} {sp subcap : Int} {payload : SubPagePayload} :
    subPagePayload leaf sp subcap = some payload ↔
      readSlots leaf.key (sp * subcap) subcap = some payload.keys ∧
        readSlots leaf.data (sp * subcap) subcap = some payload.values := by
  unfold subPagePayload
  split
  · next keys values readKeys readValues =>
      rw [readKeys, readValues]
      constructor
      · rintro ⟨⟩; exact ⟨rfl, rfl⟩
      · rintro ⟨⟨⟩, ⟨⟩⟩; rfl
  · next unread =>
      simp only [reduceCtorEq, false_iff, not_and]
      intro readKeys readValues
      exact unread _ _ readKeys readValues

theorem subPagePayload_isSome {leaf : BplusLeaf} {sp subcap : Int} (nonneg : 0 ≤ sp)
    (counted : 0 ≤ subcap) (keysFit : sp * subcap + subcap ≤ leaf.key.length)
    (dataFits : sp * subcap + subcap ≤ leaf.data.length) :
    (subPagePayload leaf sp subcap).isSome := by
  have start : 0 ≤ sp * subcap := Int.mul_nonneg nonneg counted
  simp [subPagePayload, readSlots_eq start counted keysFit, readSlots_eq start counted dataFits]

theorem compressSubPages_isSome {codec : Codec} {leaf : BplusLeaf} {subcap : Int} :
    ∀ {sps : List Nat} {offset : Nat} {metadata : LeafMetaEntry},
      (∀ sp ∈ sps, (subPagePayload leaf sp subcap).isSome) →
      (compressSubPages codec leaf subcap sps offset metadata).isSome
  | [], _, _, _ => rfl
  | sp :: rest, offset, metadata, readable => by
      obtain ⟨payload, found⟩ := Option.isSome_iff_exists.mp (readable sp (List.mem_cons_self _ _))
      unfold compressSubPages
      rw [found]
      dsimp only
      split
      · rfl
      · split
        · rfl
        · split
          · rfl
          · exact compressSubPages_isSome fun sp' member =>
              readable sp' (List.mem_cons_of_mem _ member)

theorem readSlots_eq_some {a xs : List Int} {start count : Int}
    (read : readSlots a start count = some xs) :
    0 ≤ start ∧ 0 ≤ count ∧ start + count ≤ a.length ∧
      xs = (a.drop start.toNat).take count.toNat := by
  unfold readSlots at read
  split at read
  · next inside => cases read; exact ⟨inside.1, inside.2.1, inside.2.2, rfl⟩
  · cases read

theorem writeSlots_copy {source leaf : List Int} {start count : Nat}
    (sourceFits : start + count ≤ source.length) (leafFits : start + count ≤ leaf.length) :
    writeSlots (source.take start ++ leaf.drop start) start ((source.drop start).take count) =
      some (source.take (start + count) ++ leaf.drop (start + count)) := by
  have head : (source.take start).length = start := List.length_take_of_le (by omega)
  have run : ((source.drop start).take count).length = count := by
    rw [List.length_take, List.length_drop]; omega
  have back : (source.take start ++ leaf.drop start).drop (start + count) =
      leaf.drop (start + count) := by
    rw [← List.drop_drop, List.drop_left' head, List.drop_drop]
  unfold writeSlots
  rw [if_pos ⟨by omega, by simp only [List.length_append, head, List.length_drop, run]; omega⟩,
    Int.toNat_ofNat, run, List.take_left' head, back, List.take_add]

theorem decompressLeafPartial_copy {codec : Codec} {m : LeafMetaEntry} {source : BplusLeaf}
    {entries : Int} {keys data : List Int} {sp c : Nat} {payload : SubPagePayload}
    (indexed : sp < m.subpageIndex.length) (read : subPagePayload source sp c = some payload)
    (decoded : codec.decompress (readImage m.compressedData (blockOf m.subpageIndex sp).offset
      (blockOf m.subpageIndex sp).length) = some payload)
    (keysFit : sp * c + c ≤ keys.length) (dataFit : sp * c + c ≤ data.length) :
    decompressLeafPartial codec true
        ⟨entries, source.key.take (sp * c) ++ keys.drop (sp * c),
          source.data.take (sp * c) ++ data.drop (sp * c)⟩ m sp c =
      some (0, ⟨entries, source.key.take (sp * c + c) ++ keys.drop (sp * c + c),
        source.data.take (sp * c + c) ++ data.drop (sp * c + c)⟩) := by
  obtain ⟨payloadKeys, payloadValues⟩ := payload
  obtain ⟨readKeys, readValues⟩ := subPagePayload_eq_some.mp read
  obtain ⟨-, -, keysInside, rfl⟩ := readSlots_eq_some readKeys
  obtain ⟨-, -, valuesInside, rfl⟩ := readSlots_eq_some readValues
  rw [← Int.ofNat_mul] at keysInside valuesInside decoded
  simp only [Int.toNat_ofNat] at decoded
  unfold decompressLeafPartial
  rw [if_neg (by simp only [Bool.true_eq_false, or_false]; omega)]
  simp only [Int.toNat_ofNat]
  rw [show m.subpageIndex.getD sp ⟨0, 0⟩ = blockOf m.subpageIndex sp from rfl, decoded]
  dsimp only
  rw [if_neg (by simp only [List.length_take, List.length_drop]; omega), ← Int.ofNat_mul,
    writeSlots_copy (by omega) keysFit, writeSlots_copy (by omega) dataFit]

theorem decompressSubPages_copy {codec : Codec} {m : LeafMetaEntry} {source : BplusLeaf}
    {entries : Int} {keys data : List Int} {n c : Nat}
    (decodes : ∀ sp < n, sp < m.subpageIndex.length ∧ ∃ payload,
      subPagePayload source sp c = some payload ∧
      codec.decompress (readImage m.compressedData (blockOf m.subpageIndex sp).offset
        (blockOf m.subpageIndex sp).length) = some payload)
    (keysFit : n * c ≤ keys.length) (dataFit : n * c ≤ data.length) :
    ∀ j r, j + r ≤ n →
      decompressSubPages (fun leaf sp => decompressLeafPartial codec true leaf m sp c)
          (List.range' j r)
          ⟨entries, source.key.take (j * c) ++ keys.drop (j * c),
            source.data.take (j * c) ++ data.drop (j * c)⟩ =
        some (0, ⟨entries, source.key.take ((j + r) * c) ++ keys.drop ((j + r) * c),
          source.data.take ((j + r) * c) ++ data.drop ((j + r) * c)⟩)
  | j, 0, _ => rfl
  | j, r + 1, bound => by
      obtain ⟨indexed, payload, read, decoded⟩ := decodes j (by omega)
      have within : j * c + c ≤ n * c := by
        rw [← Nat.succ_mul]; exact Nat.mul_le_mul_right c (by omega)
      rw [List.range'_succ, decompressSubPages,
        decompressLeafPartial_copy indexed read decoded (by omega) (by omega)]
      dsimp only
      rw [if_neg (by decide), ← Nat.succ_mul, show j + (r + 1) = j + 1 + r by omega]
      exact decompressSubPages_copy decodes keysFit dataFit (j + 1) r (by omega)

theorem decompressSubPages_range_copy {codec : Codec} {m : LeafMetaEntry} {source : BplusLeaf}
    {n c : Nat}
    (decodes : ∀ sp < n, sp < m.subpageIndex.length ∧ ∃ payload,
      subPagePayload source sp c = some payload ∧
      codec.decompress (readImage m.compressedData (blockOf m.subpageIndex sp).offset
        (blockOf m.subpageIndex sp).length) = some payload)
    {leaf : BplusLeaf} (keysFit : n * c ≤ leaf.key.length) (dataFit : n * c ≤ leaf.data.length) :
    decompressSubPages (fun leaf sp => decompressLeafPartial codec true leaf m sp c)
        (List.range n) leaf =
      some (0, ⟨leaf.entries, source.key.take (n * c) ++ leaf.key.drop (n * c),
        source.data.take (n * c) ++ leaf.data.drop (n * c)⟩) := by
  obtain ⟨entries, keys, data⟩ := leaf
  simpa [List.range_eq_range'] using
    @decompressSubPages_copy codec m source entries keys data n c decodes keysFit dataFit 0 n
      (by omega)

theorem compressRun_round_trip {codec : Codec}
    (roundTrip : ∀ payload maxOut, codec.compress payload maxOut ≠ [] →
      codec.decompress (codec.compress payload maxOut) = some payload)
    {state : LeafState} {metadata : LeafMetaEntry} {n : Nat} {subcap : Int}
    (uncompressed : metadata.isCompressed = false)
    (readable : ∀ sp < n, (subPagePayload state.leaf sp subcap).isSome)
    (indexed : n ≤ metadata.subpageIndex.length) :
    ∃ result compressed,
      (compressSubPages codec state.leaf subcap (List.range n) 0 metadata).map
        (finishCompression state) = some (result, compressed) ∧
      compressed.leaf = state.leaf ∧
      ∃ m, compressed.metadata = some m ∧ m.numSubPages = metadata.numSubPages ∧
        (m.isCompressed = true →
          m.originalEntries = state.leaf.entries ∧ (0 < n → 0 < m.compressedSize) ∧
          BlocksChained m.subpageIndex (List.range n) 0 m.compressedSize.toNat ∧
          m.compressedSize ≤ maxCompressedSize ∧
          ∀ sp < n, sp < m.subpageIndex.length ∧ ∃ payload,
            subPagePayload state.leaf sp subcap = some payload ∧
            codec.decompress (readImage m.compressedData (blockOf m.subpageIndex sp).offset
              (blockOf m.subpageIndex sp).length) = some payload) := by
  obtain ⟨⟨result, metadata'⟩, looped⟩ := Option.isSome_iff_exists.mp
    (@compressSubPages_isSome codec state.leaf subcap (List.range n) 0 metadata
      fun sp member => readable sp (List.mem_range.mp member))
  obtain ⟨image, index, sized, rfl⟩ := compressSubPages_fields looped
  rw [looped]
  cases result with
  | error code =>
      exact ⟨code, _, rfl, rfl, _, rfl, rfl, fun compressed => by simp [uncompressed] at compressed⟩
  | ok stop =>
      obtain ⟨fits, chained, -, -, blocks⟩ := compressSubPages_ok (List.nodup_range n)
        (fun sp member => by have := List.mem_range.mp member; omega) (Nat.zero_le _) looped
      refine ⟨0, _, rfl, rfl, _, rfl, rfl, fun _ => ⟨rfl, fun nonEmpty => ?_, ?_, ?_, ?_⟩⟩
      · obtain ⟨payload, -, written, readBack⟩ := blocks 0 (List.mem_range.mpr nonEmpty)
        dsimp only at readBack written chained
        have long : 0 < (blockOf index 0).length := by
          have sameLength := congrArg List.length readBack
          rw [length_readImage] at sameLength
          exact sameLength ▸ List.length_pos.mpr written
        rw [List.range_eq_range'] at chained
        have ends := ((blocksChained_range' chained).2.2.1 0 le_rfl (by omega)).2
        simp only [SubpageIndexEntry.stop] at ends
        show (0 : Int) < stop
        omega
      · simpa using chained
      · simpa using fits
      · intro sp below
        obtain ⟨payload, found, written, readBack⟩ := blocks sp (List.mem_range.mpr below)
        exact ⟨by simp; omega, payload, found,
          by simp only at readBack ⊢; rw [readBack]; exact roundTrip _ _ written⟩

theorem decompressLeafNodeWithMetadataEx_cases {t : TreeSettings} {codecs : Codecs}
    {state state' : LeafState} {result : Int}
    (opened : decompressLeafNodeWithMetadataEx t codecs state = some (result, state')) :
    state' = state ∨ ∃ metadata outcome, state.metadata = some metadata ∧
      finishDecompression state metadata outcome = (result, state') := by
  unfold decompressLeafNodeWithMetadataEx at opened
  split at opened
  · cases opened; exact .inl rfl
  · next metadata stored =>
      split at opened
      · cases opened; exact .inl rfl
      · split at opened
        · cases opened
        · dsimp only at opened
          split at opened
          all_goals
            first
            | (cases opened; exact .inl rfl)
            | (obtain ⟨outcome, -, finished⟩ := Option.map_eq_some'.mp opened
               exact .inr ⟨metadata, outcome, stored, finished⟩)

theorem reallocatedIndex_length (metadata : LeafMetaEntry) (n : Int) :
    n.toNat ≤ (if metadata.subpageIndex.length < n then
        { metadata with subpageIndex := List.replicate n.toNat ⟨0, 0⟩ }
      else metadata).subpageIndex.length := by
  split
  · simp
  · omega

theorem blockLayout_of_chained {index : List SubpageIndexEntry} {n stop : Nat} (positive : 0 < n)
    (chained : BlocksChained index (List.range n) 0 stop) (fits : stop ≤ maxCompressedSize) :
    (blockOf index 0).offset = 0 ∧
      (∀ s, s + 1 < n → (blockOf index (s + 1)).offset = (blockOf index s).stop) ∧
      (∀ s < n, (blockOf index s).stop ≤ maxCompressedSize) ∧
      (∀ s s', s < s' → s' < n → (blockOf index s).stop ≤ (blockOf index s').offset) := by
  rw [List.range_eq_range'] at chained
  obtain ⟨-, headed, bounds, steps, apart⟩ := blocksChained_range' chained
  exact ⟨headed positive, fun s below => steps s (Nat.zero_le _) (by omega),
    fun s below => Nat.le_trans (bounds s (Nat.zero_le _) (by omega)).2 fits,
    fun s s' before below => apart s s' (Nat.zero_le _) before (by omega)⟩

theorem mul_tdiv_le {entries n : Int} (nonneg : 0 ≤ entries) (positive : 0 < n) :
    n * entries.tdiv n ≤ entries := by
  rw [Int.tdiv_eq_ediv nonneg (Int.le_of_lt positive)]
  exact Int.mul_ediv_self_le (by omega)

theorem subPagePayload_isSome_of_sized {t : TreeSettings} {leaf : BplusLeaf} {n : Int}
    (partitioned : 1 ≤ n)
    (sized : 0 ≤ t.entries ∧ t.entries ≤ leaf.key.length ∧ t.entries ≤ leaf.data.length) :
    ∀ sp < n.toNat, (subPagePayload leaf sp (t.entries.tdiv n)).isSome := by
  obtain ⟨entriesNonneg, keysFit, dataFit⟩ := sized
  have subcapNonneg : 0 ≤ t.entries.tdiv n := Int.tdiv_nonneg entriesNonneg (by omega)
  have covered := mul_tdiv_le entriesNonneg (by omega : 0 < n)
  intro sp below
  have within : ((sp : Int) + 1) * t.entries.tdiv n ≤ n * t.entries.tdiv n :=
    Int.mul_le_mul_of_nonneg_right (by omega) subcapNonneg
  rw [Int.add_mul, Int.one_mul] at within
  exact subPagePayload_isSome (by omega) subcapNonneg (by omega) (by omega)

/-- The metadata entry holds a compressed image of the arrays of `source`: it is marked
compressed, its codec is ready, and under that codec every sub-page's block decodes to what
`source` holds in that sub-page. -/
structure Describes (t : TreeSettings) (codecs : Codecs) (m : LeafMetaEntry) (source : BplusLeaf) :
    Prop where
  compressed : m.isCompressed = true
  sized : 0 < m.compressedSize
  partitioned : 1 ≤ m.numSubPages
  ready : t.algo = .lz4 ∨ (t.algo = .qpl ∧ t.qplReady = true)
  decodes : ∀ sp < m.numSubPages.toNat, sp < m.subpageIndex.length ∧ ∃ payload,
    subPagePayload source sp (t.entries.tdiv m.numSubPages) = some payload ∧
    (if t.algo = .qpl then codecs.qpl else codecs.lz4).decompress
      (readImage m.compressedData (blockOf m.subpageIndex sp).offset
        (blockOf m.subpageIndex sp).length) = some payload

/-- Decompressing an image of `source` onto any leaf whose arrays hold the tree's `entries`
slots copies back the `n * c` slots of the sub-pages from `source`, whatever the leaf held
there, and keeps the slots past them. -/
theorem decompressLeafNodeWithMetadataEx_copies_back {t : TreeSettings} {codecs : Codecs}
    {m : LeafMetaEntry} {source : BplusLeaf} (describes : Describes t codecs m source)
    (leaf : BplusLeaf) (nonneg : 0 ≤ t.entries) (keysFit : t.entries ≤ leaf.key.length)
    (dataFit : t.entries ≤ leaf.data.length) :
    let k := m.numSubPages.toNat * (t.entries.tdiv m.numSubPages).toNat
    decompressLeafNodeWithMetadataEx t codecs ⟨leaf, some m⟩ =
      some (0, ⟨⟨m.originalEntries, source.key.take k ++ leaf.key.drop k,
        source.data.take k ++ leaf.data.drop k⟩, some { m with isCompressed := false }⟩) := by
  obtain ⟨compressed, sized, partitioned, ready, decodes⟩ := describes
  obtain ⟨c, subcap⟩ : ∃ c : Nat, t.entries.tdiv m.numSubPages = c :=
    ⟨_, (Int.toNat_of_nonneg (Int.tdiv_nonneg nonneg (by omega))).symm⟩
  have covered : m.numSubPages * c ≤ t.entries := subcap ▸ mul_tdiv_le nonneg (by omega)
  have within : ((m.numSubPages.toNat * c : Nat) : Int) = m.numSubPages * c := by
    rw [Int.ofNat_mul, Int.toNat_of_nonneg (by omega)]
  simp only [subcap, Int.toNat_ofNat] at decodes ⊢
  unfold decompressLeafNodeWithMetadataEx
  dsimp only
  rw [if_neg (by simp only [compressed, Bool.true_eq_false, false_or]; omega), if_neg (by omega)]
  simp only [subcap]
  rcases ready with lz4 | ⟨qpl, qplReady⟩
  · simp only [lz4, reduceCtorEq, if_false] at decodes ⊢
    rw [decompressLeafPartialLz4, decompressSubPages_range_copy decodes (by omega) (by omega)]
    rfl
  · simp only [qpl, if_true] at decodes ⊢
    rw [decompressLeafPartialQpl, qplReady,
      decompressSubPages_range_copy decodes (by omega) (by omega)]
    rfl

/-- What compressing an open leaf whose arrays hold the tree's `entries` slots leaves, with
codecs that give back what they compressed: the leaf as it was and, if the leaf is marked
compressed, blocks laid end to end from byte 0 that describe its arrays, with its entry
count. -/
theorem compressLeafNodeWithMetadataEx_outcome (t : TreeSettings) (codecs : Codecs)
    (state : LeafState) (opened : (state.metadata.getD (addLeafMetadata t)).isCompressed = false)
    (sized : 0 ≤ t.entries ∧ t.entries ≤ state.leaf.key.length ∧
      t.entries ≤ state.leaf.data.length)
    (lz4RoundTrip : ∀ payload maxOut, codecs.lz4.compress payload maxOut ≠ [] →
      codecs.lz4.decompress (codecs.lz4.compress payload maxOut) = some payload)
    (qplRoundTrip : ∀ payload maxOut, codecs.qpl.compress payload maxOut ≠ [] →
      codecs.qpl.decompress (codecs.qpl.compress payload maxOut) = some payload) :
    ∃ result compressed,
      compressLeafNodeWithMetadataEx t codecs state = some (result, compressed) ∧
      compressed.leaf = state.leaf ∧
      ∀ m, compressed.metadata = some m → m.isCompressed = true →
        m.numSubPages = (state.metadata.getD (addLeafMetadata t)).numSubPages ∧
        m.originalEntries = state.leaf.entries ∧
        BlocksChained m.subpageIndex (List.range m.numSubPages.toNat) 0
          m.compressedSize.toNat ∧
        m.compressedSize ≤ maxCompressedSize ∧ Describes t codecs m state.leaf := by
  unfold compressLeafNodeWithMetadataEx
  split
  · refine ⟨0, state, rfl, rfl, fun m stored isCompressed => absurd isCompressed ?_⟩
    rw [stored, Option.getD_some] at opened
    rw [opened]
    decide
  · dsimp only
    generalize state.metadata.getD (addLeafMetadata t) = metadata at opened ⊢
    split
    · refine ⟨0, _, rfl, rfl, fun m stored isCompressed => absurd isCompressed ?_⟩
      cases stored
      rw [opened]
      decide
    · next unpartitioned =>
        have partitioned : 1 ≤ metadata.numSubPages := by
          simp only [opened, Bool.false_eq_true, false_or] at unpartitioned
          omega
        generalize reindexedEq : (if metadata.subpageIndex.length < metadata.numSubPages then
            { metadata with subpageIndex := List.replicate metadata.numSubPages.toNat ⟨0, 0⟩ }
          else metadata) = reindexed
        have indexed := reallocatedIndex_length metadata metadata.numSubPages
        rw [reindexedEq] at indexed
        have reUncompressed : reindexed.isCompressed = false := by
          rw [← reindexedEq]; split <;> exact opened
        have reSubPages : reindexed.numSubPages = metadata.numSubPages := by
          rw [← reindexedEq]; split <;> rfl
        have viaCodec : ∀ codec : Codec, (∀ payload maxOut, codec.compress payload maxOut ≠ [] →
            codec.decompress (codec.compress payload maxOut) = some payload) →
            (t.algo = .lz4 ∨ (t.algo = .qpl ∧ t.qplReady = true)) →
            (if t.algo = .qpl then codecs.qpl else codecs.lz4) = codec →
            ∃ result compressed, (compressSubPages codec state.leaf
                (t.entries.tdiv metadata.numSubPages) (List.range metadata.numSubPages.toNat) 0
                reindexed).map (finishCompression state) = some (result, compressed) ∧
              compressed.leaf = state.leaf ∧ ∀ m, compressed.metadata = some m →
                m.isCompressed = true → m.numSubPages = metadata.numSubPages ∧
                m.originalEntries = state.leaf.entries ∧
                BlocksChained m.subpageIndex (List.range m.numSubPages.toNat) 0
                  m.compressedSize.toNat ∧
                m.compressedSize ≤ maxCompressedSize ∧ Describes t codecs m state.leaf := by
          intro codec roundTrip ready configured
          obtain ⟨result, compressed, ran, sameLeaf, m, stored, sameCount, facts⟩ :=
            compressRun_round_trip roundTrip reUncompressed
              (subPagePayload_isSome_of_sized partitioned sized) indexed
          refine ⟨result, compressed, ran, sameLeaf, fun m' stored' isCompressed => ?_⟩
          rw [stored] at stored'
          cases stored'
          rw [reSubPages] at sameCount
          obtain ⟨restored, positive, chained, fits, decodes⟩ := facts isCompressed
          rw [sameCount]
          refine ⟨rfl, restored, chained, fits, isCompressed, positive (by omega),
            by omega, ready, fun sp below => ?_⟩
          rw [configured, sameCount]
          exact decodes sp (by rwa [sameCount] at below)
        split
        · next lz4 => exact viaCodec _ lz4RoundTrip (.inl lz4) (by rw [lz4]; rfl)
        · next qpl =>
            split
            · next ready => exact viaCodec _ qplRoundTrip (.inr ⟨qpl, ready⟩) (by rw [qpl]; rfl)
            · exact ⟨-1, _, rfl, rfl, fun m stored isCompressed => by
                cases stored; rw [reUncompressed] at isCompressed; cases isCompressed⟩
        · exact ⟨-1, _, rfl, rfl, fun m stored isCompressed => by
            cases stored; rw [reUncompressed] at isCompressed; cases isCompressed⟩

/-- Compressing an uncompressed leaf of `entries > 0` whose arrays hold the tree's `entries`
slots, with codecs that give back what they compressed, never changes the leaf. If it marks
the leaf compressed, the blocks of its `n` sub-pages lie end to end from byte 0 inside the
image, and decompressing under the same configuration returns `0` with the leaf exactly as it
was. -/
theorem compressLeafNodeWithMetadataEx_round_trip (t : TreeSettings) (codecs : Codecs)
    (leaf : BplusLeaf) (metadata : LeafMetaEntry) (nonEmpty : 0 < leaf.entries)
    (partitioned : 1 ≤ metadata.numSubPages) (uncompressed : metadata.isCompressed = false)
    (sized : 0 ≤ t.entries ∧ t.entries ≤ leaf.key.length ∧ t.entries ≤ leaf.data.length)
    (lz4RoundTrip : ∀ payload maxOut, codecs.lz4.compress payload maxOut ≠ [] →
      codecs.lz4.decompress (codecs.lz4.compress payload maxOut) = some payload)
    (qplRoundTrip : ∀ payload maxOut, codecs.qpl.compress payload maxOut ≠ [] →
      codecs.qpl.decompress (codecs.qpl.compress payload maxOut) = some payload) :
    ∃ result compressed,
      compressLeafNodeWithMetadataEx t codecs ⟨leaf, some metadata⟩ = some (result, compressed) ∧
      compressed.leaf = leaf ∧
      ∀ m, compressed.metadata = some m → m.isCompressed = true →
        let n := metadata.numSubPages.toNat
        (blockOf m.subpageIndex 0).offset = 0 ∧
        (∀ s, s + 1 < n →
          (blockOf m.subpageIndex (s + 1)).offset = (blockOf m.subpageIndex s).stop) ∧
        (∀ s < n, (blockOf m.subpageIndex s).stop ≤ maxCompressedSize) ∧
        (∀ s s', s < s' → s' < n →
          (blockOf m.subpageIndex s).stop ≤ (blockOf m.subpageIndex s').offset) ∧
        decompressLeafNodeWithMetadataEx t codecs compressed =
          some (0, ⟨leaf, some { m with isCompressed := false }⟩) := by
  obtain ⟨result, compressed, ran, sameLeaf, facts⟩ :=
    compressLeafNodeWithMetadataEx_outcome t codecs ⟨leaf, some metadata⟩ uncompressed sized
      lz4RoundTrip qplRoundTrip
  refine ⟨result, compressed, ran, sameLeaf, fun m stored isCompressed => ?_⟩
  obtain ⟨sameCount, restored, chained, fits, describes⟩ := facts m stored isCompressed
  rw [Option.getD_some] at sameCount
  rw [sameCount] at chained
  refine (blockLayout_of_chained (by omega) chained (by omega)).imp_right
    fun layout => layout.imp_right fun layout => layout.imp_right fun layout => ⟨layout, ?_⟩
  obtain ⟨leaf', metadata'⟩ := compressed
  cases sameLeaf
  cases stored
  rw [decompressLeafNodeWithMetadataEx_copies_back describes leaf sized.1 sized.2.1 sized.2.2]
  simp only [List.take_append_drop, restored]

/-- A small lossless codec, for tests: the slot count, then each key and value as one byte.
It gives up (`[]`) on sub-pages of 256 slots or more, on values outside `[0, 256)`, and when
the block would not fit in `maxOut` bytes. -/
def byteCodec : Codec where
  compress payload maxOut :=
    if payload.keys.length < 256 ∧ payload.values.length = payload.keys.length ∧
        (∀ x ∈ payload.keys ++ payload.values, 0 ≤ x ∧ x < 256) ∧
        1 + 2 * payload.keys.length ≤ maxOut then
      UInt8.ofNat payload.keys.length ::
        (payload.keys ++ payload.values).map fun x => UInt8.ofNat x.toNat
    else []
  decompress
    | [] => none
    | count :: rest => some ⟨(rest.take count.toNat).map fun b => (b.toNat : Int),
        (rest.drop count.toNat).map fun b => (b.toNat : Int)⟩

theorem toNat_uInt8_ofNat (n : Nat) : (UInt8.ofNat n).toNat = n % 256 := rfl

theorem byte_round_trip {xs : List Int} (small : ∀ x ∈ xs, 0 ≤ x ∧ x < 256) :
    ((xs.map fun x => UInt8.ofNat x.toNat).map fun b => (b.toNat : Int)) = xs := by
  rw [List.map_map]
  conv => rhs; rw [← List.map_id xs]
  refine List.map_congr_left fun x member => ?_
  obtain ⟨nonneg, below⟩ := small x member
  simp only [Function.comp, toNat_uInt8_ofNat, id]
  omega

theorem byteCodec_round_trip (payload : SubPagePayload) (maxOut : Nat)
    (written : byteCodec.compress payload maxOut ≠ []) :
    byteCodec.decompress (byteCodec.compress payload maxOut) = some payload := by
  simp only [byteCodec] at written ⊢
  split at written
  · next fits =>
      rw [if_pos fits]
      obtain ⟨short, sameLength, small, -⟩ := fits
      have count : (UInt8.ofNat payload.keys.length).toNat = payload.keys.length := by
        rw [toNat_uInt8_ofNat]; omega
      simp only [count, List.map_append, List.take_left', List.drop_left', List.length_map,
        byte_round_trip fun x member => small x (List.mem_append_left _ member),
        byte_round_trip fun x member => small x (List.mem_append_right _ member)]
  · exact absurd rfl written

theorem compressLeafNodeWithMetadataEx_round_trip_on_two_sub_pages :
    let t : TreeSettings := ⟨4, .lz4, 2, true, 0, false⟩
    let leaf : BplusLeaf := ⟨2, [3, 7, 0, 0], [30, 70, 0, 0]⟩
    0 < leaf.entries ∧ 1 ≤ (addLeafMetadata t).numSubPages ∧
      (addLeafMetadata t).isCompressed = false ∧
      (0 ≤ t.entries ∧ t.entries ≤ leaf.key.length ∧ t.entries ≤ leaf.data.length) ∧
      ∃ result compressed, compressLeafNodeWithMetadataEx t ⟨byteCodec, byteCodec⟩
        ⟨leaf, some (addLeafMetadata t)⟩ = some (result, compressed) ∧ compressed.leaf = leaf :=
  ⟨by decide, by decide, rfl, by decide,
    (compressLeafNodeWithMetadataEx_round_trip ⟨4, .lz4, 2, true, 0, false⟩ ⟨byteCodec, byteCodec⟩
      ⟨2, [3, 7, 0, 0], [30, 70, 0, 0]⟩ _ (by decide) (by decide) rfl (by decide)
      byteCodec_round_trip byteCodec_round_trip).imp fun _ found =>
        found.imp fun _ ran => ⟨ran.1, ran.2.1⟩⟩

end ZipCache.DramTier
