import ZipCache.DramTier.Compressed

/-!
# Leaf compression with metadata (`bplustree_compressed.c`, hashed layout)

Beside each base-tree leaf the compressed tree keeps a metadata entry: the compressed flag,
the entry count at compression time, a compressed image of `MAX_COMPRESSED_SIZE` bytes, and
an index of one block of the image per sub-page. A leaf is cut into `num_sub_pages`
sub-pages of `c = tree->entries / num_sub_pages` slots each. Compression copies a
sub-page's `c` keys and `c` values into `tmp`, compresses them into the next free bytes of
the image, and records the block; decompression reads each block back and copies it into the
leaf's arrays.

The codecs (LZ4 and QPL) are opaque: a `Codec` is what the leaf functions call, on the
payload `tmp` holds. The base tree's `struct bplus_leaf` is not among the sources; the model
keeps the fields these functions read and write (`entries`, `key`, `data`), with arrays of
whatever length the leaf was allocated with. A slot index outside them, or a division by
zero, is undefined behaviour in C and `none` here. `malloc` and `calloc` succeed in these
functions. The byte counters `uncompressed_bytes` and `compressed_bytes` are read only by
`bplus_tree_compressed_stats` and are left out, as is the unused `layout` field.
-/

namespace ZipCache.DramTier

/-- `MAX_COMPRESSED_SIZE`. -/
def maxCompressedSize : Nat := 8192

/-- `compression_algo_t`: `COMPRESS_LZ4`, `COMPRESS_QPL`, or any other value the
configuration may hold. -/
inductive CompressionAlgo where
  | lz4
  | qpl
  | other
deriving DecidableEq, Repr

/-- What `tmp` holds for one sub-page: its `c` keys, then its `c` values. -/
structure SubPagePayload where
  keys : List Int
  values : List Int
deriving DecidableEq, Repr

/-- A codec as the leaf functions call it. `compress payload maxOut` is the block it writes:
`[]` when it fails or writes nothing (`out_len <= 0` for LZ4; a status other than
`QPL_STS_OK`, or `total_out == 0`, for QPL). `decompress bytes` is the payload, or `none`
when the codec reports an error. -/
structure Codec where
  compress : SubPagePayload → Nat → List UInt8
  decompress : List UInt8 → Option SubPagePayload

/-- The two codec libraries. -/
structure Codecs where
  lz4 : Codec
  qpl : Codec

/-- What the leaf functions read of `struct bplus_tree_compressed`: the base tree's
`entries` (slots per leaf), `config.algo`, `config.default_sub_pages`,
`config.enable_lazy_compression`, `buffer_flush_threshold`, and whether `qpl_job_ptr` is
set. -/
structure TreeSettings where
  entries : Int
  algo : CompressionAlgo
  defaultSubPages : Int
  enableLazyCompression : Bool
  bufferFlushThreshold : Int
  qplReady : Bool
deriving DecidableEq, Repr

/-- The fields of the base tree's `struct bplus_leaf` the compressed layer uses. -/
structure BplusLeaf where
  entries : Int
  key : List Int
  data : List Int
deriving DecidableEq, Repr

/-- `struct subpage_index_entry`: a block's place in the image. Its `uncompressed_bytes` is
read by no function. -/
structure SubpageIndexEntry where
  offset : Nat
  length : Nat
deriving DecidableEq, Repr

/-- `struct leaf_meta_entry`, the fields the hashed layout uses. `subpageIndex` is the
`subpage_index` array with `subpage_index_count` entries; the empty list stands for `NULL`,
whose count is `0`. -/
structure LeafMetaEntry where
  isCompressed : Bool
  originalEntries : Int
  compressedSize : Int
  compressedData : Nat → UInt8
  numSubPages : Int
  subpageIndex : List SubpageIndexEntry
  buffer : Option WritingBuffer

/-- A base-tree leaf and its metadata entry, if `find_leaf_metadata_index` finds one. -/
structure LeafState where
  leaf : BplusLeaf
  metadata : Option LeafMetaEntry

/-- `a[start .. start + count)`, or `none` when the range leaves the array. -/
def readSlots (a : List Int) (start count : Int) : Option (List Int) :=
  if 0 ≤ start ∧ 0 ≤ count ∧ start + count ≤ a.length then
    some ((a.drop start.toNat).take count.toNat)
  else none

/-- `memcpy` of `xs` into `a` from slot `start`, or `none` when it would leave the array. -/
def writeSlots (a : List Int) (start : Int) (xs : List Int) : Option (List Int) :=
  if 0 ≤ start ∧ start + xs.length ≤ a.length then
    some (a.take start.toNat ++ xs ++ a.drop (start.toNat + xs.length))
  else none

/-- `a[j]`, or `none` outside the array. -/
def readSlot (a : List Int) (j : Int) : Option Int :=
  if 0 ≤ j then a[j.toNat]? else none

/-- The bytes a codec writes at `offset` of the image. -/
def writeImage (image : Nat → UInt8) (offset : Nat) (bytes : List UInt8) : Nat → UInt8 :=
  fun i => if offset ≤ i ∧ i < offset + bytes.length then bytes.getD (i - offset) 0 else image i

/-- The `length` bytes of the image from `offset`. -/
def readImage (image : Nat → UInt8) (offset length : Nat) : List UInt8 :=
  (List.range length).map fun i => image (offset + i)

/-- The two `memcpy`s into `tmp`: sub-page `sp`'s `subcap` keys and values. -/
def subPagePayload (leaf : BplusLeaf) (sp subcap : Int) : Option SubPagePayload :=
  match readSlots leaf.key (sp * subcap) subcap, readSlots leaf.data (sp * subcap) subcap with
  | some keys, some values => some ⟨keys, values⟩
  | _, _ => none

/-- `add_leaf_metadata`: an uncompressed entry with the configured sub-page count and a
zeroed index for it. The image starts as zeros. -/
def addLeafMetadata (t : TreeSettings) : LeafMetaEntry :=
  { isCompressed := false, originalEntries := 0, compressedSize := 0,
    compressedData := fun _ => 0, numSubPages := t.defaultSubPages,
    subpageIndex := List.replicate t.defaultSubPages.toNat ⟨0, 0⟩, buffer := none }

/-- Write sub-page `sp`'s block at `offset` of the image and record it in the index. -/
def recordBlock (metadata : LeafMetaEntry) (sp offset : Nat) (out : List UInt8) :
    LeafMetaEntry :=
  { metadata with compressedData := writeImage metadata.compressedData offset out,
                  subpageIndex := metadata.subpageIndex.set sp ⟨offset, out.length⟩ }

/-- The per-sub-page loop of `compress_leaf_node_with_metadata_ex`, the same for both
codecs, over the sub-pages `sps` with `offset` bytes of the image in use: `.ok offset` once
every sub-page has its block, `.error r` when the function returns `r` from the loop. -/
def compressSubPages (codec : Codec) (leaf : BplusLeaf) (subcap : Int) :
    List Nat → Nat → LeafMetaEntry → Option (Except Int Nat × LeafMetaEntry)
  | [], offset, metadata => some (.ok offset, metadata)
  | sp :: rest, offset, metadata =>
      match subPagePayload leaf sp subcap with
      | none => none
      | some payload =>
          if maxCompressedSize ≤ offset then some (.error (-1), metadata)
          else
            let out := codec.compress payload (maxCompressedSize - offset)
            if out = [] then some (.error 0, metadata)
            else
              let metadata := recordBlock metadata sp offset out
              if maxCompressedSize < offset + out.length then some (.error 0, metadata)
              else compressSubPages codec leaf subcap rest (offset + out.length) metadata

/-- The end of `compress_leaf_node_with_metadata_ex`: a loop that ran through marks the
leaf compressed, with the image size and the entry count. -/
def finishCompression (state : LeafState) :
    Except Int Nat × LeafMetaEntry → Int × LeafState
  | (.error result, metadata) => (result, { state with metadata := some metadata })
  | (.ok offset, metadata) =>
      let metadata := { metadata with
        compressedSize := offset, originalEntries := state.leaf.entries, isCompressed := true }
      (0, { state with metadata := some metadata })

/-- `compress_leaf_node_with_metadata_ex`: nothing to do for an empty, already compressed or
unpartitioned leaf; otherwise compress every sub-page with the configured codec. The leaf's
arrays are only read. -/
def compressLeafNodeWithMetadataEx (t : TreeSettings) (codecs : Codecs) (state : LeafState) :
    Option (Int × LeafState) :=
  if state.leaf.entries = 0 then some (0, state)
  else
    let metadata := state.metadata.getD (addLeafMetadata t)
    if metadata.isCompressed ∨ metadata.numSubPages ≤ 0 then
      some (0, { state with metadata := some metadata })
    else
      let n := metadata.numSubPages
      let metadata := if metadata.subpageIndex.length < n then
          { metadata with subpageIndex := List.replicate n.toNat ⟨0, 0⟩ }
        else metadata
      let run := fun codec =>
        (compressSubPages codec state.leaf (t.entries.tdiv n) (List.range n.toNat) 0 metadata).map
          (finishCompression state)
      match t.algo with
      | .lz4 => run codecs.lz4
      | .qpl =>
          if t.qplReady then run codecs.qpl else some (-1, { state with metadata := some metadata })
      | .other => some (-1, { state with metadata := some metadata })

/-- `decompress_leaf_partial_lz4` and `decompress_leaf_partial_qpl`: decompress sub-page
`sp`'s block and copy it into the leaf's arrays. A `NULL` index has count `0`, so the range
test covers it; `ready` is QPL's `qpl_job_ptr` test. -/
def decompressLeafPartial (codec : Codec) (ready : Bool) (leaf : BplusLeaf)
    (metadata : LeafMetaEntry) (sp subcap : Int) : Option (Int × BplusLeaf) :=
  if sp < 0 ∨ metadata.subpageIndex.length ≤ sp ∨ ready = false then some (-1, leaf)
  else
    let entry := metadata.subpageIndex.getD sp.toNat ⟨0, 0⟩
    match codec.decompress (readImage metadata.compressedData entry.offset entry.length) with
    | none => some (-1, leaf)
    | some payload =>
        if (payload.keys.length : Int) ≠ subcap ∨ (payload.values.length : Int) ≠ subcap then
          some (-1, leaf)
        else
          match writeSlots leaf.key (sp * subcap) payload.keys,
              writeSlots leaf.data (sp * subcap) payload.values with
          | some key, some data => some (0, { leaf with key, data })
          | _, _ => none

/-- `decompress_leaf_partial_lz4`. -/
def decompressLeafPartialLz4 (codecs : Codecs) : BplusLeaf → LeafMetaEntry → Int → Int →
    Option (Int × BplusLeaf) :=
  decompressLeafPartial codecs.lz4 true

/-- `decompress_leaf_partial_qpl`. -/
def decompressLeafPartialQpl (t : TreeSettings) (codecs : Codecs) : BplusLeaf → LeafMetaEntry →
    Int → Int → Option (Int × BplusLeaf) :=
  decompressLeafPartial codecs.qpl t.qplReady

/-- The sub-page loop of `decompress_leaf_node_with_metadata_ex`: `-1` at the first
sub-page that fails, with the sub-pages before it already copied back. -/
def decompressSubPages (partialStep : BplusLeaf → Int → Option (Int × BplusLeaf)) :
    List Nat → BplusLeaf → Option (Int × BplusLeaf)
  | [], leaf => some (0, leaf)
  | sp :: rest, leaf =>
      match partialStep leaf sp with
      | none => none
      | some (result, leaf) =>
          if result ≠ 0 then some (-1, leaf) else decompressSubPages partialStep rest leaf

/-- The end of `decompress_leaf_node_with_metadata_ex`: a loop that ran through restores the
entry count and clears the compressed flag. -/
def finishDecompression (state : LeafState) (metadata : LeafMetaEntry) :
    Int × BplusLeaf → Int × LeafState
  | (result, leaf) =>
      if result ≠ 0 then (-1, { state with leaf })
      else (0, ⟨{ leaf with entries := metadata.originalEntries },
        some { metadata with isCompressed := false }⟩)

/-- `decompress_leaf_node_with_metadata_ex`: nothing to do for a leaf without a compressed
image; otherwise decompress every sub-page with the configured codec. -/
def decompressLeafNodeWithMetadataEx (t : TreeSettings) (codecs : Codecs) (state : LeafState) :
    Option (Int × LeafState) :=
  match state.metadata with
  | none => some (0, state)
  | some metadata =>
      if metadata.isCompressed = false ∨ metadata.compressedSize ≤ 0 then some (0, state)
      else if metadata.numSubPages = 0 then none
      else
        let subcap := t.entries.tdiv metadata.numSubPages
        let run := fun partialStep =>
          (decompressSubPages partialStep (List.range metadata.numSubPages.toNat) state.leaf).map
            (finishDecompression state metadata)
        match t.algo with
        | .lz4 => run fun leaf sp => decompressLeafPartialLz4 codecs leaf metadata sp subcap
        | .qpl => run fun leaf sp => decompressLeafPartialQpl t codecs leaf metadata sp subcap
        | .other => some (-1, state)

end ZipCache.DramTier
