import ZipCache.DramTier.LeafCodec

/-!
# The hashed leaf layout: write buffer, flush and lookup

A key of a leaf belongs to sub-page `hash_key_to_sub_page(key, n) = key % n`, whose slots are
`[s * c, (s + 1) * c)` of the leaf's arrays, with `0` marking an empty slot.
`flush_to_hashed_leaf` opens a compressed leaf, writes each buffered record into its
sub-page (updating the key's slot or filling the first empty one), hands a record whose
sub-page is full to `bplus_tree_put`, and compresses the leaf again.

This module follows one leaf. `Compressed.lean` keeps the write buffers of all leaves as a
map and flushes into the base tree; here the buffer sits in the leaf's metadata entry and the
flush writes the leaf's slots. The base tree's `bplus_tree_put` is not among the sources: it
is a parameter `basePut`, what the put leaves in the key's leaf when it does not split it.
The allocations of `add_to_buffer` are given by `Allocations`, since its result depends on
them.
-/

namespace ZipCache.DramTier

/-- `hash_key_to_sub_page`: C's remainder `key % num_sub_pages`, which takes the key's sign. -/
def hashKeyToSubPage (key numSubPages : Int) : Int :=
  if numSubPages = 0 then 0 else key.tmod numSubPages

/-- `search_buffer`: the index of the first record of the key, or `-1`. -/
def searchBuffer (buffer : WritingBuffer) (key : Int) : Int :=
  match buffer.entries.findIdx? (·.key = key) with
  | some i => i
  | none => -1

/-- The slot loop of `flush_to_hashed_leaf` for one record, from slot `j` with `remaining`
slots left: the first slot holding the key (`target_idx`, `-1` if none) and the first empty
slot before it (`empty_slot`). `none` when a slot read leaves the array. -/
def scanSlots (keys : List Int) (key : Int) : Int → Nat → Int → Option (Int × Int)
  | _, 0, emptySlot => some (-1, emptySlot)
  | j, remaining + 1, emptySlot =>
      match readSlot keys j with
      | none => none
      | some slotKey =>
          if slotKey = key then some (j, emptySlot)
          else scanSlots keys key (j + 1) remaining
            (if slotKey = 0 ∧ emptySlot = -1 then j else emptySlot)

section
variable (basePut : BplusLeaf → Int → Int → BplusLeaf)

/-- One record of `flush_to_hashed_leaf`: update the key's slot, or fill the first empty slot
of its sub-page and raise `entries` past it, or hand the record to `bplus_tree_put` when the
sub-page is full. -/
def flushRecord (numSubPages subcap : Int) (leaf : BplusLeaf) (record : BufferEntry) :
    Option BplusLeaf :=
  let start := hashKeyToSubPage record.key numSubPages * subcap
  match scanSlots leaf.key record.key start subcap.toNat (-1) with
  | none => none
  | some (target, emptySlot) =>
      if target ≠ -1 then
        (writeSlots leaf.data target [record.value]).map fun data => { leaf with data }
      else if emptySlot ≠ -1 then
        match writeSlots leaf.key emptySlot [record.key],
            writeSlots leaf.data emptySlot [record.value] with
        | some key, some data =>
            some { key, data, entries := if leaf.entries ≤ emptySlot then emptySlot + 1
              else leaf.entries }
        | _, _ => none
      else some (basePut leaf record.key record.value)

/-- The record loop of `flush_to_hashed_leaf`, in buffer order. -/
def flushRecords (numSubPages subcap : Int) : List BufferEntry → BplusLeaf → Option BplusLeaf
  | [], leaf => some leaf
  | record :: rest, leaf =>
      (flushRecord basePut numSubPages subcap leaf record).bind
        (flushRecords numSubPages subcap rest)

variable (t : TreeSettings) (codecs : Codecs)

/-- `flush_to_hashed_leaf`: open a compressed leaf (`-1` if that fails), write the records,
and return what compressing the leaf again returns. -/
def flushToHashedLeaf (leaf : BplusLeaf) (metadata : LeafMetaEntry) (buffer : WritingBuffer) :
    Option (Int × LeafState) :=
  let opened := if metadata.isCompressed then
      decompressLeafNodeWithMetadataEx t codecs ⟨leaf, some metadata⟩
    else some (0, ⟨leaf, some metadata⟩)
  opened.bind fun (result, state) =>
    if result ≠ 0 ∨ metadata.numSubPages ≤ 0 then some (-1, state)
    else
      let subcap := t.entries.tdiv metadata.numSubPages
      (flushRecords basePut metadata.numSubPages subcap buffer.entries state.leaf).bind
        fun leaf => compressLeafNodeWithMetadataEx t codecs { state with leaf }

end

namespace Hashed

/-- Whether each allocation `add_to_buffer` may make succeeds: the leaf's metadata entry
(`add_leaf_metadata`, with its image), its write buffer, and the work item that queues
the leaf for the background thread. -/
structure Allocations where
  metadata : Bool
  buffer : Bool
  workItem : Bool
deriving DecidableEq, Repr

/-- `add_to_buffer` once the leaf has a metadata entry: allocate the buffer if there is none,
refuse a full one, else record the write, mark the buffer dirty, and say whether the leaf is
queued for the background thread. -/
def addToMetadataBuffer (t : TreeSettings) (alloc : Allocations) (state : LeafState)
    (metadata : LeafMetaEntry) (key value : Int) (operation : Char) : Int × LeafState × Bool :=
  let buffer := metadata.buffer.orElse fun _ =>
    if alloc.buffer then some WritingBuffer.empty else none
  let state := { state with metadata := some { metadata with buffer } }
  match buffer with
  | none => (-1, state, false)
  | some buffer =>
      if maxBufferEntries ≤ buffer.entries.length then (-1, state, false)
      else
        let buffer : WritingBuffer := ⟨recordInBuffer key value operation buffer.entries, true⟩
        (0, { state with metadata := some { metadata with buffer := some buffer } },
          decide (t.bufferFlushThreshold ≤ buffer.entries.length) && alloc.workItem)

/-- `add_to_buffer`: find or add the leaf's metadata entry (`-1` when that fails), then
record the write in its buffer. -/
def addToBuffer (t : TreeSettings) (alloc : Allocations) (state : LeafState) (key value : Int)
    (operation : Char) : Int × LeafState × Bool :=
  match state.metadata with
  | some metadata => addToMetadataBuffer t alloc state metadata key value operation
  | none =>
      if alloc.metadata then
        addToMetadataBuffer t alloc state (addLeafMetadata t) key value operation
      else (-1, state, false)

section
variable (basePut : BplusLeaf → Int → Int → BplusLeaf) (t : TreeSettings) (codecs : Codecs)

/-- `flush_buffer_to_leaf`: nothing to do without a dirty, non-empty buffer; otherwise
flush it into the leaf and empty it when that returns `0`. -/
def flushBufferToLeaf (state : LeafState) : Option (Int × LeafState) :=
  match state.metadata with
  | none => some (0, state)
  | some metadata =>
      match metadata.buffer with
      | none => some (0, state)
      | some buffer =>
          if buffer.entries = [] ∨ buffer.dirty = false then some (0, state)
          else
            (flushToHashedLeaf basePut t codecs state.leaf metadata buffer).map
              fun (result, flushed) =>
                if result = 0 then
                  (0, { flushed with metadata := flushed.metadata.map fun metadata =>
                    { metadata with buffer := some WritingBuffer.empty } })
                else (result, flushed)

/-- `bplus_tree_compressed_put` on the key's leaf, for a put the base tree makes without
splitting it: buffer the write when lazy compression is on, and return if that succeeds;
else flush the buffer, open a compressed leaf (ignoring whether that succeeds), put through
the base tree, and compress the leaf again when lazy compression is on. Always `0`. -/
def bplusTreeCompressedPut (alloc : Allocations) (state : LeafState) (key data : Int) :
    Option (Int × LeafState) :=
  let buffered := if t.enableLazyCompression then
      some (addToBuffer t alloc state key data (if data = 0 then 'D' else 'I'))
    else none
  match buffered with
  | some (0, state, _) => some (0, state)
  | _ =>
      let state := (buffered.map fun result => result.2.1).getD state
      let flushed := if t.enableLazyCompression then
          (flushBufferToLeaf basePut t codecs state).map Prod.snd
        else some state
      flushed.bind fun state =>
        let opened := match state.metadata with
          | some metadata =>
              if metadata.isCompressed then
                (decompressLeafNodeWithMetadataEx t codecs state).map Prod.snd
              else some state
          | none => some state
        opened.bind fun state =>
          let state := { state with leaf := basePut state.leaf key data }
          if t.enableLazyCompression then
            (compressLeafNodeWithMetadataEx t codecs state).map fun (_, state) => (0, state)
          else some (0, state)

end

end Hashed

end ZipCache.DramTier
