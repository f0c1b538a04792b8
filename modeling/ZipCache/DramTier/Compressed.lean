import ZipCache.DramTier.BaseTree

/-!
# The compressed DRAM tree (`bplustree_compressed.c`)

With lazy compression on, a put to a key whose leaf exists goes into that leaf's write
buffer and returns; only a full buffer sends it on to the base tree. `get` asks the base
tree alone, so a buffered write stays invisible to it until a flush applies the buffer.
`buffer_flush_threshold` is never assigned and stays `0` from `calloc`: every buffered
write queues its leaf for the background thread, which flushes it whenever it runs.

This is the whole-tree view: a flush puts the buffered records into the base tree, and
compression, which copies a leaf's arrays into blocks and back, is left out. The one-leaf
model of `HashedLeaf.lean` has the sources' own flush into the slots of a hashed leaf, with
compression, and `SlotView.lean` shows that it moves what the leaf's slots answer as this
model moves the base tree. Leaf identity belongs to the base tree, which is not among the
sources: the model takes `find_leaf_for_key` as a parameter `leafFor`.
-/

namespace ZipCache.DramTier

/-- `MAX_BUFFER_ENTRIES`. -/
def maxBufferEntries : Nat := 32

/-- `struct buffer_entry`. -/
structure BufferEntry where
  key : Int
  value : Int
  operation : Char
deriving DecidableEq, Repr

/-- `struct writing_buffer`: `entries[0 .. count)` and the dirty flag. -/
structure WritingBuffer where
  entries : List BufferEntry
  dirty : Bool
deriving DecidableEq, Repr

/-- A buffer `calloc` has just made. -/
def WritingBuffer.empty : WritingBuffer := ⟨[], false⟩

/-- `struct compression_config`, the field the write path reads. Layout, codec and levels
change no stored value and are left out. -/
structure CompressionConfig where
  enableLazyCompression : Bool
deriving DecidableEq, Repr

/-- `bplus_tree_create_default_leaf_config`: lazy compression on. -/
def defaultLeafConfig : CompressionConfig := ⟨true⟩

/-- `struct bplus_tree_compressed`: the base tree, the write buffers of the leaf metadata
map in creation order, the work queue of leaves to flush, the configuration, and
`buffer_flush_threshold`. -/
structure BplusTreeCompressed where
  tree : BaseTree
  buffers : List (Nat × WritingBuffer)
  queue : List Nat
  config : CompressionConfig
  bufferFlushThreshold : Int
deriving DecidableEq, Repr

/-- `bplus_tree_compressed_init_with_config`: an empty base tree, no metadata, an empty
queue; `buffer_flush_threshold` keeps the `0` of `calloc`. -/
def bplusTreeCompressedInitWithConfig (config : CompressionConfig) : BplusTreeCompressed :=
  ⟨BaseTree.empty, [], [], config, 0⟩

namespace BplusTreeCompressed

/-- The buffer of a leaf; a leaf with no metadata has an empty one. -/
def bufferOf (ct : BplusTreeCompressed) (leaf : Nat) : WritingBuffer :=
  (ct.buffers.lookup leaf).getD WritingBuffer.empty

/-- Store a leaf's buffer, adding its metadata entry at the end if it has none. -/
def setBuffer (ct : BplusTreeCompressed) (leaf : Nat) (buffer : WritingBuffer) :
    BplusTreeCompressed :=
  if (ct.buffers.lookup leaf).isSome then
    { ct with buffers := ct.buffers.map fun entry =>
        if entry.1 = leaf then (leaf, buffer) else entry }
  else { ct with buffers := ct.buffers ++ [(leaf, buffer)] }

@[simp]
theorem setBuffer_tree (ct : BplusTreeCompressed) (leaf : Nat) (buffer : WritingBuffer) :
    (ct.setBuffer leaf buffer).tree = ct.tree := by
  unfold setBuffer
  split <;> rfl

@[simp]
theorem setBuffer_config (ct : BplusTreeCompressed) (leaf : Nat) (buffer : WritingBuffer) :
    (ct.setBuffer leaf buffer).config = ct.config := by
  unfold setBuffer
  split <;> rfl

theorem lookup_map_set {β : Type} (entries : List (Nat × β)) {leaf : Nat} (value : β)
    (present : (entries.lookup leaf).isSome) :
    (entries.map fun entry => if entry.1 = leaf then (leaf, value) else entry).lookup leaf =
      some value := by
  induction entries with
  | nil => simp at present
  | cons entry rest inductionHypothesis =>
      obtain ⟨first, old⟩ := entry
      by_cases hit : first = leaf
      · simp [hit, List.lookup_cons]
      · have miss : (leaf == first) = false := by simpa using Ne.symm hit
        simp only [List.lookup_cons, miss] at present
        simp [hit, List.lookup_cons, miss, inductionHypothesis present]

theorem lookup_append_of_none {β : Type} (entries : List (Nat × β)) {leaf : Nat} (value : β)
    (absent : entries.lookup leaf = none) :
    (entries ++ [(leaf, value)]).lookup leaf = some value := by
  induction entries with
  | nil => simp [List.lookup_cons]
  | cons entry rest inductionHypothesis =>
      obtain ⟨first, old⟩ := entry
      by_cases hit : leaf = first
      · simp [hit, List.lookup_cons] at absent
      · have miss : (leaf == first) = false := by simpa using hit
        simp only [List.lookup_cons, miss] at absent
        simp [List.lookup_cons, miss, inductionHypothesis absent]

@[simp]
theorem bufferOf_setBuffer_self (ct : BplusTreeCompressed) (leaf : Nat) (buffer : WritingBuffer) :
    (ct.setBuffer leaf buffer).bufferOf leaf = buffer := by
  unfold setBuffer bufferOf
  split
  · next present => simp [lookup_map_set _ _ present]
  · next absent =>
      simp [lookup_append_of_none _ _ (Option.not_isSome_iff_eq_none.mp absent)]

end BplusTreeCompressed

/-- The record loop of `add_to_buffer`: overwrite the first entry for the key, or append
one. -/
def recordInBuffer (key value : Int) (operation : Char) : List BufferEntry → List BufferEntry
  | [] => [⟨key, value, operation⟩]
  | entry :: rest =>
      if entry.key = key then { entry with value, operation } :: rest
      else entry :: recordInBuffer key value operation rest

/-- `add_to_buffer`: `none` (the `-1`) for a full buffer; else record the write, mark the
buffer dirty, and queue the leaf once the count reaches `buffer_flush_threshold`. -/
def addToBuffer (ct : BplusTreeCompressed) (leaf : Nat) (key value : Int) (operation : Char) :
    Option BplusTreeCompressed :=
  let buffer := ct.bufferOf leaf
  if maxBufferEntries ≤ buffer.entries.length then none
  else
    let entries := recordInBuffer key value operation buffer.entries
    let ct := ct.setBuffer leaf ⟨entries, true⟩
    if ct.bufferFlushThreshold ≤ entries.length then some { ct with queue := ct.queue ++ [leaf] }
    else some ct

theorem addToBuffer_of_room (ct : BplusTreeCompressed) {leaf : Nat} (key value : Int)
    (operation : Char) (room : (ct.bufferOf leaf).entries.length < maxBufferEntries) :
    ∃ buffered, addToBuffer ct leaf key value operation = some buffered ∧
      buffered.tree = ct.tree ∧ buffered.config = ct.config ∧
      buffered.bufferOf leaf =
        ⟨recordInBuffer key value operation (ct.bufferOf leaf).entries, true⟩ := by
  unfold addToBuffer
  rw [if_neg (Nat.not_le.mpr room)]
  dsimp only
  split
  all_goals exact ⟨_, rfl, by simp, by simp, BplusTreeCompressed.bufferOf_setBuffer_self _ _ _⟩

/-- `flush_buffer_to_leaf` over the whole tree: a dirty, non-empty buffer is put into the base
tree record by record, in buffer order, and emptied. -/
def flushBufferToLeaf (ct : BplusTreeCompressed) (leaf : Nat) : Int × BplusTreeCompressed :=
  match ct.buffers.lookup leaf with
  | none => (0, ct)
  | some buffer =>
      if buffer.entries = [] ∨ buffer.dirty = false then (0, ct)
      else
        let tree := buffer.entries.foldl (fun tree entry => (tree.put entry.key entry.value).2)
          ct.tree
        (0, { ct.setBuffer leaf WritingBuffer.empty with tree })

/-- One round of `background_compression_thread`: take the first queued leaf and flush it;
`none` while the queue is empty. -/
def backgroundFlush (ct : BplusTreeCompressed) : Option BplusTreeCompressed :=
  match ct.queue with
  | [] => none
  | leaf :: rest => some (flushBufferToLeaf { ct with queue := rest } leaf).2

section
variable (leafFor : BaseTree → Int → Option Nat)

/-- The direct path of `bplus_tree_compressed_put`: `bplus_tree_put` on the base tree. Its
status and the new sibling it may return are ignored; the put returns `0`. -/
def directPut (ct : BplusTreeCompressed) (key data : Int) : Int × BplusTreeCompressed :=
  (0, { ct with tree := (ct.tree.put key data).2 })

/-- `bplus_tree_compressed_put`: into the leaf's buffer when lazy compression is on and the
key's leaf exists; after a failed buffering, flush that leaf, then put directly. The opening and
recompressing of the leaf around that put belong to the one-leaf model. -/
def bplusTreeCompressedPut (ct : BplusTreeCompressed) (key data : Int) :
    Int × BplusTreeCompressed :=
  match leafFor ct.tree key with
  | some leaf =>
      if ct.config.enableLazyCompression then
        match addToBuffer ct leaf key data (if data = 0 then 'D' else 'I') with
        | some ct => (0, ct)
        | none => directPut (flushBufferToLeaf ct leaf).2 key data
      else directPut ct key data
  | none => directPut ct key data

theorem bplusTreeCompressedPut_of_lazy_off {ct : BplusTreeCompressed} (key data : Int)
    (eager : ct.config.enableLazyCompression = false) :
    bplusTreeCompressedPut leafFor ct key data = directPut ct key data := by
  unfold bplusTreeCompressedPut
  split <;> simp [eager]

theorem bplusTreeCompressedPut_buffered {ct : BplusTreeCompressed} {key : Int} (data : Int)
    {leaf : Nat} (lazy : ct.config.enableLazyCompression = true)
    (routed : leafFor ct.tree key = some leaf)
    (room : (ct.bufferOf leaf).entries.length < maxBufferEntries) :
    (bplusTreeCompressedPut leafFor ct key data).1 = 0 ∧
      (bplusTreeCompressedPut leafFor ct key data).2.tree = ct.tree ∧
      (bplusTreeCompressedPut leafFor ct key data).2.config = ct.config := by
  obtain ⟨buffered, added, sameTree, sameConfig, -⟩ :=
    addToBuffer_of_room ct key data (if data = 0 then 'D' else 'I') room
  simp [bplusTreeCompressedPut, routed, lazy, added, sameTree, sameConfig]

/-- `bplus_tree_compressed_delete`: a put of `0`. -/
def bplusTreeCompressedDelete (ct : BplusTreeCompressed) (key : Int) :
    Int × BplusTreeCompressed :=
  bplusTreeCompressedPut leafFor ct key 0

end

/-- `bplus_tree_compressed_get`: the base tree's answer. The buffers are not consulted. -/
def bplusTreeCompressedGet (ct : BplusTreeCompressed) (key : Int) : Int :=
  ct.tree.get key

/-- A call of the compressed tree's write interface. -/
inductive CompressedWrite where
  | put (key data : Int)
  | delete (key : Int)
deriving DecidableEq, Repr

/-- The tree after a write. -/
def CompressedWrite.apply (leafFor : BaseTree → Int → Option Nat) (ct : BplusTreeCompressed) :
    CompressedWrite → BplusTreeCompressed
  | .put key data => (bplusTreeCompressedPut leafFor ct key data).2
  | .delete key => (bplusTreeCompressedDelete leafFor ct key).2

/-- What a read of `key` should answer after a write, given the answer before it: the
value put, or `-1` after a delete (a put of `0` deletes). -/
def CompressedWrite.expected (key before : Int) : CompressedWrite → Int
  | .put written data => if written = key then (if data = 0 then -1 else data) else before
  | .delete written => if written = key then -1 else before

/-- The answer the ordered-map reading of the interface gives for `key` after a run of
writes on an empty tree: the latest put's value, or `-1`. -/
def latestWrite (writes : List CompressedWrite) (key : Int) : Int :=
  writes.foldl (fun before write => write.expected key before) (-1)

section
variable (leafFor : BaseTree → Int → Option Nat)

theorem CompressedWrite.apply_of_lazy_off {ct : BplusTreeCompressed}
    (eager : ct.config.enableLazyCompression = false) (write : CompressedWrite) (key : Int) :
    bplusTreeCompressedGet (write.apply leafFor ct) key =
        write.expected key (bplusTreeCompressedGet ct key) ∧
      (write.apply leafFor ct).config = ct.config := by
  cases write with
  | put written data =>
      simp only [apply, expected, bplusTreeCompressedPut_of_lazy_off leafFor _ _ eager]
      by_cases same : written = key
      · subst same
        simp [directPut, bplusTreeCompressedGet]
      · simp [directPut, bplusTreeCompressedGet, same, BaseTree.get_put_of_ne _ _ (Ne.symm same)]
  | delete written =>
      simp only [apply, expected, bplusTreeCompressedDelete,
        bplusTreeCompressedPut_of_lazy_off leafFor _ _ eager]
      by_cases same : written = key
      · subst same
        simp [directPut, bplusTreeCompressedGet]
      · simp [directPut, bplusTreeCompressedGet, same, BaseTree.get_put_of_ne _ _ (Ne.symm same)]

theorem bplusTreeCompressedGet_run_of_lazy_off (writes : List CompressedWrite) :
    ∀ (ct : BplusTreeCompressed) (key : Int), ct.config.enableLazyCompression = false →
      bplusTreeCompressedGet (writes.foldl (CompressedWrite.apply leafFor) ct) key =
        writes.foldl (fun before write => write.expected key before)
          (bplusTreeCompressedGet ct key) := by
  induction writes with
  | nil => intro ct key _; rfl
  | cons write rest inductionHypothesis =>
      intro ct key eager
      obtain ⟨moved, kept⟩ := write.apply_of_lazy_off leafFor eager key
      rw [List.foldl_cons, List.foldl_cons, inductionHypothesis _ key (kept ▸ eager), moved]

end

/-- The routing of a base tree that is one leaf once it holds a key: `find_leaf_for_key`
finds no leaf while the root is `NULL`. -/
def rootLeaf (tree : BaseTree) (_ : Int) : Option Nat :=
  if tree.entries = [] then none else some 0

theorem bplusTreeCompressedGet_misses_buffered_put :
    latestWrite [.put 7 1, .put 7 2] 7 = 2 ∧
      bplusTreeCompressedGet ([CompressedWrite.put 7 1, .put 7 2].foldl
        (CompressedWrite.apply rootLeaf)
          (bplusTreeCompressedInitWithConfig defaultLeafConfig)) 7 = 1 := by
  decide

/-- The compressed tree reads as an ordered map when lazy compression is off. When it is on,
a put that finds its leaf with room in the leaf's buffer returns `0` and leaves every `get`
as it was: the write shows only once a flush applies the buffer. -/
theorem bplusTreeCompressed_map_when_eager_and_buffered_put_unseen
    (leafFor : BaseTree → Int → Option Nat) :
    (∀ (config : CompressionConfig) (writes : List CompressedWrite) (key : Int),
      config.enableLazyCompression = false →
        bplusTreeCompressedGet (writes.foldl (CompressedWrite.apply leafFor)
          (bplusTreeCompressedInitWithConfig config)) key = latestWrite writes key) ∧
    (∀ (ct : BplusTreeCompressed) (key data : Int) (leaf : Nat),
      ct.config.enableLazyCompression = true → leafFor ct.tree key = some leaf →
      (ct.bufferOf leaf).entries.length < maxBufferEntries →
        (bplusTreeCompressedPut leafFor ct key data).1 = 0 ∧
        ∀ other, bplusTreeCompressedGet (bplusTreeCompressedPut leafFor ct key data).2 other =
          bplusTreeCompressedGet ct other) := by
  refine ⟨fun config writes key eager =>
    bplusTreeCompressedGet_run_of_lazy_off leafFor writes _ key eager, ?_⟩
  intro ct key data leaf lazy routed room
  obtain ⟨status, sameTree, -⟩ := bplusTreeCompressedPut_buffered leafFor data lazy routed room
  exact ⟨status, fun other => by rw [bplusTreeCompressedGet, sameTree, bplusTreeCompressedGet]⟩

theorem bplusTreeCompressed_map_when_eager_and_buffered_put_unseen_at_seven :
    bplusTreeCompressedGet ([CompressedWrite.put 7 1, .put 7 2].foldl
        (CompressedWrite.apply rootLeaf) (bplusTreeCompressedInitWithConfig ⟨false⟩)) 7 = 2 ∧
      bplusTreeCompressedGet (bplusTreeCompressedPut rootLeaf
        (bplusTreeCompressedPut rootLeaf
          (bplusTreeCompressedInitWithConfig defaultLeafConfig) 7 1).2 7 2).2 7 = 1 := by
  obtain ⟨eager, lazy⟩ := bplusTreeCompressed_map_when_eager_and_buffered_put_unseen rootLeaf
  exact ⟨(eager ⟨false⟩ _ 7 rfl).trans (by decide),
    ((lazy _ 7 2 0 rfl (by decide) (by decide)).2 7).trans (by decide)⟩

end ZipCache.DramTier
