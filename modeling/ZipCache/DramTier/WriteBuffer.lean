import ZipCache.DramTier.HashedLeaf
import ZipCache.DramTier.CodecRoundTrip

/-!
# The write buffer of one leaf

`add_to_buffer` keeps one record per key in a leaf's write buffer, overwriting the record of a
key written again and appending a new key at the end, up to `MAX_BUFFER_ENTRIES` records;
`flush_buffer_to_leaf` writes the records into the leaf and empties the buffer when that
returns `0`. `BufferSpec` says what the buffer should hold after a list of accepted writes,
and every run of the two calls keeps it (`bufferRun_keeps_buffer_spec`). Compression,
decompression and the flush into the leaf never touch the buffer, so what one call can do to
it is said once, by `addToBuffer_cases` and `flushBufferToLeaf_cases`.
-/

namespace ZipCache.DramTier

/-- The keys of a run of writes, in the order they first arrived. -/
def firstArrivals (keys : List Int) : List Int :=
  keys.foldl (fun seen key => if key ∈ seen then seen else seen ++ [key]) []

theorem firstArrivals_append_single (keys : List Int) (key : Int) :
    firstArrivals (keys ++ [key]) =
      if key ∈ firstArrivals keys then firstArrivals keys else firstArrivals keys ++ [key] := by
  simp [firstArrivals, List.foldl_append]

theorem mem_firstArrivals {keys : List Int} :
    ∀ {key : Int}, key ∈ firstArrivals keys ↔ key ∈ keys := by
  induction keys using List.reverseRecOn with
  | nil => simp [firstArrivals]
  | append_singleton keys last inductionHypothesis =>
      intro key
      rw [firstArrivals_append_single]
      split
      · next seen =>
          rw [inductionHypothesis] at seen ⊢
          simp only [List.mem_append, List.mem_singleton]
          exact ⟨.inl, fun member => member.elim id fun same => same ▸ seen⟩
      · simp [inductionHypothesis]

theorem map_key_recordInBuffer (key value : Int) (operation : Char) (entries : List BufferEntry) :
    (recordInBuffer key value operation entries).map BufferEntry.key =
      if key ∈ entries.map BufferEntry.key then entries.map BufferEntry.key
      else entries.map BufferEntry.key ++ [key] := by
  induction entries with
  | nil => simp [recordInBuffer]
  | cons entry rest inductionHypothesis =>
      by_cases hit : entry.key = key
      · simp [recordInBuffer, hit]
      · have elsewhere : key ∈ entry.key :: rest.map BufferEntry.key ↔
            key ∈ rest.map BufferEntry.key := by
          simp [Ne.symm hit]
        simp only [recordInBuffer, if_neg hit, List.map_cons, inductionHypothesis, elsewhere]
        split <;> rfl


theorem mem_recordInBuffer {key value : Int} {operation : Char} :
    ∀ {entries : List BufferEntry}, (entries.map BufferEntry.key).Nodup →
      ∀ {entry : BufferEntry}, entry ∈ recordInBuffer key value operation entries →
        (entry.key = key → entry = ⟨key, value, operation⟩) ∧ (entry.key ≠ key → entry ∈ entries)
  | [], _, entry, member => by
      simp only [recordInBuffer, List.mem_singleton] at member
      subst member
      exact ⟨fun _ => rfl, fun differs => absurd rfl differs⟩
  | first :: rest, distinct, entry, member => by
      obtain ⟨firstFresh, restDistinct⟩ := List.nodup_cons.mp distinct
      unfold recordInBuffer at member
      split at member
      · next hit =>
          rcases List.mem_cons.mp member with rfl | later
          · exact ⟨fun _ => by rw [hit], fun differs => absurd hit differs⟩
          · refine ⟨fun same => absurd (List.mem_map_of_mem BufferEntry.key later) ?_,
              fun _ => List.mem_cons_of_mem _ later⟩
            rw [same, ← hit]
            exact firstFresh
      · next miss =>
          rcases List.mem_cons.mp member with rfl | later
          · exact ⟨fun same => absurd same miss, fun _ => List.mem_cons_self _ _⟩
          · obtain ⟨updated, kept⟩ := mem_recordInBuffer restDistinct later
            exact ⟨updated, fun differs => List.mem_cons_of_mem _ (kept differs)⟩

theorem length_recordInBuffer_le (key value : Int) (operation : Char) (entries : List BufferEntry) :
    (recordInBuffer key value operation entries).length ≤ entries.length + 1 := by
  have := congrArg List.length (map_key_recordInBuffer key value operation entries)
  simp only [List.length_map] at this
  rw [this]
  split <;> simp

/-- What a write buffer should hold once the writes `history` (key, value, operation) have
been accepted since the last successful flush: at most `MAX_BUFFER_ENTRIES` records, one per
key, in the order the keys first arrived, each with the value and operation of its key's last
write. -/
structure BufferSpec (entries : List BufferEntry) (history : List (Int × Int × Char)) : Prop where
  bounded : entries.length ≤ maxBufferEntries
  distinct : (entries.map BufferEntry.key).Nodup
  keysInOrder : entries.map BufferEntry.key = firstArrivals (history.map Prod.fst)
  latest : ∀ entry ∈ entries,
    history.reverse.find? (fun write => write.1 = entry.key) =
      some (entry.key, entry.value, entry.operation)

theorem bufferSpec_nil : BufferSpec [] [] :=
  ⟨by decide, List.nodup_nil, rfl, fun _ absent => absurd absent (List.not_mem_nil _)⟩

theorem BufferSpec.history_eq_nil {history : List (Int × Int × Char)}
    (spec : BufferSpec [] history) : history = [] := by
  cases history using List.reverseRecOn with
  | nil => rfl
  | append_singleton front last =>
      have := spec.keysInOrder
      have member : last.1 ∈ firstArrivals ((front ++ [last]).map Prod.fst) :=
        mem_firstArrivals.mpr (by simp)
      rw [← this] at member
      cases member

theorem BufferSpec.record {entries : List BufferEntry} {history : List (Int × Int × Char)}
    (spec : BufferSpec entries history) (room : entries.length < maxBufferEntries)
    (key value : Int) (operation : Char) :
    BufferSpec (recordInBuffer key value operation entries)
      (history ++ [(key, value, operation)]) := by
  have keys := map_key_recordInBuffer key value operation entries
  refine ⟨by have := length_recordInBuffer_le key value operation entries; omega, ?_, ?_, ?_⟩
  · rw [keys]
    split
    · exact spec.distinct
    · next fresh =>
        exact List.pairwise_append.mpr ⟨spec.distinct, List.pairwise_singleton _ _,
          fun seen member other single equal => fresh (by simp_all)⟩
  · rw [keys, List.map_append, List.map_singleton, firstArrivals_append_single, spec.keysInOrder]
  · intro entry member
    obtain ⟨updated, kept⟩ := mem_recordInBuffer spec.distinct member
    by_cases same : entry.key = key
    · rw [updated same]
      simp
    · rw [List.reverse_append, List.reverse_singleton, List.singleton_append, List.find?_cons,
        show (decide ((key, value, operation).1 = entry.key)) = false by simpa using Ne.symm same]
      exact spec.latest entry (kept same)


/-- A leaf's write buffer, if its metadata entry has one. -/
def LeafState.buffer (state : LeafState) : Option WritingBuffer :=
  state.metadata.bind LeafMetaEntry.buffer

/-- The records of a leaf's write buffer, `entries[0 .. count)`; none without a buffer. -/
def LeafState.bufferEntries (state : LeafState) : List BufferEntry :=
  (state.buffer.map WritingBuffer.entries).getD []

section Preservation
variable {t : TreeSettings} {codecs : Codecs} {state state' : LeafState} {result : Int}

theorem finishDecompression_buffer (metadata : LeafMetaEntry)
    (stored : state.metadata = some metadata) (outcome : Int × BplusLeaf) :
    (finishDecompression state metadata outcome).2.buffer = state.buffer := by
  unfold finishDecompression
  split; split <;> simp [LeafState.buffer, stored]

theorem decompressLeafNodeWithMetadataEx_buffer
    (opened : decompressLeafNodeWithMetadataEx t codecs state = some (result, state')) :
    state'.buffer = state.buffer := by
  rcases decompressLeafNodeWithMetadataEx_cases opened with
    rfl | ⟨metadata, outcome, stored, finished⟩
  · rfl
  · simpa only [finished] using finishDecompression_buffer metadata stored outcome

theorem finishCompression_buffer {codec : Codec} {subcap : Int} {sps : List Nat}
    {metadata : LeafMetaEntry} {outcome : Except Int Nat × LeafMetaEntry}
    (looped : compressSubPages codec state.leaf subcap sps 0 metadata = some outcome) :
    (finishCompression state outcome).2.buffer = metadata.buffer := by
  obtain ⟨image, index, -, stored⟩ := compressSubPages_fields looped
  rcases outcome with ⟨_ | _, _⟩ <;> cases stored <;> rfl

theorem buffer_reindexed (reindex : Prop) [Decidable reindex] (metadata : LeafMetaEntry)
    (index : List SubpageIndexEntry) :
    (if reindex then { metadata with subpageIndex := index } else metadata).buffer =
      metadata.buffer := by
  split <;> rfl

theorem compressLeafNodeWithMetadataEx_buffer
    (compressed : compressLeafNodeWithMetadataEx t codecs state = some (result, state')) :
    state'.buffer = state.buffer := by
  have initial : (state.metadata.getD (addLeafMetadata t)).buffer = state.buffer := by
    simp only [LeafState.buffer]
    cases state.metadata <;> rfl
  have ran : ∀ {codec metadata subcap sps}, metadata.buffer = state.buffer →
      (compressSubPages codec state.leaf subcap sps 0 metadata).map (finishCompression state) =
        some (result, state') → state'.buffer = state.buffer := fun kept ran => by
    obtain ⟨outcome, looped, finished⟩ := Option.map_eq_some'.mp ran
    rw [← kept, ← finishCompression_buffer looped, finished]
  unfold compressLeafNodeWithMetadataEx at compressed
  split at compressed
  · cases compressed; rfl
  · dsimp only at compressed
    split at compressed
    · cases compressed; exact initial
    · split at compressed
      · exact ran ((buffer_reindexed _ _ _).trans initial) compressed
      · split at compressed
        · exact ran ((buffer_reindexed _ _ _).trans initial) compressed
        · cases compressed; exact (buffer_reindexed _ _ _).trans initial
      · cases compressed; exact (buffer_reindexed _ _ _).trans initial
theorem flushToHashedLeaf_buffer {basePut : BplusLeaf → Int → Int → BplusLeaf} {leaf : BplusLeaf}
    {metadata : LeafMetaEntry} {buffer : WritingBuffer}
    (flushed : flushToHashedLeaf basePut t codecs leaf metadata buffer = some (result, state')) :
    state'.buffer = metadata.buffer := by
  unfold flushToHashedLeaf at flushed
  obtain ⟨⟨code, opened⟩, wasOpened, written⟩ := Option.bind_eq_some.mp flushed
  have kept : opened.buffer = metadata.buffer := by
    split at wasOpened
    · exact decompressLeafNodeWithMetadataEx_buffer wasOpened
    · cases wasOpened; rfl
  dsimp only at written
  split at written
  · cases written; exact kept
  · obtain ⟨_, -, compressed⟩ := Option.bind_eq_some.mp written
    exact (compressLeafNodeWithMetadataEx_buffer compressed).trans kept

end Preservation

section Steps
variable {t : TreeSettings} {alloc : Hashed.Allocations} {state state' : LeafState}
  {key value : Int} {operation : Char} {result : Int} {queued : Bool}

theorem addToMetadataBuffer_cases {metadata : LeafMetaEntry}
    (added : Hashed.addToMetadataBuffer t alloc state metadata key value operation =
      (result, state', queued)) :
    let entries := (metadata.buffer.map WritingBuffer.entries).getD []
    (result = -1 ∧ state'.buffer = metadata.buffer ∧
      (maxBufferEntries ≤ entries.length ∨ (metadata.buffer = none ∧ alloc.buffer = false))) ∨
    (result = 0 ∧ entries.length < maxBufferEntries ∧
      state'.buffer = some ⟨recordInBuffer key value operation entries, true⟩) := by
  unfold Hashed.addToMetadataBuffer at added
  cases stored : metadata.buffer with
  | none =>
      cases allocated : alloc.buffer <;>
        simp [stored, allocated, Option.orElse, WritingBuffer.empty, maxBufferEntries] at added <;>
        obtain ⟨rfl, rfl, rfl⟩ := added <;> simp [LeafState.buffer, maxBufferEntries]
  | some buffer =>
      by_cases full : maxBufferEntries ≤ buffer.entries.length <;>
        simp [stored, full, Option.orElse] at added <;>
        obtain ⟨rfl, rfl, rfl⟩ := added
      · exact .inl ⟨rfl, by simp [LeafState.buffer, stored], .inl (by simpa using full)⟩
      · exact .inr ⟨rfl, by simpa using full, by simp [LeafState.buffer]⟩

theorem addToBuffer_cases
    (added : Hashed.addToBuffer t alloc state key value operation = (result, state', queued)) :
    (result = -1 ∧ state'.buffer = state.buffer ∧
      (maxBufferEntries ≤ state.bufferEntries.length ∨
        (state.metadata = none ∧ alloc.metadata = false) ∨
        (state.buffer = none ∧ alloc.buffer = false))) ∨
    (result = 0 ∧ state.bufferEntries.length < maxBufferEntries ∧
      state'.buffer = some ⟨recordInBuffer key value operation state.bufferEntries, true⟩) := by
  unfold Hashed.addToBuffer at added
  split at added
  · next metadata stored =>
      have buffer : state.buffer = metadata.buffer := by simp [LeafState.buffer, stored]
      rw [LeafState.bufferEntries, buffer, stored]
      simp only [reduceCtorEq, false_and, false_or]
      exact addToMetadataBuffer_cases added
  · next stored =>
      have buffer : state.buffer = none := by simp [LeafState.buffer, stored]
      rw [LeafState.bufferEntries, buffer, stored]
      split at added
      · rcases addToMetadataBuffer_cases added with ⟨rfl, kept, refused⟩ | recorded
        · exact .inl ⟨rfl, kept, refused.imp id fun failed => .inr ⟨rfl, failed.2⟩⟩
        · exact .inr recorded
      · next failed =>
          cases added
          exact .inl ⟨rfl, buffer, .inr (.inl ⟨rfl, by simpa using failed⟩)⟩
theorem flushBufferToLeaf_cases {basePut : BplusLeaf → Int → Int → BplusLeaf} {codecs : Codecs}
    (flushed : Hashed.flushBufferToLeaf basePut t codecs state = some (result, state')) :
    (result = 0 ∧ state' = state ∧
      (state.bufferEntries = [] ∨ ∃ buffer, state.buffer = some buffer ∧ buffer.dirty = false)) ∨
    (result ≠ 0 ∧ state'.buffer = state.buffer) ∨ (result = 0 ∧ state'.bufferEntries = []) := by
  unfold Hashed.flushBufferToLeaf at flushed
  split at flushed
  · next stored =>
      cases flushed
      exact .inl ⟨rfl, rfl, .inl (by simp [LeafState.bufferEntries, LeafState.buffer, stored])⟩
  · next metadata stored =>
      have buffer : state.buffer = metadata.buffer := by simp [LeafState.buffer, stored]
      split at flushed
      · next absent =>
          cases flushed
          exact .inl ⟨rfl, rfl, .inl (by simp [LeafState.bufferEntries, buffer, absent])⟩
      · next held heldBuffer =>
          rw [heldBuffer] at buffer
          split at flushed
          · next idle =>
              cases flushed
              refine .inl ⟨rfl, rfl, idle.imp (fun empty => ?_) fun clean => ⟨held, buffer, clean⟩⟩
              simp [LeafState.bufferEntries, buffer, empty]
          · obtain ⟨⟨code, written⟩, wrote, finished⟩ := Option.map_eq_some'.mp flushed
            dsimp only at finished
            split at finished
            · cases finished
              refine .inr (.inr ⟨rfl, ?_⟩)
              cases written.metadata <;> rfl
            · next failed =>
                cases finished
                exact .inr (.inl ⟨failed, (flushToHashedLeaf_buffer wrote).trans
                  (heldBuffer.trans buffer.symm)⟩)
end Steps

/-- What holds of a leaf after every run of writes and flushes: its buffer is what the writes
accepted since the last successful flush ask for, and a buffer holding records is dirty. -/
structure BufferInvariant (state : LeafState) (history : List (Int × Int × Char)) : Prop where
  spec : BufferSpec state.bufferEntries history
  dirty : ∀ buffer, state.buffer = some buffer → buffer.entries ≠ [] → buffer.dirty = true

/-- Runs of `add_to_buffer` and `flush_buffer_to_leaf` on one leaf from a leaf without a
buffer, each call with its own settings, allocations and codecs, indexed by the writes
accepted since the last successful flush. -/
inductive BufferRun (basePut : BplusLeaf → Int → Int → BplusLeaf) :
    LeafState → List (Int × Int × Char) → Prop
  | start {state : LeafState} (fresh : state.buffer = none) : BufferRun basePut state []
  | add {state state' : LeafState} {history : List (Int × Int × Char)} (t : TreeSettings)
      (alloc : Hashed.Allocations) (key value : Int) (operation : Char) {result : Int}
      {queued : Bool} (run : BufferRun basePut state history)
      (added : Hashed.addToBuffer t alloc state key value operation = (result, state', queued)) :
      BufferRun basePut state'
        (if result = 0 then history ++ [(key, value, operation)] else history)
  | flush {state state' : LeafState} {history : List (Int × Int × Char)} (t : TreeSettings)
      (codecs : Codecs) {result : Int} (run : BufferRun basePut state history)
      (flushed : Hashed.flushBufferToLeaf basePut t codecs state = some (result, state')) :
      BufferRun basePut state' (if result = 0 then [] else history)

section Run
variable {basePut : BplusLeaf → Int → Int → BplusLeaf} {state state' : LeafState}
  {history : List (Int × Int × Char)} {result : Int}

theorem bufferEntries_eq_of_buffer (kept : state'.buffer = state.buffer) :
    state'.bufferEntries = state.bufferEntries := by
  simp only [LeafState.bufferEntries, kept]

theorem BufferInvariant.bufferEntries_eq_nil (inv : BufferInvariant state history)
    (idle : state.bufferEntries = [] ∨
      ∃ buffer, state.buffer = some buffer ∧ buffer.dirty = false) :
    state.bufferEntries = [] := by
  rcases idle with empty | ⟨buffer, held, clean⟩
  · exact empty
  · by_contra nonempty
    have records : buffer.entries ≠ [] := by simpa [LeafState.bufferEntries, held] using nonempty
    rw [inv.dirty buffer held records] at clean
    cases clean

theorem BufferInvariant.add (inv : BufferInvariant state history) {t : TreeSettings}
    {alloc : Hashed.Allocations} {key value : Int} {operation : Char} {queued : Bool}
    (added : Hashed.addToBuffer t alloc state key value operation = (result, state', queued)) :
    BufferInvariant state'
      (if result = 0 then history ++ [(key, value, operation)] else history) := by
  rcases addToBuffer_cases added with ⟨rfl, kept, -⟩ | ⟨rfl, room, recorded⟩
  · exact ⟨bufferEntries_eq_of_buffer kept ▸ inv.spec, kept ▸ inv.dirty⟩
  · have entries :
        state'.bufferEntries = recordInBuffer key value operation state.bufferEntries := by
      simp [LeafState.bufferEntries, recorded]
    refine ⟨entries ▸ inv.spec.record room key value operation, fun buffer held _ => ?_⟩
    rw [recorded] at held
    cases held
    rfl

theorem BufferInvariant.flush (inv : BufferInvariant state history) {t : TreeSettings}
    {codecs : Codecs}
    (flushed : Hashed.flushBufferToLeaf basePut t codecs state = some (result, state')) :
    BufferInvariant state' (if result = 0 then [] else history) := by
  rcases flushBufferToLeaf_cases flushed with ⟨rfl, rfl, idle⟩ | ⟨failed, kept⟩ | ⟨rfl, emptied⟩
  · have empty := inv.bufferEntries_eq_nil idle
    exact (empty ▸ inv.spec).history_eq_nil ▸ inv
  · rw [if_neg failed]
    exact ⟨bufferEntries_eq_of_buffer kept ▸ inv.spec, kept ▸ inv.dirty⟩
  · refine ⟨emptied ▸ bufferSpec_nil, fun buffer held records => absurd ?_ records⟩
    simpa [LeafState.bufferEntries, held] using emptied

theorem BufferRun.invariant (run : BufferRun basePut state history) :
    BufferInvariant state history := by
  induction run with
  | start fresh =>
      exact ⟨by simpa [LeafState.bufferEntries, fresh] using bufferSpec_nil,
        fun buffer held => absurd (fresh ▸ held) (by simp)⟩
  | add _ _ _ _ _ _ added inv => exact inv.add added
  | flush _ _ _ flushed inv => exact inv.flush flushed

/-- Along every run of `add_to_buffer` and `flush_buffer_to_leaf` calls on one leaf, the leaf's
write buffer holds at most `MAX_BUFFER_ENTRIES` records with distinct keys, in the order the
keys first arrived, each carrying its key's last accepted write since the last successful
flush; `add_to_buffer` refuses only a full buffer or a failed allocation, leaving the buffer
as it was; a flush returning non-zero keeps the buffer and one returning `0` empties it. -/
theorem bufferRun_keeps_buffer_spec (run : BufferRun basePut state history) :
    BufferSpec state.bufferEntries history ∧
    (∀ t alloc key value operation result state' queued,
      Hashed.addToBuffer t alloc state key value operation = (result, state', queued) →
        result = -1 →
        (state.bufferEntries.length = maxBufferEntries ∨
          (state.metadata = none ∧ alloc.metadata = false) ∨
          (state.buffer = none ∧ alloc.buffer = false)) ∧ state'.buffer = state.buffer) ∧
    (∀ t codecs result state',
      Hashed.flushBufferToLeaf basePut t codecs state = some (result, state') →
      (result ≠ 0 → state'.buffer = state.buffer) ∧ (result = 0 → state'.bufferEntries = [])) := by
  have inv := run.invariant
  refine ⟨inv.spec, fun t alloc key value operation result state' queued added refused => ?_,
    fun t codecs result state' flushed => ?_⟩
  · rcases addToBuffer_cases added with ⟨-, kept, full | failed⟩ | ⟨accepted, -⟩
    · exact ⟨.inl (Nat.le_antisymm inv.spec.bounded full), kept⟩
    · exact ⟨.inr failed, kept⟩
    · rw [refused] at accepted
      cases accepted
  · rcases flushBufferToLeaf_cases flushed with ⟨rfl, rfl, idle⟩ | ⟨failed, kept⟩ | ⟨rfl, emptied⟩
    · exact ⟨fun failed => absurd rfl failed, fun _ => inv.bufferEntries_eq_nil idle⟩
    · exact ⟨fun _ => kept, fun succeeded => absurd succeeded failed⟩
    · exact ⟨fun failed => absurd rfl failed, fun _ => emptied⟩

theorem bufferRun_keeps_buffer_spec_after_one_write :
    let written := (Hashed.addToBuffer ⟨4, .lz4, 2, true, 28, false⟩ ⟨true, true, true⟩
      ⟨⟨0, [], []⟩, none⟩ 5 50 'I').2.1
    BufferRun (fun leaf _ _ => leaf) written [(5, 50, 'I')] ∧
      BufferSpec written.bufferEntries [(5, 50, 'I')] := by
  intro written
  have run := @BufferRun.add (fun leaf _ _ => leaf) ⟨⟨0, [], []⟩, none⟩ written []
    ⟨4, .lz4, 2, true, 28, false⟩ ⟨true, true, true⟩ 5 50 'I' 0 false (BufferRun.start rfl) rfl
  rw [if_pos rfl, List.nil_append] at run
  exact ⟨run, (bufferRun_keeps_buffer_spec run).1⟩

end Run

end ZipCache.DramTier
