import ZipCache.DramTier.HashedWrites
import ZipCache.DramTier.WriteBuffer

/-!
# A hashed leaf stands for a base-tree map

`Compressed.lean` flushes a leaf's buffer by putting its records into the base tree in buffer
order. `flush_to_hashed_leaf` instead writes them into the slots of the leaf's sub-pages. The
two meet in `slotGet`, the scan that `get_from_hashed_leaf` makes on an open leaf: a key reads
the value in the first slot of its sub-page that holds it, or `-1`. `SlotsAgree` says that a
leaf's slots answer every key above zero as a base tree does, with a stored `0` (what a
buffered delete writes) read as an absent key. Key `0` marks an empty slot, and a key below
zero hashes before the leaf.

`fitsSubPages` says that every record of the buffer finds its key's slot or an empty one, so
none is handed to `bplus_tree_put`. While that holds, one record moves the view as one base-tree
put moves the map, and the record loop moves it as the whole buffer, put in order, does.
-/

namespace ZipCache.DramTier

/-- The scan of `get_from_hashed_leaf` on an open leaf: the value in the first slot of the
key's sub-page that holds the key, `-1` when none does, `none` when a read leaves the arrays. -/
def slotGet (numSubPages subcap : Int) (leaf : BplusLeaf) (key : Int) : Option Int :=
  match scanSlots leaf.key key (hashKeyToSubPage key numSubPages * subcap) subcap.toNat (-1) with
  | none => none
  | some (target, _) => if target = -1 then some (-1) else readSlot leaf.data target

theorem slotGet_eq_bind (numSubPages subcap : Int) (leaf : BplusLeaf) (key : Int) :
    slotGet numSubPages subcap leaf key =
      ((scanSlots leaf.key key (hashKeyToSubPage key numSubPages * subcap) subcap.toNat
        (-1)).map Prod.fst).bind fun target =>
          if target = -1 then some (-1) else readSlot leaf.data target := by
  unfold slotGet
  cases scanSlots leaf.key key (hashKeyToSubPage key numSubPages * subcap) subcap.toNat (-1) <;>
    rfl

theorem hashKeyToSubPage_bounds {key numSubPages : Int} (positive : 0 < key)
    (partitioned : 0 < numSubPages) :
    0 ≤ hashKeyToSubPage key numSubPages ∧ hashKeyToSubPage key numSubPages < numSubPages := by
  rw [hashKeyToSubPage, if_neg (by omega)]
  exact ⟨Int.tmod_nonneg _ (by omega), Int.tmod_lt_of_pos key partitioned⟩

section Scan
variable {a b : List Int} {key : Int}

theorem nonneg_of_readSlot {j x : Int} (read : readSlot a j = some x) : 0 ≤ j := by
  unfold readSlot at read
  split at read
  · assumption
  · cases read

theorem scanSlots_hit : ∀ {j : Int} {remaining : Nat} {emptySlot target emptySlot' : Int},
    scanSlots a key j remaining emptySlot = some (target, emptySlot') → target ≠ -1 →
      readSlot a target = some key
  | _, 0, _, _, _, scanned, found => by cases scanned; exact absurd rfl found
  | j, remaining + 1, emptySlot, target, emptySlot', scanned, found => by
      unfold scanSlots at scanned
      split at scanned
      · cases scanned
      · next slotKey read =>
          split at scanned
          · next hit => cases scanned; rw [read, hit]
          · exact scanSlots_hit scanned found

theorem scanSlots_miss : ∀ {j : Int} {remaining : Nat} {emptySlot emptySlot' : Int},
    scanSlots a key j remaining emptySlot = some (-1, emptySlot') →
      ∀ i, j ≤ i → i < j + remaining → ∃ x, readSlot a i = some x ∧ x ≠ key
  | _, 0, _, _, _, i, low, high => by omega
  | j, remaining + 1, emptySlot, emptySlot', scanned, i, low, high => by
      unfold scanSlots at scanned
      split at scanned
      · cases scanned
      · next slotKey read =>
          split at scanned
          · cases scanned
            exact absurd (nonneg_of_readSlot read) (by omega)
          · next miss =>
              by_cases first : i = j
              · subst first
                exact ⟨slotKey, read, miss⟩
              · exact scanSlots_miss scanned i (by omega) (by omega)

theorem scanSlots_empty : ∀ {j : Int} {remaining : Nat} {emptySlot target emptySlot' : Int},
    scanSlots a key j remaining emptySlot = some (target, emptySlot') →
      emptySlot' = emptySlot ∨
        (j ≤ emptySlot' ∧ emptySlot' < j + remaining ∧ readSlot a emptySlot' = some 0)
  | _, 0, _, _, _, scanned => by cases scanned; exact .inl rfl
  | j, remaining + 1, emptySlot, target, emptySlot', scanned => by
      unfold scanSlots at scanned
      split at scanned
      · cases scanned
      · next slotKey read =>
          split at scanned
          · cases scanned; exact .inl rfl
          · rcases scanSlots_empty scanned with same | ⟨low, high, empty⟩
            · split at same
              · next fresh => exact .inr ⟨by omega, by omega, by rw [same, read, fresh.1]⟩
              · exact .inl same
            · exact .inr ⟨by omega, by omega, empty⟩

theorem scanSlots_first_hit {target : Int} (read : readSlot a target = some key) :
    ∀ {j : Int} {remaining : Nat} {emptySlot : Int}, j ≤ target → target < j + remaining →
      (∀ i, j ≤ i → i < target → ∃ x, readSlot a i = some x ∧ x ≠ key) →
      (scanSlots a key j remaining emptySlot).map Prod.fst = some target
  | _, 0, _, low, high, _ => by omega
  | j, remaining + 1, emptySlot, low, high, before => by
      rw [scanSlots]
      by_cases first : j = target
      · subst first
        rw [read]
        simp
      · obtain ⟨x, readFirst, miss⟩ := before j (Int.le_refl j) (by omega)
        rw [readFirst]
        dsimp only
        rw [if_neg miss]
        exact scanSlots_first_hit read (by omega) (by omega) fun i _ early =>
          before i (by omega) early

theorem scanSlots_all_miss : ∀ {j : Int} {remaining : Nat} {emptySlot : Int},
    (∀ i, j ≤ i → i < j + remaining → ∃ x, readSlot a i = some x ∧ x ≠ key) →
      (scanSlots a key j remaining emptySlot).map Prod.fst = some (-1)
  | _, 0, _, _ => rfl
  | j, remaining + 1, emptySlot, missed => by
      obtain ⟨x, readFirst, miss⟩ := missed j (Int.le_refl j) (by omega)
      rw [scanSlots, readFirst]
      dsimp only
      rw [if_neg miss]
      exact scanSlots_all_miss fun i _ _ => missed i (by omega) (by omega)

theorem scanSlots_fst_congr
    (agree : ∀ i, (readSlot b i).map (· = key) = (readSlot a i).map (· = key)) :
    ∀ (j : Int) (remaining : Nat) (emptySlot emptySlot' : Int),
      (scanSlots b key j remaining emptySlot').map Prod.fst =
        (scanSlots a key j remaining emptySlot).map Prod.fst
  | _, 0, _, _ => rfl
  | j, remaining + 1, emptySlot, emptySlot' => by
      have same := agree j
      rw [scanSlots, scanSlots]
      cases readB : readSlot b j with
      | none =>
          cases readA : readSlot a j with
          | none => rfl
          | some x => rw [readB, readA] at same; cases same
      | some y =>
          cases readA : readSlot a j with
          | none => rw [readB, readA] at same; cases same
          | some x =>
              rw [readB, readA] at same
              have hits : y = key ↔ x = key := by simpa using same
              dsimp only
              by_cases hit : x = key
              · rw [if_pos (hits.mpr hit), if_pos hit]; rfl
              · rw [if_neg (mt hits.mp hit), if_neg hit]
                exact scanSlots_fst_congr agree _ _ _ _

end Scan

theorem readSlot_set {a : List Int} {w : Int} (x : Int) (nonneg : 0 ≤ w) (inside : w < a.length)
    (i : Int) : readSlot (a.set w.toNat x) i = if i = w then some x else readSlot a i := by
  by_cases same : i = w
  · subst same
    rw [if_pos rfl, readSlot, if_pos nonneg, List.getElem?_set_self (by omega)]
  · rw [if_neg same]
    unfold readSlot
    split
    · exact List.getElem?_set_ne (by omega)
    · rfl

theorem writeSlots_singleton {a a' : List Int} {j x : Int}
    (written : writeSlots a j [x] = some a') : 0 ≤ j ∧ j < a.length ∧ a' = a.set j.toNat x := by
  unfold writeSlots at written
  split at written
  · next inside =>
      cases written
      have fits := inside.2
      simp only [List.length_singleton] at fits
      refine ⟨inside.1, by omega, ?_⟩
      rw [List.set_eq_take_append_cons_drop, if_pos (by omega)]
      simp
  · cases written

/-- Where one record of the flush lands: slot `w` of its sub-page, which held the key or was
empty, now holds the key and the value, and the scan for the key names it. -/
structure WritesSlot (numSubPages subcap : Int) (leaf leaf' : BplusLeaf) (record : BufferEntry)
    (w : Int) : Prop where
  keys : ∀ i, readSlot leaf'.key i = if i = w then some record.key else readSlot leaf.key i
  data : ∀ i, readSlot leaf'.data i = if i = w then some record.value else readSlot leaf.data i
  free : readSlot leaf.key w = some record.key ∨ readSlot leaf.key w = some 0
  found : (scanSlots leaf'.key record.key (hashKeyToSubPage record.key numSubPages * subcap)
    subcap.toNat (-1)).map Prod.fst = some w
  keyLength : leaf'.key.length = leaf.key.length
  dataLength : leaf'.data.length = leaf.data.length

section Record
variable {numSubPages subcap : Int} {leaf leaf' : BplusLeaf} {record : BufferEntry} {w : Int}

theorem WritesSlot.nonneg (writes : WritesSlot numSubPages subcap leaf leaf' record w) : 0 ≤ w :=
  writes.free.elim nonneg_of_readSlot nonneg_of_readSlot

theorem WritesSlot.slotGet (writes : WritesSlot numSubPages subcap leaf leaf' record w)
    {key : Int} (live : key ≠ 0) :
    slotGet numSubPages subcap leaf' key =
      if key = record.key then some record.value else slotGet numSubPages subcap leaf key := by
  rw [slotGet_eq_bind]
  by_cases same : key = record.key
  · subst same
    rw [if_pos rfl, writes.found, Option.some_bind, if_neg (by have := writes.nonneg; omega),
      writes.data, if_pos rfl]
  · have agree : ∀ i, (readSlot leaf'.key i).map (· = key) =
        (readSlot leaf.key i).map (· = key) := by
      intro i
      rw [writes.keys]
      split
      · next at_w =>
          subst at_w
          rcases writes.free with held | empty
          · rw [held]
          · rw [empty]
            simp only [Option.map_some', Option.some.injEq, eq_iff_iff]
            exact ⟨fun hit => absurd hit.symm same, fun hit => absurd hit.symm live⟩
      · rfl
    rw [if_neg same, slotGet_eq_bind, scanSlots_fst_congr agree _ _ (-1) (-1)]
    cases found : (scanSlots leaf.key key (hashKeyToSubPage key numSubPages * subcap)
        subcap.toNat (-1)).map Prod.fst with
    | none => rfl
    | some target =>
        simp only [Option.some_bind]
        split
        · rfl
        · next named =>
            obtain ⟨⟨slot, emptySlot⟩, scanned, rfl⟩ := Option.map_eq_some'.mp found
            have holds := scanSlots_hit scanned named
            have apart : slot ≠ w := by
              rintro rfl
              rcases writes.free with held | empty
              · exact same (Option.some.inj (holds.symm.trans held))
              · exact live (Option.some.inj (holds.symm.trans empty))
            rw [writes.data, if_neg apart]

variable {basePut : BplusLeaf → Int → Int → BplusLeaf}

theorem flushRecord_writesSlot {target emptySlot : Int}
    (scanned : scanSlots leaf.key record.key (hashKeyToSubPage record.key numSubPages * subcap)
      subcap.toNat (-1) = some (target, emptySlot))
    (room : target ≠ -1 ∨ emptySlot ≠ -1)
    (flushed : flushRecord basePut numSubPages subcap leaf record = some leaf') :
    ∃ w, WritesSlot numSubPages subcap leaf leaf' record w := by
  unfold flushRecord at flushed
  dsimp only at flushed
  rw [scanned] at flushed
  dsimp only at flushed
  by_cases named : target ≠ -1
  · rw [if_pos named] at flushed
    obtain ⟨data, written, rfl⟩ := Option.map_eq_some'.mp flushed
    obtain ⟨nonneg, inside, rfl⟩ := writeSlots_singleton written
    have holds := scanSlots_hit scanned named
    refine ⟨target, fun i => ?_, readSlot_set _ nonneg inside, .inl holds,
      by rw [scanned]; rfl, rfl, List.length_set _ _ _⟩
    split
    · next at_target => rw [at_target, holds]
    · rfl
  · obtain rfl : target = -1 := not_not.mp named
    have emptyNamed := room.resolve_left named
    rw [if_neg named, if_pos emptyNamed] at flushed
    split at flushed
    · next key data writtenKey writtenData =>
        cases flushed
        obtain ⟨nonneg, inside, rfl⟩ := writeSlots_singleton writtenKey
        obtain ⟨-, insideData, rfl⟩ := writeSlots_singleton writtenData
        obtain ⟨low, high, empty⟩ := (scanSlots_empty scanned).resolve_left emptyNamed
        have missed := scanSlots_miss scanned
        refine ⟨emptySlot, readSlot_set _ nonneg inside, readSlot_set _ nonneg insideData,
          .inr empty, ?_, List.length_set _ _ _, List.length_set _ _ _⟩
        refine scanSlots_first_hit (by rw [readSlot_set _ nonneg inside, if_pos rfl]) low high
          fun i early before => ?_
        rw [readSlot_set _ nonneg inside, if_neg (by omega)]
        exact missed i early (by omega)
    · cases flushed

end Record

/-- The leaf's slots answer every key above zero as the base tree does, a stored `0` reading
as absent. -/
def SlotsAgree (numSubPages subcap : Int) (leaf : BplusLeaf) (tree : BaseTree) : Prop :=
  ∀ key, 0 < key → (slotGet numSubPages subcap leaf key).map
    (fun value => if value = 0 then -1 else value) = some (tree.get key)

theorem SlotsAgree.write {numSubPages subcap : Int} {leaf leaf' : BplusLeaf} {tree : BaseTree}
    {record : BufferEntry} {w : Int} (agree : SlotsAgree numSubPages subcap leaf tree)
    (writes : WritesSlot numSubPages subcap leaf leaf' record w) :
    SlotsAgree numSubPages subcap leaf' (tree.put record.key record.value).2 := by
  intro key positive
  rw [writes.slotGet (by omega)]
  by_cases same : key = record.key
  · subst same
    simp
  · rw [if_neg same, BaseTree.get_put_of_ne _ _ same]
    exact agree key positive

theorem slotsAgree_of_empty {numSubPages subcap : Int} {leaf : BplusLeaf}
    (partitioned : 0 < numSubPages) (nonneg : 0 ≤ subcap)
    (sized : numSubPages * subcap ≤ leaf.key.length) (empty : ∀ x ∈ leaf.key, x = 0) :
    SlotsAgree numSubPages subcap leaf BaseTree.empty := by
  intro key positive
  obtain ⟨above, below⟩ := hashKeyToSubPage_bounds positive partitioned
  have start : 0 ≤ hashKeyToSubPage key numSubPages * subcap := Int.mul_nonneg above nonneg
  have inside : (hashKeyToSubPage key numSubPages + 1) * subcap ≤ numSubPages * subcap :=
    Int.mul_le_mul_of_nonneg_right (by omega) nonneg
  rw [Int.add_mul, Int.one_mul] at inside
  rw [slotGet_eq_bind, scanSlots_all_miss fun i low high => ?_]
  · simp
  · have inArray : i.toNat < leaf.key.length := by omega
    refine ⟨_, by rw [readSlot, if_pos (by omega), List.getElem?_eq_getElem inArray], ?_⟩
    rw [empty _ (List.getElem_mem inArray)]
    omega

section
variable (basePut : BplusLeaf → Int → Int → BplusLeaf) (numSubPages subcap : Int)

/-- Whether every record, at its turn in the record loop of `flush_to_hashed_leaf`, finds its
key's slot or an empty one and is written there: none is handed to `bplus_tree_put`, and no
read or write leaves the arrays. -/
def fitsSubPages : List BufferEntry → BplusLeaf → Bool
  | [], _ => true
  | record :: rest, leaf =>
      match scanSlots leaf.key record.key (hashKeyToSubPage record.key numSubPages * subcap)
          subcap.toNat (-1), flushRecord basePut numSubPages subcap leaf record with
      | some (target, emptySlot), some leaf =>
          (target != -1 || emptySlot != -1) && fitsSubPages rest leaf
      | _, _ => false

theorem flushRecords_agree : ∀ {records : List BufferEntry} {leaf : BplusLeaf} {tree : BaseTree},
    fitsSubPages basePut numSubPages subcap records leaf = true →
    SlotsAgree numSubPages subcap leaf tree →
    ∃ leaf', flushRecords basePut numSubPages subcap records leaf = some leaf' ∧
      SlotsAgree numSubPages subcap leaf'
        (records.foldl (fun tree record => (tree.put record.key record.value).2) tree) ∧
      leaf'.key.length = leaf.key.length ∧ leaf'.data.length = leaf.data.length
  | [], leaf, _, _, agree => ⟨leaf, rfl, agree, rfl, rfl⟩
  | record :: rest, leaf, tree, fits, agree => by
      rw [fitsSubPages] at fits
      split at fits
      · next target emptySlot written scanned flushed =>
          obtain ⟨room, restFits⟩ := Bool.and_eq_true_iff.mp fits
          obtain ⟨w, writes⟩ := flushRecord_writesSlot scanned (by simpa using room) flushed
          obtain ⟨final, ran, agreeFinal, keyLength, dataLength⟩ :=
            flushRecords_agree restFits (agree.write writes)
          refine ⟨final, ?_, agreeFinal, keyLength.trans writes.keyLength,
            dataLength.trans writes.dataLength⟩
          rw [flushRecords, flushed]
          exact ran
      · cases fits

end

/-- How the flush and the put find a leaf they open: not compressed, or compressed with an
image of its arrays taken at its present entry count. -/
def Openable (t : TreeSettings) (codecs : Codecs) (state : LeafState) : Prop :=
  ∀ m, state.metadata = some m → m.isCompressed = true →
    Describes t codecs m state.leaf ∧ m.originalEntries = state.leaf.entries

section Open
variable {t : TreeSettings} {codecs : Codecs}

theorem Openable.decompress {leaf : BplusLeaf} {m : LeafMetaEntry}
    (openable : Openable t codecs ⟨leaf, some m⟩) (compressed : m.isCompressed = true)
    (sized : 0 ≤ t.entries ∧ t.entries ≤ leaf.key.length ∧ t.entries ≤ leaf.data.length) :
    decompressLeafNodeWithMetadataEx t codecs ⟨leaf, some m⟩ =
      some (0, ⟨leaf, some { m with isCompressed := false }⟩) := by
  obtain ⟨describes, restored⟩ := openable m rfl compressed
  rw [decompressLeafNodeWithMetadataEx_copies_back describes leaf sized.1 sized.2.1 sized.2.2]
  simp only [List.take_append_drop, restored]

theorem Openable.opened {leaf : BplusLeaf} {metadata : LeafMetaEntry}
    (openable : Openable t codecs ⟨leaf, some metadata⟩)
    (sized : 0 ≤ t.entries ∧ t.entries ≤ leaf.key.length ∧ t.entries ≤ leaf.data.length) :
    (if metadata.isCompressed then decompressLeafNodeWithMetadataEx t codecs ⟨leaf, some metadata⟩
      else some (0, ⟨leaf, some metadata⟩)) =
      some (0, ⟨leaf, some { metadata with isCompressed := false }⟩) := by
  cases compressed : metadata.isCompressed
  · rw [if_neg Bool.false_ne_true]
    cases metadata
    cases compressed
    rfl
  · rw [if_pos rfl, openable.decompress compressed sized]

theorem Describes.withBuffer {m : LeafMetaEntry} {leaf : BplusLeaf}
    (describes : Describes t codecs m leaf) (buffer : Option WritingBuffer) :
    Describes t codecs { m with buffer } leaf :=
  ⟨describes.compressed, describes.sized, describes.partitioned, describes.ready,
    describes.decodes⟩

variable {basePut : BplusLeaf → Int → Int → BplusLeaf}
  (lz4RoundTrip : ∀ payload maxOut, codecs.lz4.compress payload maxOut ≠ [] →
    codecs.lz4.decompress (codecs.lz4.compress payload maxOut) = some payload)
  (qplRoundTrip : ∀ payload maxOut, codecs.qpl.compress payload maxOut ≠ [] →
    codecs.qpl.decompress (codecs.qpl.compress payload maxOut) = some payload)
include lz4RoundTrip qplRoundTrip

theorem flushToHashedLeaf_agree {leaf : BplusLeaf} {metadata : LeafMetaEntry}
    {buffer : WritingBuffer} {tree : BaseTree} (openable : Openable t codecs ⟨leaf, some metadata⟩)
    (partitioned : 0 < metadata.numSubPages)
    (sized : 0 ≤ t.entries ∧ t.entries ≤ leaf.key.length ∧ t.entries ≤ leaf.data.length)
    (agree : SlotsAgree metadata.numSubPages (t.entries.tdiv metadata.numSubPages) leaf tree)
    (fits : fitsSubPages basePut metadata.numSubPages (t.entries.tdiv metadata.numSubPages)
      buffer.entries leaf = true) :
    ∃ result flushed, flushToHashedLeaf basePut t codecs leaf metadata buffer =
        some (result, flushed) ∧
      SlotsAgree metadata.numSubPages (t.entries.tdiv metadata.numSubPages) flushed.leaf
        (buffer.entries.foldl (fun tree record => (tree.put record.key record.value).2) tree) ∧
      flushed.leaf.key.length = leaf.key.length ∧ flushed.leaf.data.length = leaf.data.length ∧
      Openable t codecs flushed := by
  obtain ⟨written, ran, agreeWritten, keyLength, dataLength⟩ :=
    flushRecords_agree basePut _ _ fits agree
  obtain ⟨result, compressed, ranCompress, sameLeaf, facts⟩ :=
    compressLeafNodeWithMetadataEx_outcome t codecs
      ⟨written, some { metadata with isCompressed := false }⟩ rfl
      ⟨sized.1, show t.entries ≤ written.key.length by omega,
        show t.entries ≤ written.data.length by omega⟩ lz4RoundTrip qplRoundTrip
  unfold flushToHashedLeaf
  rw [openable.opened sized]
  simp only [Option.some_bind, ne_eq, not_true_eq_false, false_or,
    if_neg (Int.not_le.mpr partitioned)]
  rw [ran]
  refine ⟨result, compressed, ranCompress, sameLeaf ▸ agreeWritten,
    sameLeaf ▸ keyLength, sameLeaf ▸ dataLength, fun m stored isCompressed => ?_⟩
  obtain ⟨-, restored, -, -, describes⟩ := facts m stored isCompressed
  exact ⟨sameLeaf ▸ describes, sameLeaf ▸ restored⟩

/-- `flush_buffer_to_leaf` on one leaf refines the tree-level flush of `Compressed.lean`. Take
a leaf whose metadata entry holds the tree-level buffer of the leaf, whose slots stand for the
base tree, and whose buffered records all fit. The leaf-level flush returns; its leaf stands
for the tree the tree-level flush leaves, keeps its arrays' lengths and stays openable. When
it returns `0`, both flushes have emptied the buffer; when recompressing fails it returns
non-zero and keeps the buffer, whose records its leaf already holds. -/
theorem flushBufferToLeaf_refines {ct : BplusTreeCompressed} {leafId : Nat} {state : LeafState}
    {metadata : LeafMetaEntry} (stored : state.metadata = some metadata)
    (sameBuffer : metadata.buffer = ct.buffers.lookup leafId) (openable : Openable t codecs state)
    (partitioned : 0 < metadata.numSubPages)
    (sized : 0 ≤ t.entries ∧ t.entries ≤ state.leaf.key.length ∧
      t.entries ≤ state.leaf.data.length)
    (agree : SlotsAgree metadata.numSubPages (t.entries.tdiv metadata.numSubPages) state.leaf
      ct.tree)
    (fits : ∀ buffer, metadata.buffer = some buffer →
      fitsSubPages basePut metadata.numSubPages (t.entries.tdiv metadata.numSubPages)
        buffer.entries state.leaf = true) :
    ∃ result flushed, Hashed.flushBufferToLeaf basePut t codecs state = some (result, flushed) ∧
      SlotsAgree metadata.numSubPages (t.entries.tdiv metadata.numSubPages) flushed.leaf
        (flushBufferToLeaf ct leafId).2.tree ∧
      flushed.leaf.key.length = state.leaf.key.length ∧
      flushed.leaf.data.length = state.leaf.data.length ∧ Openable t codecs flushed ∧
      (result = 0 → flushed.buffer.getD WritingBuffer.empty =
        (flushBufferToLeaf ct leafId).2.bufferOf leafId) := by
  obtain ⟨leaf, stored'⟩ := state
  cases stored
  unfold Hashed.flushBufferToLeaf flushBufferToLeaf
  dsimp only
  rw [← sameBuffer]
  cases held : metadata.buffer with
  | none =>
      refine ⟨0, _, rfl, agree, rfl, rfl, openable, fun _ => ?_⟩
      simp [LeafState.buffer, held, BplusTreeCompressed.bufferOf, ← sameBuffer]
  | some buffer =>
      have bufferOf : ct.bufferOf leafId = buffer := by
        rw [BplusTreeCompressed.bufferOf, ← sameBuffer, held]; rfl
      dsimp only
      split
      · refine ⟨0, _, rfl, agree, rfl, rfl, openable, fun _ => ?_⟩
        simp [LeafState.buffer, held, bufferOf]
      · obtain ⟨result, flushed, ran, agreeFlushed, keyLength, dataLength, reopenable⟩ :=
          flushToHashedLeaf_agree lz4RoundTrip qplRoundTrip openable partitioned sized agree
            (fits buffer held)
        rw [ran, Option.map_some']
        dsimp only
        split
        · refine ⟨0, _, rfl, agreeFlushed, keyLength, dataLength, fun m updated isCompressed => ?_,
            fun _ => ?_⟩
          · obtain ⟨old, oldStored, rfl⟩ := Option.map_eq_some'.mp updated
            obtain ⟨describes, restored⟩ := reopenable old oldStored isCompressed
            exact ⟨describes.withBuffer _, restored⟩
          · show _ = (ct.setBuffer leafId WritingBuffer.empty).bufferOf leafId
            rw [BplusTreeCompressed.bufferOf_setBuffer_self]
            cases flushed.metadata <;> rfl
        · next failed =>
            exact ⟨result, flushed, rfl, agreeFlushed, keyLength, dataLength, reopenable,
              fun zero => absurd zero failed⟩

end Open

theorem flushBufferToLeaf_refines_on_two_records :
    ∃ result flushed, Hashed.flushBufferToLeaf (fun leaf _ _ => leaf) ⟨4, .lz4, 2, true, 0, false⟩
        ⟨byteCodec, byteCodec⟩ ⟨⟨0, [0, 0, 0, 0], [0, 0, 0, 0]⟩,
          some { addLeafMetadata ⟨4, .lz4, 2, true, 0, false⟩ with
            buffer := some ⟨[⟨2, 20, 'I'⟩, ⟨1, 10, 'I'⟩], true⟩ }⟩ = some (result, flushed) ∧
      SlotsAgree 2 2 flushed.leaf (flushBufferToLeaf
        ⟨BaseTree.empty, [(0, ⟨[⟨2, 20, 'I'⟩, ⟨1, 10, 'I'⟩], true⟩)], [], ⟨true⟩, 0⟩ 0).2.tree ∧
      flushed.leaf.key.length = 4 ∧ flushed.leaf.data.length = 4 ∧
      Openable ⟨4, .lz4, 2, true, 0, false⟩ ⟨byteCodec, byteCodec⟩ flushed ∧
      (result = 0 → flushed.buffer.getD WritingBuffer.empty = (flushBufferToLeaf
        ⟨BaseTree.empty, [(0, ⟨[⟨2, 20, 'I'⟩, ⟨1, 10, 'I'⟩], true⟩)], [], ⟨true⟩, 0⟩ 0).2.bufferOf
          0) :=
  flushBufferToLeaf_refines byteCodec_round_trip byteCodec_round_trip
    (show _ = some { addLeafMetadata ⟨4, .lz4, 2, true, 0, false⟩ with
      buffer := some ⟨[⟨2, 20, 'I'⟩, ⟨1, 10, 'I'⟩], true⟩ } from rfl) rfl
    (fun _ stored compressed => absurd compressed (by cases stored; decide)) (by decide)
    (by decide) (slotsAgree_of_empty (by decide) (by decide) (by decide) (by decide))
    (fun _ held => by cases held; decide)

section Put
variable {t : TreeSettings} {codecs : Codecs} {alloc : Hashed.Allocations} {state : LeafState}
  {key value : Int} {operation : Char}

theorem addToMetadataBuffer_leaf (metadata : LeafMetaEntry) :
    (Hashed.addToMetadataBuffer t alloc state metadata key value operation).2.1.leaf =
      state.leaf := by
  cases held : metadata.buffer with
  | none =>
      cases allocated : alloc.buffer <;>
        simp only [Hashed.addToMetadataBuffer, held, allocated, Option.orElse, if_true,
          Bool.false_eq_true, if_false]
      split <;> rfl
  | some buffer =>
      simp only [Hashed.addToMetadataBuffer, held, Option.orElse]
      split <;> rfl

theorem addToBuffer_leaf :
    (Hashed.addToBuffer t alloc state key value operation).2.1.leaf = state.leaf := by
  unfold Hashed.addToBuffer
  split
  · exact addToMetadataBuffer_leaf _
  · split
    · exact addToMetadataBuffer_leaf _
    · rfl

theorem addToBuffer_of_full {metadata : LeafMetaEntry} {buffer : WritingBuffer}
    (stored : state.metadata = some metadata) (held : metadata.buffer = some buffer)
    (full : maxBufferEntries ≤ buffer.entries.length) :
    Hashed.addToBuffer t alloc state key value operation = (-1, state, false) := by
  obtain ⟨leaf, _⟩ := state
  cases stored
  simp only [Hashed.addToBuffer, Hashed.addToMetadataBuffer, held, Option.orElse, if_pos full]
  cases metadata
  cases held
  rfl

theorem bufferEntries_of_lookup {ct : BplusTreeCompressed} {leafId : Nat}
    {metadata : LeafMetaEntry} (stored : state.metadata = some metadata)
    (sameBuffer : metadata.buffer = ct.buffers.lookup leafId) :
    state.bufferEntries = (ct.bufferOf leafId).entries := by
  rw [LeafState.bufferEntries, LeafState.buffer, stored, Option.some_bind, sameBuffer,
    BplusTreeCompressed.bufferOf]
  cases ct.buffers.lookup leafId <;> rfl

/-- With lazy compression on, a put that the leaf's write buffer takes is one that the
tree-level put buffers too: both return `0`, neither touches the leaf or the base tree, and both
record the write in the leaf's buffer. -/
theorem bplusTreeCompressedPut_buffered_refines {basePut : BplusLeaf → Int → Int → BplusLeaf}
    {leafFor : BaseTree → Int → Option Nat} {ct : BplusTreeCompressed} {leafId : Nat}
    (lazy : t.enableLazyCompression = true) (lazyTree : ct.config.enableLazyCompression = true)
    (routed : leafFor ct.tree key = some leafId)
    (sameBuffer : state.bufferEntries = (ct.bufferOf leafId).entries)
    (taken : (Hashed.addToBuffer t alloc state key value (if value = 0 then 'D' else 'I')).1 = 0) :
    ∃ put, Hashed.bplusTreeCompressedPut basePut t codecs alloc state key value = some (0, put) ∧
      put.leaf = state.leaf ∧
      put.buffer = some ⟨recordInBuffer key value (if value = 0 then 'D' else 'I')
        state.bufferEntries, true⟩ ∧
      (bplusTreeCompressedPut leafFor ct key value).1 = 0 ∧
      (bplusTreeCompressedPut leafFor ct key value).2.tree = ct.tree ∧
      (bplusTreeCompressedPut leafFor ct key value).2.bufferOf leafId =
        ⟨recordInBuffer key value (if value = 0 then 'D' else 'I') (ct.bufferOf leafId).entries,
          true⟩ := by
  have sameLeaf := @addToBuffer_leaf t alloc state key value (if value = 0 then 'D' else 'I')
  generalize addedEq : Hashed.addToBuffer t alloc state key value
    (if value = 0 then 'D' else 'I') = outcome at taken sameLeaf
  obtain ⟨result, added, queued⟩ := outcome
  obtain rfl : result = 0 := taken
  rcases addToBuffer_cases addedEq with ⟨refused, -⟩ | ⟨-, room, recorded⟩
  · cases refused
  · obtain ⟨buffered, addedTree, sameTree, -, bufferOf⟩ :=
      addToBuffer_of_room ct key value (if value = 0 then 'D' else 'I') (sameBuffer ▸ room)
    have treePut : bplusTreeCompressedPut leafFor ct key value = (0, buffered) := by
      simp [bplusTreeCompressedPut, routed, lazyTree, addedTree]
    refine ⟨added, ?_, sameLeaf, recorded, by rw [treePut], by rw [treePut]; exact sameTree,
      by rw [treePut, bufferOf]⟩
    simp only [Hashed.bplusTreeCompressedPut, lazy, if_true, addedEq]

variable {basePut : BplusLeaf → Int → Int → BplusLeaf}
  (lz4RoundTrip : ∀ payload maxOut, codecs.lz4.compress payload maxOut ≠ [] →
    codecs.lz4.decompress (codecs.lz4.compress payload maxOut) = some payload)
  (qplRoundTrip : ∀ payload maxOut, codecs.qpl.compress payload maxOut ≠ [] →
    codecs.qpl.decompress (codecs.qpl.compress payload maxOut) = some payload)
include lz4RoundTrip qplRoundTrip

/-- With lazy compression on and the leaf's write buffer full, both puts flush the buffer and
then put through the base tree. The leaf-level put hands `bplus_tree_put` its leaf as opened
after the flush, which stands for the base tree that the tree-level put hands its own base-tree
put, and then compresses what `bplus_tree_put` leaves. -/
theorem bplusTreeCompressedPut_full_refines {leafFor : BaseTree → Int → Option Nat}
    {ct : BplusTreeCompressed} {leafId : Nat} {metadata : LeafMetaEntry}
    (lazy : t.enableLazyCompression = true) (lazyTree : ct.config.enableLazyCompression = true)
    (routed : leafFor ct.tree key = some leafId) (stored : state.metadata = some metadata)
    (sameBuffer : metadata.buffer = ct.buffers.lookup leafId)
    (full : maxBufferEntries ≤ (ct.bufferOf leafId).entries.length)
    (openable : Openable t codecs state) (partitioned : 0 < metadata.numSubPages)
    (sized : 0 ≤ t.entries ∧ t.entries ≤ state.leaf.key.length ∧
      t.entries ≤ state.leaf.data.length)
    (agree : SlotsAgree metadata.numSubPages (t.entries.tdiv metadata.numSubPages) state.leaf
      ct.tree)
    (fits : ∀ buffer, metadata.buffer = some buffer →
      fitsSubPages basePut metadata.numSubPages (t.entries.tdiv metadata.numSubPages)
        buffer.entries state.leaf = true) :
    bplusTreeCompressedPut leafFor ct key value =
        directPut (flushBufferToLeaf ct leafId).2 key value ∧
      ∃ opened : LeafState,
        SlotsAgree metadata.numSubPages (t.entries.tdiv metadata.numSubPages) opened.leaf
          (flushBufferToLeaf ct leafId).2.tree ∧
        Hashed.bplusTreeCompressedPut basePut t codecs alloc state key value =
          (compressLeafNodeWithMetadataEx t codecs
            { opened with leaf := basePut opened.leaf key value }).map
              fun outcome => (0, outcome.2) := by
  obtain ⟨buffer, held⟩ : ∃ buffer, metadata.buffer = some buffer := by
    cases found : ct.buffers.lookup leafId with
    | none =>
        rw [BplusTreeCompressed.bufferOf, found] at full
        exact absurd full (by decide)
    | some buffer => exact ⟨buffer, sameBuffer.trans found⟩
  have bufferOf : ct.bufferOf leafId = buffer := by
    rw [BplusTreeCompressed.bufferOf, ← sameBuffer, held]; rfl
  rw [bufferOf] at full
  have refusedTree : addToBuffer ct leafId key value (if value = 0 then 'D' else 'I') = none := by
    unfold addToBuffer
    rw [bufferOf, if_pos full]
  refine ⟨by simp only [bplusTreeCompressedPut, routed, lazyTree, if_true, refusedTree], ?_⟩
  obtain ⟨result, flushed, flushedEq, agreeFlushed, keyLength, dataLength, reopenable, -⟩ :=
    flushBufferToLeaf_refines lz4RoundTrip qplRoundTrip stored sameBuffer openable partitioned
      sized agree fits
  have flushedSized : 0 ≤ t.entries ∧ t.entries ≤ flushed.leaf.key.length ∧
      t.entries ≤ flushed.leaf.data.length := ⟨sized.1, by omega, by omega⟩
  simp only [Hashed.bplusTreeCompressedPut, lazy, if_true,
    addToBuffer_of_full stored held full, Option.map_some', Option.getD_some, flushedEq,
    Option.some_bind]
  obtain ⟨flushedLeaf, flushedMetadata⟩ := flushed
  cases flushedMetadata with
  | none => exact ⟨_, agreeFlushed, rfl⟩
  | some m =>
      dsimp only
      cases compressed : m.isCompressed
      · exact ⟨_, agreeFlushed, rfl⟩
      · rw [if_pos rfl, reopenable.decompress compressed flushedSized]
        exact ⟨⟨flushedLeaf, some { m with isCompressed := false }⟩, agreeFlushed, rfl⟩

/-- The leaf-level `bplus_tree_compressed_put` refines the tree-level one on the key's leaf, with
lazy compression on, for a leaf whose metadata entry holds the leaf's tree-level buffer, whose
slots stand for the base tree, and whose buffered records all fit. If the leaf's write buffer
takes the write, both puts return `0` and only record it in the buffer. If the buffer is full,
both flush it and then put through the base tree, and the leaf-level put hands
`bplus_tree_put` a leaf that stands for the base tree the tree-level put hands its own put. -/
theorem bplusTreeCompressedPut_refines {leafFor : BaseTree → Int → Option Nat}
    {ct : BplusTreeCompressed} {leafId : Nat} {metadata : LeafMetaEntry}
    (lazy : t.enableLazyCompression = true) (lazyTree : ct.config.enableLazyCompression = true)
    (routed : leafFor ct.tree key = some leafId) (stored : state.metadata = some metadata)
    (sameBuffer : metadata.buffer = ct.buffers.lookup leafId)
    (openable : Openable t codecs state) (partitioned : 0 < metadata.numSubPages)
    (sized : 0 ≤ t.entries ∧ t.entries ≤ state.leaf.key.length ∧
      t.entries ≤ state.leaf.data.length)
    (agree : SlotsAgree metadata.numSubPages (t.entries.tdiv metadata.numSubPages) state.leaf
      ct.tree)
    (fits : ∀ buffer, metadata.buffer = some buffer →
      fitsSubPages basePut metadata.numSubPages (t.entries.tdiv metadata.numSubPages)
        buffer.entries state.leaf = true) :
    ((Hashed.addToBuffer t alloc state key value (if value = 0 then 'D' else 'I')).1 = 0 →
      ∃ put, Hashed.bplusTreeCompressedPut basePut t codecs alloc state key value =
          some (0, put) ∧
        put.leaf = state.leaf ∧
        put.buffer = some ⟨recordInBuffer key value (if value = 0 then 'D' else 'I')
          state.bufferEntries, true⟩ ∧
        (bplusTreeCompressedPut leafFor ct key value).1 = 0 ∧
        (bplusTreeCompressedPut leafFor ct key value).2.tree = ct.tree ∧
        (bplusTreeCompressedPut leafFor ct key value).2.bufferOf leafId =
          ⟨recordInBuffer key value (if value = 0 then 'D' else 'I')
            (ct.bufferOf leafId).entries, true⟩) ∧
    (maxBufferEntries ≤ (ct.bufferOf leafId).entries.length →
      bplusTreeCompressedPut leafFor ct key value =
          directPut (flushBufferToLeaf ct leafId).2 key value ∧
        ∃ opened : LeafState,
          SlotsAgree metadata.numSubPages (t.entries.tdiv metadata.numSubPages) opened.leaf
            (flushBufferToLeaf ct leafId).2.tree ∧
          Hashed.bplusTreeCompressedPut basePut t codecs alloc state key value =
            (compressLeafNodeWithMetadataEx t codecs
              { opened with leaf := basePut opened.leaf key value }).map
                fun outcome => (0, outcome.2)) :=
  ⟨fun taken => bplusTreeCompressedPut_buffered_refines lazy lazyTree routed
      (bufferEntries_of_lookup stored sameBuffer) taken,
    fun full => bplusTreeCompressedPut_full_refines lz4RoundTrip qplRoundTrip lazy lazyTree routed
      stored sameBuffer full openable partitioned sized agree fits⟩

end Put

theorem bplusTreeCompressedPut_refines_on_one_leaf :
    let t : TreeSettings := ⟨4, .lz4, 2, true, 0, false⟩
    let room : WritingBuffer := ⟨[⟨2, 20, 'I'⟩], true⟩
    let full : WritingBuffer := ⟨List.replicate 32 ⟨2, 20, 'I'⟩, true⟩
    let leaf : BplusLeaf := ⟨0, [0, 0, 0, 0], [0, 0, 0, 0]⟩
    let ctRoom : BplusTreeCompressed := ⟨BaseTree.empty, [(0, room)], [], ⟨true⟩, 0⟩
    let ctFull : BplusTreeCompressed := ⟨BaseTree.empty, [(0, full)], [], ⟨true⟩, 0⟩
    (∃ put, Hashed.bplusTreeCompressedPut (fun leaf _ _ => leaf) t ⟨byteCodec, byteCodec⟩
          ⟨true, true, true⟩ ⟨leaf, some { addLeafMetadata t with buffer := some room }⟩ 1 10 =
          some (0, put) ∧
        put.leaf = leaf ∧ put.buffer = some ⟨recordInBuffer 1 10 'I' room.entries, true⟩ ∧
        (bplusTreeCompressedPut (fun _ _ => some 0) ctRoom 1 10).1 = 0 ∧
        (bplusTreeCompressedPut (fun _ _ => some 0) ctRoom 1 10).2.tree = ctRoom.tree ∧
        (bplusTreeCompressedPut (fun _ _ => some 0) ctRoom 1 10).2.bufferOf 0 =
          ⟨recordInBuffer 1 10 'I' room.entries, true⟩) ∧
    (bplusTreeCompressedPut (fun _ _ => some 0) ctFull 1 10 =
        directPut (flushBufferToLeaf ctFull 0).2 1 10 ∧
      ∃ opened : LeafState, SlotsAgree 2 2 opened.leaf (flushBufferToLeaf ctFull 0).2.tree ∧
        Hashed.bplusTreeCompressedPut (fun leaf _ _ => leaf) t ⟨byteCodec, byteCodec⟩
            ⟨true, true, true⟩ ⟨leaf, some { addLeafMetadata t with buffer := some full }⟩ 1 10 =
          (compressLeafNodeWithMetadataEx t ⟨byteCodec, byteCodec⟩
            { opened with leaf := opened.leaf }).map fun outcome => (0, outcome.2)) :=
  ⟨(@bplusTreeCompressedPut_refines ⟨4, .lz4, 2, true, 0, false⟩ ⟨byteCodec, byteCodec⟩
      ⟨true, true, true⟩ ⟨⟨0, [0, 0, 0, 0], [0, 0, 0, 0]⟩,
        some { addLeafMetadata ⟨4, .lz4, 2, true, 0, false⟩ with
          buffer := some ⟨[⟨2, 20, 'I'⟩], true⟩ }⟩ 1 10 (fun leaf _ _ => leaf)
      byteCodec_round_trip byteCodec_round_trip (fun _ _ => some 0)
      ⟨BaseTree.empty, [(0, ⟨[⟨2, 20, 'I'⟩], true⟩)], [], ⟨true⟩, 0⟩ 0
      { addLeafMetadata ⟨4, .lz4, 2, true, 0, false⟩ with
        buffer := some ⟨[⟨2, 20, 'I'⟩], true⟩ } rfl rfl rfl rfl rfl
      (fun _ stored compressed => absurd compressed (by cases stored; decide)) (by decide)
      (by decide) (slotsAgree_of_empty (by decide) (by decide) (by decide) (by decide))
      (fun _ held => by cases held; decide)).1 (by decide),
    (@bplusTreeCompressedPut_refines ⟨4, .lz4, 2, true, 0, false⟩ ⟨byteCodec, byteCodec⟩
      ⟨true, true, true⟩ ⟨⟨0, [0, 0, 0, 0], [0, 0, 0, 0]⟩,
        some { addLeafMetadata ⟨4, .lz4, 2, true, 0, false⟩ with
          buffer := some ⟨List.replicate 32 ⟨2, 20, 'I'⟩, true⟩ }⟩ 1 10 (fun leaf _ _ => leaf)
      byteCodec_round_trip byteCodec_round_trip (fun _ _ => some 0)
      ⟨BaseTree.empty, [(0, ⟨List.replicate 32 ⟨2, 20, 'I'⟩, true⟩)], [], ⟨true⟩, 0⟩ 0
      { addLeafMetadata ⟨4, .lz4, 2, true, 0, false⟩ with
        buffer := some ⟨List.replicate 32 ⟨2, 20, 'I'⟩, true⟩ } rfl rfl rfl rfl rfl
      (fun _ stored compressed => absurd compressed (by cases stored; decide)) (by decide)
      (by decide) (slotsAgree_of_empty (by decide) (by decide) (by decide) (by decide))
      (fun _ held => by cases held; decide)).2 (by decide)⟩

end ZipCache.DramTier
