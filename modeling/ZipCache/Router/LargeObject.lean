import ZipCache.LoTier.Entries
import ZipCache.LoTier.Spec
import ZipCache.Router.Spec

/-!
# Large puts and their descriptors

A large put appends the value, padded to 4 KiB, to the storage file at `ssd_offset`, and hands
the large-object tree a descriptor `{lba, size, checksum}` whose `size` is a `uint32_t`. The
file only grows at `ssd_offset`, so what earlier large puts wrote below it reads back unchanged.

`LargeLayout` records what the large puts of a history wrote, and `LargeLayout.Holds` what a
cache keeps of it; one lemma per request keeps it. On a host whose `pwrite` moves at most
`0x7ffff000` bytes, no value that `uint32_t` would truncate is ever written whole, and every
descriptor in the tree describes the bytes of the put that made it.
-/

namespace ZipCache.Router

open DramTier LoTier

theorem zipcachePut_large_into_empty {host : Host} {cache : Zipcache} {key : List (BitVec 8)}
    {value : BitVec 64} {bytes : List (BitVec 8)} (settled : cache.Settled)
    (empty : cache.btLo = oneLeafTree 16 []) (nonNull : value ≠ 0)
    (large : zipcacheMediumDefault < bytes.length) (fits : bytes.length ≤ zipcacheLargeThreshold)
    (shortKey : key.length ≤ zipcacheMaxKeySize)
    (allocated : host.memalign (alignedSize bytes.length) = true)
    (written : host.pwrite cache.ssdOffset.toNat (alignedSize bytes.length) =
      alignedSize bytes.length)
    (valid : objectPointerIsValid (largeObjectPointer cache bytes) = true) :
    ∃ cache', zipcachePut host cache key value bytes = some (.ok, cache') ∧
      bplusTreeLoGet cache'.btLo (keyHash key) = some (largeObjectPointer cache bytes) := by
  have nonEmpty : bytes.length ≠ 0 := by
    unfold zipcacheMediumDefault at large
    omega
  have stored : bplusTreeLoPut (oneLeafTree 16 []) (keyHash key) (largeObjectPointer cache bytes) =
      some (0, oneLeafTree 16 ([] ++ [(keyHash key, largeObjectPointer cache bytes)])) :=
    bplusTreeLoPut_oneLeafTree valid (by simp [bplusMaxEntries]) (by simp)
  unfold zipcachePut
  rw [if_neg (fun refused => refused.elim nonNull nonEmpty), if_neg (by omega),
    (zipcacheClassifyObject_large settled).mpr large]
  simp only [zipcacheRoutePut, zipcacheWriteLargeObject_of_written nonEmpty allocated written]
  simp only [largeObjectPointer] at stored
  simp only [empty, stored, Option.bind_eq_bind, Option.some_bind, if_true, Option.pure_def,
    Option.some.injEq, Prod.mk.injEq, true_and, exists_eq_left', Zipcache.setStats]
  exact bplusTreeLoGet_oneLeafTree_single 16 _ _

theorem zipcachePut_large_after_init :
    ∃ cache cache', zipcacheInit 1 [] [] 0 true = some cache ∧
      zipcachePut Host.linux cache [107] 4096 (List.replicate 3000 1) = some (.ok, cache') ∧
      bplusTreeLoGet cache'.btLo (keyHash [107]) =
        some (largeObjectPointer cache (List.replicate 3000 1)) ∧
      objectPointerIsValid (largeObjectPointer cache (List.replicate 3000 1)) = true := by
  obtain ⟨cache, init⟩ : ∃ cache, zipcacheInit 1 [] [] 0 true = some cache := ⟨_, rfl⟩
  obtain ⟨settled, -, -, loInit⟩ := zipcacheInit_spec init
  have empty : cache.btLo = oneLeafTree 16 [] := by
    rw [bplusTreeLoInit_eq_oneLeafTree (by decide) (by decide)] at loInit
    exact (Option.some.inj loInit).symm
  have long : (List.replicate 3000 (1 : BitVec 8)).length = 3000 := List.length_replicate _ _
  have valid : objectPointerIsValid (largeObjectPointer cache (List.replicate 3000 1)) = true := by
    simp only [objectPointerIsValid, largeObjectPointer, long]
    simp
  obtain ⟨cache', put, found⟩ : ∃ cache',
      zipcachePut Host.linux cache [107] 4096 (List.replicate 3000 1) = some (.ok, cache') ∧
      bplusTreeLoGet cache'.btLo (keyHash [107]) =
        some (largeObjectPointer cache (List.replicate 3000 1)) :=
    zipcachePut_large_into_empty settled empty (by decide)
    (by rw [long]; decide) (by rw [long]; decide) (by decide) rfl
    (by rw [long, show cache.ssdOffset = 0 by rw [zipcacheInit] at init; cases init; rfl]; decide)
    valid
  exact ⟨cache, cache', init, put, found, valid⟩

theorem zipcacheRun_large_after_init :
    ∃ cache cache', zipcacheInit 1 [] [] 0 true = some cache ∧
      zipcacheRun Host.linux cache [.put [107] 4096 (List.replicate 3000 1)] =
        some ([(.ok, none)], cache') := by
  obtain ⟨cache, cache', init, put, -⟩ := zipcachePut_large_after_init
  refine ⟨cache, cache', init, ?_⟩
  simp only [zipcacheRun, zipcacheStep, put, Option.map_some', Option.bind_eq_bind,
    Option.some_bind]
  rfl

/-- A host that writes as Linux does: one `pwrite` moves at most `maxRwCount` bytes, and none
past the largest file offset. -/
structure Host.Realistic (host : Host) : Prop where
  capped : ∀ offset count, host.pwrite offset count ≤ maxRwCount
  inFile : ∀ offset count, 0 < host.pwrite offset count →
    offset + (host.pwrite offset count).toNat < 2 ^ 63

theorem le_of_pread {file bytes : List (BitVec 8)} {start : Nat} (nonEmpty : 0 < bytes.length)
    (read : pread file start bytes.length = bytes) : start + bytes.length ≤ file.length := by
  have long := congrArg List.length read
  simp only [pread, List.length_take, List.length_drop] at long
  omega

theorem pread_pwrite_of_le {file data : List (BitVec 8)} {offset start count : Nat}
    (below : start + count ≤ offset) (inside : start + count ≤ file.length) :
    pread (pwrite file offset data) start count = pread file start count := by
  simp only [pread, pwrite, List.append_assoc]
  rw [List.drop_append_of_le_length (by simp; omega),
    List.take_append_of_le_length (by simp; omega), List.drop_take, List.take_take,
    List.drop_append_of_le_length (by omega), List.take_append_of_le_length (by simp; omega),
    Nat.min_eq_left (by omega)]

theorem pread_pwrite_self (file bytes padding : List (BitVec 8)) (offset : Nat) :
    pread (pwrite file offset (bytes ++ padding)) offset bytes.length = bytes := by
  simp only [pread, pwrite, List.append_assoc]
  rw [List.drop_left' (by simp; omega), List.take_left' rfl]

theorem toNat_add_ofNat {offset : BitVec 64} {size : Nat} (fits : offset.toNat + size < 2 ^ 63) :
    (offset + BitVec.ofNat 64 size).toNat = offset.toNat + size := by
  rw [BitVec.toNat_add, BitVec.toNat_ofNat, Nat.mod_eq_of_lt (by omega : size < 2 ^ 64),
    Nat.mod_eq_of_lt (by omega)]

theorem toNat_ofNat_of_le {size : Nat} (short : size ≤ maxRwCount) :
    (BitVec.ofNat 32 size).toNat = size := by
  rw [BitVec.toNat_ofNat, Nat.mod_eq_of_lt (by unfold maxRwCount at short; omega)]

theorem objectPointerIsValid_of_size {lba : BitVec 64} {checksum : BitVec 32} {size : Nat}
    (nonEmpty : 0 < size) (short : size ≤ maxRwCount) :
    objectPointerIsValid ⟨lba, BitVec.ofNat 32 size, checksum⟩ = true := by
  have nonZero : BitVec.ofNat 32 size ≠ 0#32 := fun zero => by
    have sized := toNat_ofNat_of_le short
    rw [zero] at sized
    simp at sized
    omega
  simp [objectPointerIsValid, nonZero]

theorem zipcachePut_storage {host : Host} (realistic : host.Realistic) {cache cache' : Zipcache}
    {key : List (BitVec 8)} {value : BitVec 64} {bytes : List (BitVec 8)}
    {result : ZipcacheResult} (settled : cache.Settled)
    (put : zipcachePut host cache key value bytes = some (result, cache')) :
    (result = .ok ∧ zipcacheMediumDefault < bytes.length ∧
        cache.ssdOffset.toNat + alignedSize bytes.length < 2 ^ 63 ∧
        alignedSize bytes.length ≤ maxRwCount ∧
        cache'.storage = pwrite cache.storage cache.ssdOffset.toNat
          (bytes ++ List.replicate (alignedSize bytes.length - bytes.length) 0#8) ∧
        cache'.ssdOffset = cache.ssdOffset + BitVec.ofNat 64 (alignedSize bytes.length) ∧
        bplusTreeLoPut cache.btLo (keyHash key) (largeObjectPointer cache bytes) =
          some (0, cache'.btLo)) ∨
      (¬(result = .ok ∧ zipcacheMediumDefault < bytes.length) ∧
        cache'.ssdOffset = cache.ssdOffset ∧
        (cache'.storage = cache.storage ∨
          ∃ data, cache'.storage = pwrite cache.storage cache.ssdOffset.toNat data) ∧
        (cache'.btLo = cache.btLo ∨ result = .ok ∧
          ∃ status, bplusTreeLoDelete cache.btLo (keyHash key) = some (status, cache'.btLo))) := by
  unfold zipcachePut at put
  split_ifs at put with refused oversized
  iterate 2
    · simp only [Option.some.injEq, Prod.mk.injEq] at put
      obtain ⟨rfl, rfl⟩ := put
      exact .inr ⟨by simp, rfl, .inl rfl, .inl rfl⟩
  have nonEmpty : bytes.length ≠ 0 := fun zero => refused (.inr zero)
  by_cases large : zipcacheMediumDefault < bytes.length
  · rw [(zipcacheClassifyObject_large settled).mpr large] at put
    obtain ⟨-, -, -, -, ⟨code, lo, -, offset, written⟩ |
      ⟨-, through, storage, offset, loResult, loPut, accepted, -⟩⟩ :=
      zipcacheRoutePut_large nonEmpty put
    · -- the host refused the write
      exact .inr ⟨by rcases code with rfl | rfl <;> simp, offset, written, .inl lo⟩
    · -- the write went through: the descriptor is valid, and the tree takes it
      have padded := le_alignedSize bytes.length
      have capped := realistic.capped cache.ssdOffset.toNat (alignedSize bytes.length)
      have fits := realistic.inFile cache.ssdOffset.toNat (alignedSize bytes.length)
        (by rw [through]; omega)
      rw [through] at capped fits
      obtain rfl := bplusTreeLoPut_status_of_valid
        (objectPointerIsValid_of_size (Nat.pos_of_ne_zero nonEmpty) (by omega)) loPut
      exact .inl ⟨accepted.mpr rfl, large, by simpa using fits, by exact_mod_cast capped,
        storage, offset, loPut⟩
  · have small : zipcacheClassifyObject cache bytes.length ≠ .large :=
      fun classified => large ((zipcacheClassifyObject_large settled).mp classified)
    obtain ⟨rfl, -, -, -, -, -, lo, storage, offset⟩ :=
      zipcacheRoutePut_small small (toInt_ne_zero fun zero => refused (.inl zero)) put
    exact .inr ⟨fun both => large both.2, offset, .inl storage, lo.imp_right (⟨rfl, ·⟩)⟩

/-- A large value in the storage file: the hash it was put under, where it starts, and its
bytes. -/
structure StoredObject where
  hash : Int
  offset : Nat
  bytes : List (BitVec 8)
deriving DecidableEq, Repr

/-- The descriptor `zipcache_route_put` made for the object. -/
def StoredObject.pointer (object : StoredObject) : ObjectPointer :=
  ⟨BitVec.ofNat 64 object.offset, BitVec.ofNat 32 object.bytes.length,
    zipcacheChecksum object.bytes⟩

/-- The hash and the bytes of a large put that succeeded. -/
def largeValue : ZipcacheRequest → ZipcacheReply → Option (Int × List (BitVec 8))
  | .put key _ bytes, (.ok, _) =>
      if zipcacheMediumDefault < bytes.length then some (keyHash key, bytes) else none
  | _, _ => none

theorem large_of_largeValue {request : ZipcacheRequest} {reply : ZipcacheReply} {h : Int}
    {bytes : List (BitVec 8)} (written : largeValue request reply = some (h, bytes)) :
    zipcacheMediumDefault < bytes.length := by
  unfold largeValue at written
  split at written
  · split_ifs at written with large
    cases written
    exact large
  · cases written

/-- What the large puts of a history wrote: the objects in file order, where the padding of
the last one ends, and for each hash the object of its latest write, if that was a large put. -/
structure LargeLayout where
  objects : List StoredObject
  ssdEnd : Nat
  latest : Int → Option StoredObject

namespace LargeLayout

/-- One more call: a large put appends its object at the end, and any other DRAM write makes
the hash forget its object. -/
def record (layout : LargeLayout) (entry : ZipcacheRequest × ZipcacheReply) : LargeLayout :=
  match largeValue entry.1 entry.2, dramWrite entry.1 entry.2 with
  | some (h, bytes), _ =>
      let object : StoredObject := ⟨h, layout.ssdEnd, bytes⟩
      ⟨layout.objects ++ [object], layout.ssdEnd + alignedSize bytes.length,
        Function.update layout.latest h (some object)⟩
  | none, some (h, _) => { layout with latest := Function.update layout.latest h none }
  | none, none => layout

/-- Objects in file order, each padded extent below the end, each larger than a medium
value. -/
structure Wf (layout : LargeLayout) : Prop where
  sorted : layout.objects.Pairwise fun a b => a.offset + alignedSize a.bytes.length ≤ b.offset
  below : ∀ object ∈ layout.objects,
    object.offset + alignedSize object.bytes.length ≤ layout.ssdEnd
  large : ∀ object ∈ layout.objects, zipcacheMediumDefault < object.bytes.length

variable {layout : LargeLayout}

theorem Wf.record (wf : layout.Wf) (entry : ZipcacheRequest × ZipcacheReply) :
    (layout.record entry).Wf := by
  unfold LargeLayout.record
  split
  · next h bytes _ written =>
      refine ⟨List.pairwise_append.mpr ⟨wf.sorted, List.pairwise_singleton _ _, ?_⟩,
        fun object member => ?_, fun object member => ?_⟩
      · intro object member last same
        cases List.mem_singleton.mp same
        exact wf.below object member
      · rcases List.mem_append.mp member with old | new
        · exact Nat.le_add_right_of_le (wf.below object old)
        · cases List.mem_singleton.mp new
          exact le_rfl
      · rcases List.mem_append.mp member with old | new
        · exact wf.large object old
        · cases List.mem_singleton.mp new
          exact large_of_largeValue written
  · exact ⟨wf.sorted, wf.below, wf.large⟩
  · exact wf

theorem Wf.foldl (history : List (ZipcacheRequest × ZipcacheReply)) :
    ∀ {layout : LargeLayout}, layout.Wf → (history.foldl LargeLayout.record layout).Wf := by
  induction history with
  | nil => exact id
  | cons entry rest inductionHypothesis => exact fun wf => inductionHypothesis (wf.record entry)

end LargeLayout

theorem largeObjectPointer_eq_pointer (cache : Zipcache) (h : Int) (bytes : List (BitVec 8)) :
    largeObjectPointer cache bytes = StoredObject.pointer ⟨h, cache.ssdOffset.toNat, bytes⟩ := by
  simp [largeObjectPointer, StoredObject.pointer]

namespace LargeLayout

/-- For every hash with a latest object: the marker in DRAM, and the object's descriptor in the
large-object tree. -/
def Marks (latest : Int → Option StoredObject) (cache : Zipcache) : Prop :=
  ∀ h object, latest h = some object →
    cache.btDram.get h = zipcacheTombstoneMarker ∧ cache.btLo.HoldsEntry (h, object.pointer)

/-- What the cache keeps of a layout: `ssd_offset` at its end, every object's bytes in the file
and within one `pwrite`, every entry of the large-object tree an object's descriptor, and the
marks of the latest objects. -/
structure Holds (layout : LargeLayout) (cache : Zipcache) : Prop where
  offset : cache.ssdOffset.toNat = layout.ssdEnd
  stored : ∀ object ∈ layout.objects,
    pread cache.storage object.offset object.bytes.length = object.bytes
  short : ∀ object ∈ layout.objects, object.bytes.length ≤ maxRwCount
  described : ∀ entry, cache.btLo.HoldsEntry entry →
    ∃ object ∈ layout.objects, entry = (object.hash, object.pointer)
  marked : Marks layout.latest cache

variable {layout : LargeLayout} {cache cache' : Zipcache}

theorem Marks.update {latest : Int → Option StoredObject} {h : Int} {new : Option StoredObject}
    (marks : Marks latest cache)
    (dram : ∀ other, other ≠ h → cache'.btDram.get other = cache.btDram.get other)
    (kept : ∀ entry, entry.1 ≠ h → cache.btLo.HoldsEntry entry → cache'.btLo.HoldsEntry entry)
    (own : ∀ object, new = some object →
      cache'.btDram.get h = zipcacheTombstoneMarker ∧ cache'.btLo.HoldsEntry (h, object.pointer)) :
    Marks (Function.update latest h new) cache' := by
  intro other object latest'
  by_cases same : other = h
  · subst same
    exact own object (by simpa using latest')
  · rw [Function.update_noteq same] at latest'
    obtain ⟨marker, held⟩ := marks other object latest'
    exact ⟨(dram other same).trans marker, kept _ same held⟩

theorem Marks.of_eq {latest : Int → Option StoredObject} (marks : Marks latest cache)
    (dram : cache'.btDram = cache.btDram) (lo : cache'.btLo = cache.btLo) :
    Marks latest cache' := by
  rw [Marks, dram, lo]
  exact marks

theorem Holds.stored_of_write (holds : layout.Holds cache) (wf : layout.Wf)
    (storage : cache'.storage = cache.storage ∨
      ∃ data, cache'.storage = pwrite cache.storage cache.ssdOffset.toNat data) :
    ∀ object ∈ layout.objects,
      pread cache'.storage object.offset object.bytes.length = object.bytes := by
  intro object member
  have read := holds.stored object member
  rcases storage with same | ⟨data, written⟩
  · rwa [same]
  · have below := wf.below object member
    have padded := le_alignedSize object.bytes.length
    have large := wf.large object member
    unfold zipcacheMediumDefault at large
    rw [written, pread_pwrite_of_le (by rw [holds.offset]; omega)
      (le_of_pread (by omega) read), read]

theorem Holds.keep {layout' : LargeLayout} (holds : layout.Holds cache) (wf : layout.Wf)
    (objects : layout'.objects = layout.objects) (ssdEnd : layout'.ssdEnd = layout.ssdEnd)
    (offset : cache'.ssdOffset = cache.ssdOffset)
    (storage : cache'.storage = cache.storage ∨
      ∃ data, cache'.storage = pwrite cache.storage cache.ssdOffset.toNat data)
    (drawn : ∀ entry, cache'.btLo.HoldsEntry entry → cache.btLo.HoldsEntry entry)
    (marked : Marks layout'.latest cache') : layout'.Holds cache' where
  offset := by rw [offset, ssdEnd, holds.offset]
  stored := objects ▸ holds.stored_of_write wf storage
  short := objects ▸ holds.short
  described entry held := objects ▸ holds.described entry (drawn entry held)
  marked := marked

theorem Holds.append {h : Int} {bytes : List (BitVec 8)} (holds : layout.Holds cache)
    (wf : layout.Wf) (large : zipcacheMediumDefault < bytes.length)
    (fits : cache.ssdOffset.toNat + alignedSize bytes.length < 2 ^ 63)
    (capped : alignedSize bytes.length ≤ maxRwCount)
    (storage : cache'.storage = pwrite cache.storage cache.ssdOffset.toNat
      (bytes ++ List.replicate (alignedSize bytes.length - bytes.length) 0#8))
    (offset : cache'.ssdOffset = cache.ssdOffset + BitVec.ofNat 64 (alignedSize bytes.length))
    (dram : cache'.btDram = (cache.btDram.put h zipcacheTombstoneMarker).2)
    (loPut : bplusTreeLoPut cache.btLo h (largeObjectPointer cache bytes) =
      some (0, cache'.btLo)) :
    (⟨layout.objects ++ [⟨h, layout.ssdEnd, bytes⟩], layout.ssdEnd + alignedSize bytes.length,
      Function.update layout.latest h (some ⟨h, layout.ssdEnd, bytes⟩)⟩ : LargeLayout).Holds
        cache' := by
  have padded := le_alignedSize bytes.length
  have pointer := largeObjectPointer_eq_pointer cache h bytes
  rw [holds.offset] at pointer
  obtain ⟨own, kept, drawn⟩ := holdsEntry_bplusTreeLoPut loPut
  refine ⟨?_, fun object member => ?_, fun object member => ?_, fun entry held => ?_, ?_⟩
  · rw [offset, toNat_add_ofNat fits, holds.offset]
  · rcases List.mem_append.mp member with old | new
    · exact holds.stored_of_write wf (.inr ⟨_, storage⟩) object old
    · cases List.mem_singleton.mp new
      rw [storage, holds.offset]
      exact pread_pwrite_self _ _ _ _
  · rcases List.mem_append.mp member with old | new
    · exact holds.short object old
    · cases List.mem_singleton.mp new
      exact padded.trans capped
  · rcases drawn entry held with rfl | old
    · exact ⟨_, List.mem_append_right _ (List.mem_singleton_self _), by rw [pointer]⟩
    · obtain ⟨object, member, rfl⟩ := holds.described entry old
      exact ⟨object, List.mem_append_left _ member, rfl⟩
  · refine holds.marked.update (fun other apart => by simp [dram, apart]) kept
      fun object same => ?_
    cases same
    refine ⟨by simp [dram, zipcacheTombstoneMarker], ?_⟩
    rw [← pointer]
    exact own (objectPointerIsValid_of_size (by unfold zipcacheMediumDefault at large; omega)
      (by omega))

theorem record_put_of_ne_ok (layout : LargeLayout) {key : List (BitVec 8)} {value : BitVec 64}
    {bytes : List (BitVec 8)} {result : ZipcacheResult} (failed : result ≠ .ok) :
    layout.record (.put key value bytes, (result, none)) = layout ∧
      dramWrite (.put key value bytes) (result, none) = none := by
  cases result
  · exact absurd rfl failed
  all_goals exact ⟨rfl, rfl⟩

theorem Holds.step {host : Host} (realistic : host.Realistic) {request : ZipcacheRequest}
    {reply : ZipcacheReply} (settled : cache.Settled) (wf : layout.Wf)
    (holds : layout.Holds cache)
    (stepped : zipcacheStep host cache request = some (reply, cache')) :
    (layout.record (request, reply)).Holds cache' := by
  obtain ⟨-, dram, -, -⟩ := zipcacheStep_spec settled stepped
  cases request with
  | put key value bytes =>
      obtain ⟨⟨result, after⟩, put, done⟩ := Option.map_eq_some'.mp stepped
      obtain ⟨rfl, rfl⟩ := Prod.mk.inj done
      rcases zipcachePut_storage realistic settled put with
        ⟨rfl, large, fits, capped, storage, offset, loPut⟩ | ⟨quiet, offset, storage, lo⟩
      · -- a large put appends its object
        simp only [record, largeValue, large, if_true]
        exact holds.append wf large fits capped storage offset
          (by simpa [dramWrite, applyDramWrite, Nat.not_le.mpr large] using dram) loPut
      by_cases ok : result = .ok
      · -- a tiny or medium put: its hash forgets its object
        subst ok
        have small : ¬ zipcacheMediumDefault < bytes.length := fun large => quiet ⟨rfl, large⟩
        simp only [record, largeValue, dramWrite, small, Nat.le_of_not_lt small, if_true,
          if_false] at dram ⊢
        have kept : ∀ entry, entry.1 ≠ keyHash key → cache.btLo.HoldsEntry entry →
            after.btLo.HoldsEntry entry := by
          rcases lo with same | ⟨-, status, deleted⟩
          · exact fun _ _ held => same ▸ held
          · exact (holdsEntry_bplusTreeLoDelete deleted).1
        have drawn : ∀ entry, after.btLo.HoldsEntry entry → cache.btLo.HoldsEntry entry := by
          rcases lo with same | ⟨-, status, deleted⟩
          · exact fun _ held => same ▸ held
          · exact (holdsEntry_bplusTreeLoDelete deleted).2
        exact holds.keep wf rfl rfl offset storage drawn (holds.marked.update
          (fun other apart => by simp [dram, applyDramWrite, apart]) kept nofun)
      · -- a put that failed writes no object and no DRAM entry
        obtain ⟨unrecorded, unwritten⟩ := record_put_of_ne_ok layout ok
        rw [unrecorded]
        rw [unwritten] at dram
        have same := lo.resolve_right fun both => ok both.1
        exact holds.keep wf rfl rfl offset storage (fun _ held => same ▸ held)
          (holds.marked.of_eq dram same)
  | delete key =>
      obtain ⟨⟨result, after⟩, deleted, done⟩ := Option.map_eq_some'.mp stepped
      obtain ⟨rfl, rfl⟩ := Prod.mk.inj done
      obtain ⟨⟨loResult, loDelete⟩, -, -, -, dram, -, storage, offset⟩ :=
        zipcacheDelete_spec deleted
      obtain ⟨kept, drawn⟩ := holdsEntry_bplusTreeLoDelete loDelete
      exact holds.keep wf rfl rfl offset (.inl storage) drawn (holds.marked.update
        (fun other apart => by simp [dram, apart]) kept nofun)
  | get key =>
      obtain ⟨⟨result, output, after⟩, got, done⟩ := Option.map_eq_some'.mp stepped
      obtain ⟨rfl, rfl⟩ := Prod.mk.inj done
      obtain ⟨dram, lo, -, -, -, -, storage, offset⟩ := zipcacheGet_spec settled got
      exact holds.keep wf rfl rfl offset (.inl storage) (fun _ held => lo ▸ held)
        (holds.marked.of_eq dram lo)

theorem Holds.run {host : Host} (realistic : host.Realistic) (requests : List ZipcacheRequest) :
    ∀ {layout : LargeLayout} {cache cache' : Zipcache} {replies : List ZipcacheReply},
      cache.Settled → layout.Wf → layout.Holds cache →
      zipcacheRun host cache requests = some (replies, cache') →
      ((requests.zip replies).foldl record layout).Holds cache' := by
  induction requests with
  | nil =>
      intro layout cache cache' replies _ _ holds ran
      simp only [zipcacheRun, Option.some.injEq, Prod.mk.injEq] at ran
      obtain ⟨rfl, rfl⟩ := ran
      exact holds
  | cons request rest inductionHypothesis =>
      intro layout cache cache' replies settled wf holds ran
      simp only [zipcacheRun, Option.bind_eq_bind, Option.bind_eq_some, Option.pure_def,
        Option.some.injEq, Prod.mk.injEq] at ran
      obtain ⟨⟨reply, middle⟩, stepped, ⟨more, after⟩, ranRest, rfl, rfl⟩ := ran
      exact inductionHypothesis (zipcacheStep_spec settled stepped).1 (wf.record _)
        (holds.step realistic settled wf stepped) ranRest

end LargeLayout

end ZipCache.Router
