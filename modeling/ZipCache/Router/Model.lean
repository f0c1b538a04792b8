import ZipCache.Checksum
import ZipCache.DramTier.BaseTree
import ZipCache.LoTier.Tree
import ZipCache.SsdTier.Tree

/-!
# The tier router (`zipcache.c`)

`zipcache_put` classifies a value by size. Tiny and medium values go to the DRAM tree as
the caller's pointer; a large value is appended to the storage file, its descriptor goes
to the large-object tree, and the DRAM tree gets the tombstone marker for the key.
`zipcache_coordinated_read` asks DRAM, then the large-object tree and the storage file,
then the SSD tree.

`zipcache_init` builds the DRAM tier with `bplus_tree_init`, so the router calls the base
tree directly, never the compressed one. All three trees are keyed by the `uint32_t`
FNV-1a hash of the key, converted to their `int` key type.

The storage file is its byte contents. A large write asks the system for an aligned buffer
and for one `pwrite`, and either can fail: a `Host` gives their answers. Reads of the file
return what it holds, and the other allocations succeed. The model keeps every object below
`2^64 - 4096` bytes, so that rounding a size up to 4 KiB does not wrap. The eviction thread,
which runs only through `zipcache_evict_cold_pages`, is not part of a request.
-/

namespace ZipCache.Router

open DramTier LoTier SsdTier

/-- `zipcache_result_t`. -/
inductive ZipcacheResult where
  | ok
  | error
  | notFound
  | outOfMemory
  | invalidSize
  | ioError
  | tombstone
deriving DecidableEq, Repr

/-- `zipcache_obj_type_t`. `ZIPCACHE_OBJ_UNKNOWN` is returned for a `NULL` cache only. -/
inductive ZipcacheObjType where
  | tiny
  | medium
  | large
deriving DecidableEq, Repr

/-- `ZIPCACHE_TINY_DEFAULT`. -/
def zipcacheTinyDefault : Nat := 128

/-- `ZIPCACHE_MEDIUM_DEFAULT`. -/
def zipcacheMediumDefault : Nat := 2048

/-- `ZIPCACHE_LARGE_THRESHOLD`: `SIZE_MAX` of a 64-bit `size_t`. -/
def zipcacheLargeThreshold : Nat := 2 ^ 64 - 1

/-- `ZIPCACHE_MAX_KEY_SIZE`. -/
def zipcacheMaxKeySize : Nat := 256

/-- `(long)ZIPCACHE_TOMBSTONE_MARKER`. -/
def zipcacheTombstoneMarker : Int := 0xDEADBEEF

/-- `zipcache_large_obj_t`. `timestamp` is written and never read, and is left out. -/
structure ZipcacheLargeObj where
  lba : BitVec 64
  size : BitVec 32
  checksum : BitVec 32
deriving DecidableEq, Repr

/-- `zipcache_stats_t`. -/
structure ZipcacheStats where
  hitsDram : BitVec 64
  hitsLo : BitVec 64
  hitsSsd : BitVec 64
  misses : BitVec 64
  putsTiny : BitVec 64
  putsMedium : BitVec 64
  putsLarge : BitVec 64
  evictions : BitVec 64
  promotions : BitVec 64
  tombstones : BitVec 64
  memoryUsed : BitVec 64
  memoryCapacity : BitVec 64
deriving DecidableEq, Repr

/-- `zipcache_eviction_t`, without its lock. -/
structure ZipcacheEviction where
  accessBits : List (BitVec 32)
  clockHand : BitVec 32
  totalPages : BitVec 32
deriving DecidableEq, Repr

/-- `zipcache_t`. The storage file `<ssd_path>.storage` is its contents; `ssd_fd`, the path,
the locks and the thread handle are left out, and so is `dram_store`, which no function
reads. -/
structure Zipcache where
  btDram : BaseTree
  btLo : BplusTreeLo
  btSsd : BplusTreeSsd
  tinyThreshold : Nat
  mediumThreshold : Nat
  dramCapacity : Nat
  stats : ZipcacheStats
  eviction : ZipcacheEviction
  storage : List (BitVec 8)
  ssdOffset : BitVec 64

/-- `zipcache_init`, given what the environment holds: the storage file's contents (it is
opened without `O_TRUNC`) and the size and extensibility of the SSD tree's file. The SSD
path must fit in `ssd_path[256]` with its terminator. -/
def zipcacheInit (dramCapacityMb : Nat) (ssdPath storage : List (BitVec 8))
    (ssdFileSize : Nat) (ssdExtended : Bool) : Option Zipcache :=
  if 256 ≤ ssdPath.length then none
  else
    match bplusTreeLoInit 16, bplusTreeSsdInit 16 64 ssdFileSize ssdExtended with
    | some btLo, some btSsd =>
        let dramCapacity := dramCapacityMb * 1024 * 1024 % 2 ^ 64
        let totalPages := BitVec.ofNat 32 (dramCapacity / 4096 + 1)
        some { btDram := BaseTree.empty, btLo, btSsd,
               tinyThreshold := zipcacheTinyDefault, mediumThreshold := zipcacheMediumDefault,
               dramCapacity,
               stats := ⟨0, 0, 0, 0, 0, 0, 0, 0, 0, 0, 0, BitVec.ofNat 64 dramCapacity⟩,
               eviction := ⟨List.replicate totalPages.toNat 0, 0, totalPages⟩,
               storage, ssdOffset := 0 }
    | _, _ => none

/-- `zipcache_classify_object`. -/
def zipcacheClassifyObject (cache : Zipcache) (size : Nat) : ZipcacheObjType :=
  if size ≤ cache.tinyThreshold then .tiny
  else if size ≤ cache.mediumThreshold then .medium
  else .large

/-- `zipcache_hash_key(key)` passed as the trees' `int` key. -/
def keyHash (key : List (BitVec 8)) : Int :=
  (zipcacheHashKey key).toInt

/-- `pwrite` on a regular file: the bytes from `offset` are replaced; a gap past the end of
the file reads as zeros. -/
def pwrite (file : List (BitVec 8)) (offset : Nat) (data : List (BitVec 8)) :
    List (BitVec 8) :=
  let padded := file ++ List.replicate (offset - file.length) 0#8
  padded.take offset ++ data ++ padded.drop (offset + data.length)

/-- `pread`: up to `count` bytes from `offset`, fewer at the end of the file. -/
def pread (file : List (BitVec 8)) (offset count : Nat) : List (BitVec 8) :=
  (file.drop offset).take count

/-- What the system answers to the calls of `zipcache_write_large_object` that can fail:
whether `posix_memalign` gives a buffer of a size, and what `pwrite` of a count of bytes at
an offset returns, the bytes it wrote or `-1`. -/
structure Host where
  memalign : Nat → Bool
  pwrite : Nat → Nat → Int

/-- The most bytes one `pwrite` transfers on Linux. -/
def maxRwCount : Nat := 0x7ffff000

/-- Linux with memory to spare: every allocation succeeds, and a `pwrite` transfers at most
`maxRwCount` bytes and nothing past the largest file offset, `2^63 - 1`. -/
def Host.linux : Host where
  memalign _ := true
  pwrite offset count :=
    if offset + min count maxRwCount < 2 ^ 63 then min count maxRwCount else -1

/-- `((size + 4095) / 4096) * 4096`. -/
def alignedSize (size : Nat) : Nat :=
  (size + 4095) / 4096 * 4096

/-- `zipcache_write_large_object`: append the value, zero-padded to 4 KiB, at `ssd_offset`;
the descriptor records the old offset, the size cut to `uint32_t`, and the checksum. A refused
buffer is `ZIPCACHE_OUT_OF_MEMORY`. A `pwrite` that writes less than the padded size is
`ZIPCACHE_IO_ERROR`: what it wrote stays in the file, and `ssd_offset` stays. -/
def zipcacheWriteLargeObject (host : Host) (cache : Zipcache) (value : List (BitVec 8)) :
    Except (ZipcacheResult × Zipcache) (Zipcache × ZipcacheLargeObj) :=
  if value.length = 0 then .error (.error, cache)
  else
    let aligned := alignedSize value.length
    if host.memalign aligned = false then .error (.outOfMemory, cache)
    else
      let image := value ++ List.replicate (aligned - value.length) 0#8
      let written := host.pwrite cache.ssdOffset.toNat aligned
      let storage := if 0 < written then
          pwrite cache.storage cache.ssdOffset.toNat (image.take written.toNat)
        else cache.storage
      if written ≠ aligned then .error (.ioError, { cache with storage })
      else
        let descriptor : ZipcacheLargeObj :=
          ⟨cache.ssdOffset, BitVec.ofNat 32 value.length, zipcacheChecksum value⟩
        .ok ({ cache with storage, ssdOffset := cache.ssdOffset + BitVec.ofNat 64 aligned },
          descriptor)

/-- `zipcache_read_large_object`: `descriptor.size` bytes from `descriptor.lba`, refused
with `ZIPCACHE_IO_ERROR` when short or when their checksum differs. -/
def zipcacheReadLargeObject (cache : Zipcache) (descriptor : ZipcacheLargeObj) :
    Except ZipcacheResult (List (BitVec 8)) :=
  let buffer := pread cache.storage descriptor.lba.toNat descriptor.size.toNat
  if buffer.length ≠ descriptor.size.toNat then .error .ioError
  else if zipcacheChecksum buffer ≠ descriptor.checksum then .error .ioError
  else .ok buffer

namespace Zipcache

/-- Replace the statistics. -/
def setStats (cache : Zipcache) (stats : ZipcacheStats) : Zipcache :=
  { cache with stats }

end Zipcache

/-- `zipcache_invalidate_stale`: a tiny or medium put deletes the key's descriptor, if the
large-object tree holds a valid one. -/
def zipcacheInvalidateStale (cache : Zipcache) (key : List (BitVec 8))
    (newType : ZipcacheObjType) : Option (ZipcacheResult × Zipcache) := do
  if newType = .tiny ∨ newType = .medium then
    let optr ← bplusTreeLoGet cache.btLo (keyHash key)
    if objectPointerIsValid optr then
      let (_, btLo) ← bplusTreeLoDelete cache.btLo (keyHash key)
      return (.ok, { cache with btLo })
  return (.ok, cache)

/-- `zipcache_route_put`: the pointer itself, as a `long`, into DRAM for a tiny or medium
value; the bytes to the storage file, the descriptor to the large-object tree and the
tombstone marker to DRAM for a large one. -/
def zipcacheRoutePut (host : Host) (cache : Zipcache) (key : List (BitVec 8))
    (value : BitVec 64) (bytes : List (BitVec 8)) (type : ZipcacheObjType) :
    Option (ZipcacheResult × Zipcache) :=
  match type with
  | .tiny | .medium =>
      let (dramResult, btDram) := cache.btDram.put (keyHash key) value.toInt
      let cache := { cache with btDram }
      if dramResult = 0 then
        let stats := if type = .tiny then { cache.stats with putsTiny := cache.stats.putsTiny + 1 }
          else { cache.stats with putsMedium := cache.stats.putsMedium + 1 }
        let stats := { stats with memoryUsed := stats.memoryUsed + BitVec.ofNat 64 bytes.length }
        (zipcacheInvalidateStale (cache.setStats stats) key type).map fun (_, cache) =>
          (.ok, cache)
      else some (.error, cache)
  | .large =>
      match zipcacheWriteLargeObject host cache bytes with
      | .error (result, cache) => some (result, cache)
      | .ok (cache, descriptor) => do
          let optr : ObjectPointer := ⟨descriptor.lba, descriptor.size, descriptor.checksum⟩
          let (loResult, btLo) ← bplusTreeLoPut cache.btLo (keyHash key) optr
          let cache := { cache with btLo }
          if loResult = 0 then
            let stats := { cache.stats with putsLarge := cache.stats.putsLarge + 1,
                                            tombstones := cache.stats.tombstones + 1 }
            let btDram := (cache.btDram.put (keyHash key) zipcacheTombstoneMarker).2
            return (.ok, { cache.setStats stats with btDram })
          else return (.error, cache)

/-- `zipcache_put`: a `NULL` value or size `0` is an error; an oversized value or key is
refused. -/
def zipcachePut (host : Host) (cache : Zipcache) (key : List (BitVec 8)) (value : BitVec 64)
    (bytes : List (BitVec 8)) : Option (ZipcacheResult × Zipcache) :=
  if value = 0 ∨ bytes.length = 0 then some (.error, cache)
  else if zipcacheLargeThreshold < bytes.length ∨ zipcacheMaxKeySize < key.length then
    some (.invalidSize, cache)
  else zipcacheRoutePut host cache key value bytes (zipcacheClassifyObject cache bytes.length)

/-- `zipcache_promote_object`: the value into DRAM, and its size onto `memory_used`. -/
def zipcachePromoteObject (cache : Zipcache) (key : List (BitVec 8)) (value : Int)
    (size : Nat) : ZipcacheResult × Zipcache :=
  let (result, btDram) := cache.btDram.put (keyHash key) value
  let cache := { cache with btDram }
  if result = 0 then
    (.ok, cache.setStats
      { cache.stats with memoryUsed := cache.stats.memoryUsed + BitVec.ofNat 64 size })
  else (.error, cache)

/-- What a read stores in `*value`: a tree value taken back as a pointer, or the buffer a
large-object read filled. -/
inductive ReadValue where
  | address (value : Int)
  | buffer (bytes : List (BitVec 8))
deriving DecidableEq, Repr

/-- `zipcache_coordinated_read`: the status, what it stored in `*value` and `*size` (nothing
on failure), and the cache. -/
def zipcacheCoordinatedRead (cache : Zipcache) (key : List (BitVec 8)) :
    Option (ZipcacheResult × Option (ReadValue × Nat) × Zipcache) := do
  let dramResult := cache.btDram.get (keyHash key)
  if 0 < dramResult then
    if dramResult = zipcacheTombstoneMarker then
      return (.tombstone, none,
        cache.setStats { cache.stats with misses := cache.stats.misses + 1 })
    return (.ok, some (.address dramResult, 0),
      cache.setStats { cache.stats with hitsDram := cache.stats.hitsDram + 1 })
  let optr ← bplusTreeLoGet cache.btLo (keyHash key)
  if objectPointerIsValid optr then
    if let .ok buffer := zipcacheReadLargeObject cache ⟨optr.lba, optr.size, optr.checksum⟩ then
      return (.ok, some (.buffer buffer, optr.size.toNat),
        cache.setStats { cache.stats with hitsLo := cache.stats.hitsLo + 1 })
  let (ssdResult, btSsd) := bplusTreeSsdGet cache.btSsd (keyHash key)
  let cache := { cache with btSsd }
  if 0 < ssdResult then
    let cache := cache.setStats { cache.stats with hitsSsd := cache.stats.hitsSsd + 1 }
    -- `*size` was just set to `0`, which never exceeds `medium_threshold`.
    let cache := if (0 : Nat) ≤ cache.mediumThreshold then
        let cache := (zipcachePromoteObject cache key ssdResult 0).2
        cache.setStats { cache.stats with promotions := cache.stats.promotions + 1 }
      else cache
    return (.ok, some (.address ssdResult, 0), cache)
  return (.notFound, none, cache.setStats { cache.stats with misses := cache.stats.misses + 1 })

/-- `zipcache_get`: an oversized key is refused. -/
def zipcacheGet (cache : Zipcache) (key : List (BitVec 8)) :
    Option (ZipcacheResult × Option (ReadValue × Nat) × Zipcache) :=
  if zipcacheMaxKeySize < key.length then some (.invalidSize, none, cache)
  else zipcacheCoordinatedRead cache key

/-- `zipcache_delete`: a put of `0` into DRAM, `bplus_tree_lo_delete`, and a put of `0` into
the SSD tree; `ZIPCACHE_OK` if any of them returned `0`. -/
def zipcacheDelete (cache : Zipcache) (key : List (BitVec 8)) :
    Option (ZipcacheResult × Zipcache) := do
  let (dramResult, btDram) := cache.btDram.put (keyHash key) 0
  let (loResult, btLo) ← bplusTreeLoDelete cache.btLo (keyHash key)
  let (ssdResult, btSsd) ← bplusTreeSsdPut cache.btSsd (keyHash key) 0
  let result := if dramResult = 0 ∨ loResult = 0 ∨ ssdResult = 0 then .ok else .notFound
  return (result, { cache with btDram, btLo, btSsd })

/-- A call of the public interface: the key's bytes, and for a put the value pointer and the
`size` bytes it points to. -/
inductive ZipcacheRequest where
  | put (key : List (BitVec 8)) (value : BitVec 64) (bytes : List (BitVec 8))
  | delete (key : List (BitVec 8))
  | get (key : List (BitVec 8))
deriving DecidableEq, Repr

/-- What a call returns: its status, and for a get what it stored in `*value` and `*size`. -/
abbrev ZipcacheReply := ZipcacheResult × Option (ReadValue × Nat)

/-- One call. -/
def zipcacheStep (host : Host) (cache : Zipcache) :
    ZipcacheRequest → Option (ZipcacheReply × Zipcache)
  | .put key value bytes =>
      (zipcachePut host cache key value bytes).map fun (result, cache) => ((result, none), cache)
  | .delete key => (zipcacheDelete cache key).map fun (result, cache) => ((result, none), cache)
  | .get key =>
      (zipcacheGet cache key).map fun (result, output, cache) => ((result, output), cache)

/-- A run of calls: the replies in order, and the cache. -/
def zipcacheRun (host : Host) :
    Zipcache → List ZipcacheRequest → Option (List ZipcacheReply × Zipcache)
  | cache, [] => some ([], cache)
  | cache, request :: rest => do
      let (reply, cache) ← zipcacheStep host cache request
      let (replies, cache) ← zipcacheRun host cache rest
      return (reply :: replies, cache)

end ZipCache.Router
