import ZipCache.LoTier.Sorted
import ZipCache.Router.Model

/-!
# The router: one spec lemma per request, and whole runs

From `zipcache_init` the thresholds stay at their defaults and the SSD tree never gets a
root: the router puts only `0` into it (from `zipcache_delete`), which
`bplus_tree_ssd_put` refuses. Its lookups therefore answer `-1` and no read promotes.

Under that invariant each request acts on the DRAM tree as one base-tree put, named by the
request and its reply (`dramWrite`), and adds to `memory_used` the size of a tiny or medium
put that succeeded (`memoryCharge`). A run composes these.
-/

namespace ZipCache.Router

open DramTier LoTier SsdTier

/-- What every state reached from `zipcache_init` keeps: default thresholds, and an SSD tree
without a root. -/
structure Zipcache.Settled (cache : Zipcache) : Prop where
  tiny : cache.tinyThreshold = zipcacheTinyDefault
  medium : cache.mediumThreshold = zipcacheMediumDefault
  ssdIdle : cache.btSsd.root = none

/-- The DRAM put a call makes, as (hash, value), when it makes one: a successful put stores
the pointer or, for a large value, the tombstone marker; a delete stores `0`. -/
def dramWrite : ZipcacheRequest → ZipcacheReply → Option (Int × Int)
  | .put key value bytes, (.ok, _) =>
      some (keyHash key,
        if bytes.length ≤ zipcacheMediumDefault then value.toInt else zipcacheTombstoneMarker)
  | .delete key, _ => some (keyHash key, 0)
  | _, _ => none

/-- A base tree after an optional put. -/
def applyDramWrite (tree : BaseTree) : Option (Int × Int) → BaseTree
  | some (key, data) => (tree.put key data).2
  | none => tree

/-- The hash of a large put that succeeded: the only key a call can add to the large-object
tree. -/
def largeWrite : ZipcacheRequest → ZipcacheReply → Option Int
  | .put key _ bytes, (.ok, _) =>
      if zipcacheMediumDefault < bytes.length then some (keyHash key) else none
  | _, _ => none

/-- What a call adds to `memory_used`: the size of a tiny or medium put that succeeded. -/
def memoryCharge : ZipcacheRequest → ZipcacheReply → Nat
  | .put _ _ bytes, (.ok, _) => if bytes.length ≤ zipcacheMediumDefault then bytes.length else 0
  | _, _ => 0

theorem bplusTreeSsdGet_of_idle {tree : BplusTreeSsd} (idle : tree.root = none) (key : Int) :
    bplusTreeSsdGet tree key = (-1, tree) := by
  simp [bplusTreeSsdGet, bplusTreeSearch, idle]

@[simp]
theorem bplusTreeSsdPut_zero (tree : BplusTreeSsd) (key : Int) :
    bplusTreeSsdPut tree key 0 = some (-1, tree) := rfl

theorem zipcacheClassifyObject_large {cache : Zipcache} (settled : cache.Settled) {size : Nat} :
    zipcacheClassifyObject cache size = .large ↔ zipcacheMediumDefault < size := by
  simp only [zipcacheClassifyObject, settled.tiny, settled.medium, zipcacheTinyDefault,
    zipcacheMediumDefault]
  split_ifs <;> simp <;> omega

theorem toInt_ne_zero {value : BitVec 64} (nonNull : value ≠ 0) : value.toInt ≠ 0 :=
  fun zero => nonNull (BitVec.eq_of_toInt_eq (by rw [zero]; rfl))

theorem zipcacheInvalidateStale_spec {cache cache' : Zipcache} {key : List (BitVec 8)}
    {newType : ZipcacheObjType} {result : ZipcacheResult}
    (invalidated : zipcacheInvalidateStale cache key newType = some (result, cache')) :
    result = .ok ∧ cache' = { cache with btLo := cache'.btLo } ∧
      (cache'.btLo = cache.btLo ∨
        ∃ status, bplusTreeLoDelete cache.btLo (keyHash key) = some (status, cache'.btLo)) := by
  unfold zipcacheInvalidateStale at invalidated
  split at invalidated
  · cases found : bplusTreeLoGet cache.btLo (keyHash key) with
    | none => simp [found] at invalidated
    | some optr =>
        simp only [found, Option.pure_def, Option.bind_eq_bind, Option.some_bind] at invalidated
        split at invalidated
        · cases deleted : bplusTreeLoDelete cache.btLo (keyHash key) with
          | none => simp [deleted] at invalidated
          | some outcome =>
              simp only [deleted, Option.some_bind, Option.some.injEq, Prod.mk.injEq]
                at invalidated
              obtain ⟨rfl, rfl⟩ := invalidated
              exact ⟨rfl, rfl, .inr ⟨outcome.1, rfl⟩⟩
        · simp only [Option.some.injEq, Prod.mk.injEq] at invalidated
          obtain ⟨rfl, rfl⟩ := invalidated
          exact ⟨rfl, rfl, .inl rfl⟩
  · simp only [Option.pure_def, Option.some.injEq, Prod.mk.injEq] at invalidated
    obtain ⟨rfl, rfl⟩ := invalidated
    exact ⟨rfl, rfl, .inl rfl⟩

theorem zipcacheRoutePut_small {host : Host} {cache cache' : Zipcache} {key : List (BitVec 8)}
    {value : BitVec 64} {bytes : List (BitVec 8)} {type : ZipcacheObjType}
    {result : ZipcacheResult} (small : type ≠ .large) (nonNull : value.toInt ≠ 0)
    (routed : zipcacheRoutePut host cache key value bytes type = some (result, cache')) :
    result = .ok ∧ cache'.btSsd = cache.btSsd ∧ cache'.tinyThreshold = cache.tinyThreshold ∧
      cache'.mediumThreshold = cache.mediumThreshold ∧
      cache'.btDram = (cache.btDram.put (keyHash key) value.toInt).2 ∧
      cache'.stats.memoryUsed = cache.stats.memoryUsed + BitVec.ofNat 64 bytes.length ∧
      (cache'.btLo = cache.btLo ∨
        ∃ status, bplusTreeLoDelete cache.btLo (keyHash key) = some (status, cache'.btLo)) ∧
      cache'.storage = cache.storage ∧ cache'.ssdOffset = cache.ssdOffset := by
  have stored := BaseTree.put_status_of_ne_zero cache.btDram (keyHash key) nonNull
  cases type with
  | large => exact absurd rfl small
  | tiny | medium =>
      simp only [zipcacheRoutePut, stored, if_true] at routed
      obtain ⟨⟨_, staleCache⟩, invalidated, done⟩ := Option.map_eq_some'.mp routed
      obtain ⟨rfl, rfl⟩ := Prod.mk.inj done
      obtain ⟨-, frame, lo⟩ := zipcacheInvalidateStale_spec invalidated
      refine ⟨rfl, ?_⟩
      rw [frame] at lo ⊢
      simpa [Zipcache.setStats] using lo

/-- The descriptor `zipcache_route_put` hands to the large-object tree for a value written at
the current `ssd_offset`. -/
def largeObjectPointer (cache : Zipcache) (bytes : List (BitVec 8)) : ObjectPointer :=
  ⟨cache.ssdOffset, BitVec.ofNat 32 bytes.length, zipcacheChecksum bytes⟩

theorem le_alignedSize (size : Nat) : size ≤ alignedSize size := by
  unfold alignedSize
  omega

theorem zipcacheWriteLargeObject_of_written {host : Host} {cache : Zipcache}
    {bytes : List (BitVec 8)} (nonEmpty : bytes.length ≠ 0)
    (allocated : host.memalign (alignedSize bytes.length) = true)
    (written : host.pwrite cache.ssdOffset.toNat (alignedSize bytes.length) =
      alignedSize bytes.length) :
    zipcacheWriteLargeObject host cache bytes = .ok ({ cache with
        storage := pwrite cache.storage cache.ssdOffset.toNat
          (bytes ++ List.replicate (alignedSize bytes.length - bytes.length) 0#8),
        ssdOffset := cache.ssdOffset + BitVec.ofNat 64 (alignedSize bytes.length) },
      ⟨cache.ssdOffset, BitVec.ofNat 32 bytes.length, zipcacheChecksum bytes⟩) := by
  have padded := le_alignedSize bytes.length
  have whole : (bytes ++ List.replicate (alignedSize bytes.length - bytes.length) 0#8).take
      (alignedSize bytes.length) =
        bytes ++ List.replicate (alignedSize bytes.length - bytes.length) 0#8 :=
    List.take_of_length_le (by simp; omega)
  simp only [zipcacheWriteLargeObject, nonEmpty, allocated, written, if_false,
    Bool.true_eq_false, ne_eq, not_true_eq_false, Int.toNat_ofNat, whole]
  rw [if_pos (by omega)]

theorem zipcacheWriteLargeObject_of_failed {host : Host} {cache : Zipcache}
    {bytes : List (BitVec 8)} (nonEmpty : bytes.length ≠ 0)
    (failed : ¬ (host.memalign (alignedSize bytes.length) = true ∧
      host.pwrite cache.ssdOffset.toNat (alignedSize bytes.length) = alignedSize bytes.length)) :
    ∃ result storage, zipcacheWriteLargeObject host cache bytes =
        .error (result, { cache with storage }) ∧ (result = .outOfMemory ∨ result = .ioError) ∧
      (storage = cache.storage ∨
        ∃ data, storage = pwrite cache.storage cache.ssdOffset.toNat data) := by
  unfold zipcacheWriteLargeObject
  rw [if_neg nonEmpty]
  dsimp only
  split
  · exact ⟨_, _, rfl, .inl rfl, .inl rfl⟩
  · next allocated =>
      have short : host.pwrite cache.ssdOffset.toNat (alignedSize bytes.length) ≠
          alignedSize bytes.length :=
        fun whole => failed ⟨Bool.not_eq_false _ ▸ allocated, whole⟩
      rw [if_pos short]
      refine ⟨_, _, rfl, .inr rfl, ?_⟩
      split
      · exact .inr ⟨_, rfl⟩
      · exact .inl rfl

theorem zipcacheRoutePut_large {host : Host} {cache cache' : Zipcache} {key : List (BitVec 8)}
    {value : BitVec 64} {bytes : List (BitVec 8)} {result : ZipcacheResult}
    (nonEmpty : bytes.length ≠ 0)
    (routed : zipcacheRoutePut host cache key value bytes .large = some (result, cache')) :
    cache'.btSsd = cache.btSsd ∧ cache'.tinyThreshold = cache.tinyThreshold ∧
      cache'.mediumThreshold = cache.mediumThreshold ∧
      cache'.stats.memoryUsed = cache.stats.memoryUsed ∧
      ((result = .outOfMemory ∨ result = .ioError) ∧ cache'.btLo = cache.btLo ∧
          cache'.btDram = cache.btDram ∧ cache'.ssdOffset = cache.ssdOffset ∧
          (cache'.storage = cache.storage ∨
            ∃ data, cache'.storage = pwrite cache.storage cache.ssdOffset.toNat data) ∨
        host.memalign (alignedSize bytes.length) = true ∧
          host.pwrite cache.ssdOffset.toNat (alignedSize bytes.length) =
            alignedSize bytes.length ∧
          cache'.storage = pwrite cache.storage cache.ssdOffset.toNat
            (bytes ++ List.replicate (alignedSize bytes.length - bytes.length) 0#8) ∧
          cache'.ssdOffset = cache.ssdOffset + BitVec.ofNat 64 (alignedSize bytes.length) ∧
          ∃ loResult, bplusTreeLoPut cache.btLo (keyHash key) (largeObjectPointer cache bytes) =
              some (loResult, cache'.btLo) ∧ (result = .ok ↔ loResult = 0) ∧
            cache'.btDram = (if result = .ok then
              (cache.btDram.put (keyHash key) zipcacheTombstoneMarker).2 else cache.btDram)) := by
  by_cases through : host.memalign (alignedSize bytes.length) = true ∧
      host.pwrite cache.ssdOffset.toNat (alignedSize bytes.length) = alignedSize bytes.length
  · simp only [zipcacheRoutePut, zipcacheWriteLargeObject_of_written nonEmpty through.1
      through.2] at routed
    cases stored : bplusTreeLoPut cache.btLo (keyHash key) (largeObjectPointer cache bytes) with
    | none => simp [largeObjectPointer] at stored; simp [stored] at routed
    | some outcome =>
        obtain ⟨loResult, btLo⟩ := outcome
        simp only [largeObjectPointer] at stored
        simp only [stored, Option.bind_eq_bind, Option.some_bind] at routed
        split at routed
        · next accepted =>
          simp only [Option.pure_def, Option.some.injEq, Prod.mk.injEq] at routed
          obtain ⟨rfl, rfl⟩ := routed
          exact ⟨rfl, rfl, rfl, by simp [Zipcache.setStats], .inr ⟨through.1, through.2, rfl, rfl,
            loResult, by simp [largeObjectPointer, stored, accepted, Zipcache.setStats]⟩⟩
        · next refused =>
          simp only [Option.pure_def, Option.some.injEq, Prod.mk.injEq] at routed
          obtain ⟨rfl, rfl⟩ := routed
          exact ⟨rfl, rfl, rfl, rfl, .inr ⟨through.1, through.2, rfl, rfl,
            loResult, by simp [largeObjectPointer, stored, refused]⟩⟩
  · obtain ⟨failure, storage, refusedWrite, code, written⟩ :=
      zipcacheWriteLargeObject_of_failed nonEmpty through
    simp only [zipcacheRoutePut, refusedWrite, Option.some.injEq, Prod.mk.injEq] at routed
    obtain ⟨rfl, rfl⟩ := routed
    exact ⟨rfl, rfl, rfl, rfl, .inl ⟨code, rfl, rfl, rfl, written⟩⟩

theorem zipcachePut_spec {host : Host} {cache cache' : Zipcache} {key : List (BitVec 8)}
    {value : BitVec 64} {bytes : List (BitVec 8)} {result : ZipcacheResult}
    (settled : cache.Settled)
    (put : zipcachePut host cache key value bytes = some (result, cache')) :
    cache'.btSsd = cache.btSsd ∧ cache'.tinyThreshold = cache.tinyThreshold ∧
      cache'.mediumThreshold = cache.mediumThreshold ∧
      cache'.btDram =
        applyDramWrite cache.btDram (dramWrite (.put key value bytes) (result, none)) ∧
      cache'.stats.memoryUsed = cache.stats.memoryUsed +
        BitVec.ofNat 64 (memoryCharge (.put key value bytes) (result, none)) ∧
      (cache'.btLo = cache.btLo ∨
        (∃ status, bplusTreeLoDelete cache.btLo (keyHash key) = some (status, cache'.btLo)) ∨
        result = .ok ∧ zipcacheMediumDefault < bytes.length ∧ ∃ status,
          bplusTreeLoPut cache.btLo (keyHash key) (largeObjectPointer cache bytes) =
            some (status, cache'.btLo)) := by
  unfold zipcachePut at put
  split_ifs at put with refused oversized
  iterate 2
    · simp only [Option.some.injEq, Prod.mk.injEq] at put
      obtain ⟨rfl, rfl⟩ := put
      exact ⟨rfl, rfl, rfl, by simp [dramWrite, applyDramWrite], by simp [memoryCharge],
        .inl rfl⟩
  · have nonNull : value.toInt ≠ 0 := toInt_ne_zero (fun zero => refused (Or.inl zero))
    have nonEmpty : bytes.length ≠ 0 := fun zero => refused (Or.inr zero)
    by_cases large : zipcacheMediumDefault < bytes.length
    · rw [(zipcacheClassifyObject_large settled).mpr large] at put
      obtain ⟨ssd, tiny, medium, memory, ⟨code, lo, dram, -⟩ | ⟨-, -, -, -, loResult, loPut,
        accepted, dram⟩⟩ := zipcacheRoutePut_large nonEmpty put
      · -- the host refused the write
        refine ⟨ssd, tiny, medium, ?_, ?_, .inl lo⟩ <;>
          rcases code with rfl | rfl <;>
            simp [dram, memory, dramWrite, applyDramWrite, memoryCharge]
      refine ⟨ssd, tiny, medium, ?_, ?_, ?_⟩
      · by_cases ok : result = .ok
        · subst ok
          simp [dram, dramWrite, applyDramWrite, Nat.not_le.mpr large]
        · rw [dram, if_neg ok]
          cases result
          · exact absurd rfl ok
          all_goals rfl
      · cases result <;> simp [memory, memoryCharge, Nat.not_le.mpr large]
      · by_cases ok : result = .ok
        · exact .inr (.inr ⟨ok, large, loResult, loPut⟩)
        · exact .inl (bplusTreeLoPut_unchanged_of_refused loPut
            fun zero => ok (accepted.mpr zero))
    · have small : zipcacheClassifyObject cache bytes.length ≠ .large :=
        fun classified => large ((zipcacheClassifyObject_large settled).mp classified)
      obtain ⟨rfl, ssd, tiny, medium, dram, memory, lo, -⟩ :=
        zipcacheRoutePut_small small nonNull put
      exact ⟨ssd, tiny, medium, by simp [dram, dramWrite, applyDramWrite, Nat.not_lt.mp large],
        by simp [memory, memoryCharge, Nat.not_lt.mp large], lo.imp_right .inl⟩

theorem zipcacheDelete_spec {cache cache' : Zipcache} {key : List (BitVec 8)}
    {result : ZipcacheResult}
    (deleted : zipcacheDelete cache key = some (result, cache')) :
    (∃ loResult, bplusTreeLoDelete cache.btLo (keyHash key) = some (loResult, cache'.btLo)) ∧
      cache'.btSsd = cache.btSsd ∧ cache'.tinyThreshold = cache.tinyThreshold ∧
      cache'.mediumThreshold = cache.mediumThreshold ∧
      cache'.btDram = (cache.btDram.put (keyHash key) 0).2 ∧ cache'.stats = cache.stats ∧
      cache'.storage = cache.storage ∧ cache'.ssdOffset = cache.ssdOffset := by
  unfold zipcacheDelete at deleted
  cases removed : bplusTreeLoDelete cache.btLo (keyHash key) with
  | none => simp [removed] at deleted
  | some outcome =>
      simp only [removed, bplusTreeSsdPut_zero, Option.bind_eq_bind, Option.some_bind,
        Option.pure_def, Option.some.injEq, Prod.mk.injEq] at deleted
      obtain ⟨-, rfl⟩ := deleted
      exact ⟨⟨outcome.1, rfl⟩, rfl, rfl, rfl, rfl, rfl, rfl, rfl⟩

theorem zipcacheCoordinatedRead_of_tombstone {cache : Zipcache} {key : List (BitVec 8)}
    (marked : cache.btDram.get (keyHash key) = zipcacheTombstoneMarker) :
    zipcacheCoordinatedRead cache key =
      some (.tombstone, none,
        cache.setStats { cache.stats with misses := cache.stats.misses + 1 }) := by
  simp [zipcacheCoordinatedRead, marked, zipcacheTombstoneMarker]

theorem zipcacheCoordinatedRead_of_dram_hit {cache : Zipcache} {key : List (BitVec 8)}
    (positive : 0 < cache.btDram.get (keyHash key))
    (live : cache.btDram.get (keyHash key) ≠ zipcacheTombstoneMarker) :
    zipcacheCoordinatedRead cache key =
      some (.ok, some (.address (cache.btDram.get (keyHash key)), 0),
        cache.setStats { cache.stats with hitsDram := cache.stats.hitsDram + 1 }) := by
  simp [zipcacheCoordinatedRead, positive, live]

theorem zipcacheCoordinatedRead_of_dram_miss {cache : Zipcache} {key : List (BitVec 8)}
    (settled : cache.Settled) (miss : ¬ 0 < cache.btDram.get (keyHash key)) :
    zipcacheCoordinatedRead cache key = (bplusTreeLoGet cache.btLo (keyHash key)).map fun optr =>
      match objectPointerIsValid optr,
          zipcacheReadLargeObject cache ⟨optr.lba, optr.size, optr.checksum⟩ with
      | true, .ok buffer => (.ok, some (.buffer buffer, optr.size.toNat),
          cache.setStats { cache.stats with hitsLo := cache.stats.hitsLo + 1 })
      | _, _ => (.notFound, none,
          cache.setStats { cache.stats with misses := cache.stats.misses + 1 }) := by
  unfold zipcacheCoordinatedRead
  simp only [miss, if_false, bplusTreeSsdGet_of_idle settled.ssdIdle]
  cases bplusTreeLoGet cache.btLo (keyHash key) with
  | none => rfl
  | some optr =>
      simp only [Option.bind_eq_bind, Option.some_bind, Option.map_some']
      cases objectPointerIsValid optr <;>
        cases zipcacheReadLargeObject cache ⟨optr.lba, optr.size, optr.checksum⟩ <;> rfl

theorem zipcacheGet_spec {cache cache' : Zipcache} {key : List (BitVec 8)}
    {result : ZipcacheResult} {output : Option (ReadValue × Nat)} (settled : cache.Settled)
    (got : zipcacheGet cache key = some (result, output, cache')) :
    cache'.btDram = cache.btDram ∧ cache'.btLo = cache.btLo ∧ cache'.btSsd = cache.btSsd ∧
      cache'.tinyThreshold = cache.tinyThreshold ∧
      cache'.mediumThreshold = cache.mediumThreshold ∧
      cache'.stats.memoryUsed = cache.stats.memoryUsed ∧ cache'.storage = cache.storage ∧
      cache'.ssdOffset = cache.ssdOffset := by
  unfold zipcacheGet at got
  split at got
  · simp only [Option.some.injEq, Prod.mk.injEq] at got
    obtain ⟨-, -, rfl⟩ := got
    exact ⟨rfl, rfl, rfl, rfl, rfl, rfl, rfl, rfl⟩
  · by_cases positive : 0 < cache.btDram.get (keyHash key)
    · by_cases marked : cache.btDram.get (keyHash key) = zipcacheTombstoneMarker
      · rw [zipcacheCoordinatedRead_of_tombstone marked] at got
        simp only [Option.some.injEq, Prod.mk.injEq] at got
        obtain ⟨-, -, rfl⟩ := got
        exact ⟨rfl, rfl, rfl, rfl, rfl, rfl, rfl, rfl⟩
      · rw [zipcacheCoordinatedRead_of_dram_hit positive marked] at got
        simp only [Option.some.injEq, Prod.mk.injEq] at got
        obtain ⟨-, -, rfl⟩ := got
        exact ⟨rfl, rfl, rfl, rfl, rfl, rfl, rfl, rfl⟩
    · rw [zipcacheCoordinatedRead_of_dram_miss settled positive] at got
      obtain ⟨optr, -, answered⟩ := Option.map_eq_some'.mp got
      split at answered <;>
        · simp only [Prod.mk.injEq] at answered
          obtain ⟨-, -, rfl⟩ := answered
          exact ⟨rfl, rfl, rfl, rfl, rfl, rfl, rfl, rfl⟩

theorem zipcacheStep_spec {host : Host} {cache cache' : Zipcache} {request : ZipcacheRequest}
    {reply : ZipcacheReply} (settled : cache.Settled)
    (stepped : zipcacheStep host cache request = some (reply, cache')) :
    cache'.Settled ∧ cache'.btDram = applyDramWrite cache.btDram (dramWrite request reply) ∧
      cache'.stats.memoryUsed =
        cache.stats.memoryUsed + BitVec.ofNat 64 (memoryCharge request reply) ∧
      ∀ k, cache'.btLo.Stores k → cache.btLo.Stores k ∨ largeWrite request reply = some k := by
  cases request with
  | put key value bytes =>
      obtain ⟨⟨result, after⟩, put, done⟩ := Option.map_eq_some'.mp stepped
      obtain ⟨rfl, rfl⟩ := Prod.mk.inj done
      obtain ⟨ssd, tiny, medium, dram, memory, lo⟩ := zipcachePut_spec settled put
      refine ⟨⟨tiny ▸ settled.tiny, medium ▸ settled.medium, ssd ▸ settled.ssdIdle⟩, dram, memory,
        fun k stored => ?_⟩
      rcases lo with same | ⟨status, deleted⟩ | ⟨rfl, large, status, loPut⟩
      · exact .inl (same ▸ stored)
      · exact .inl (stores_bplusTreeLoDelete deleted stored)
      · rcases stores_bplusTreeLoPut loPut stored with old | rfl
        · exact .inl old
        · exact .inr (by simp [largeWrite, large])
  | delete key =>
      obtain ⟨⟨result, after⟩, deleted, done⟩ := Option.map_eq_some'.mp stepped
      obtain ⟨rfl, rfl⟩ := Prod.mk.inj done
      obtain ⟨⟨loResult, loDelete⟩, ssd, tiny, medium, dram, stats, -⟩ :=
        zipcacheDelete_spec deleted
      exact ⟨⟨tiny ▸ settled.tiny, medium ▸ settled.medium, ssd ▸ settled.ssdIdle⟩,
        by simp [dram, dramWrite, applyDramWrite], by simp [stats, memoryCharge],
        fun k stored => .inl (stores_bplusTreeLoDelete loDelete stored)⟩
  | get key =>
      obtain ⟨⟨result, output, after⟩, got, done⟩ := Option.map_eq_some'.mp stepped
      obtain ⟨rfl, rfl⟩ := Prod.mk.inj done
      obtain ⟨dram, lo, ssd, tiny, medium, memory, -⟩ := zipcacheGet_spec settled got
      exact ⟨⟨tiny ▸ settled.tiny, medium ▸ settled.medium, ssd ▸ settled.ssdIdle⟩,
        by simp [dram, dramWrite, applyDramWrite], by simp [memory, memoryCharge],
        fun k stored => .inl (lo ▸ stored)⟩

theorem zipcacheStep_btLo_reachable {host : Host} {cache cache' : Zipcache}
    {request : ZipcacheRequest} {reply : ZipcacheReply} (settled : cache.Settled)
    (reachable : cache.btLo.Reachable)
    (stepped : zipcacheStep host cache request = some (reply, cache')) :
    cache'.btLo.Reachable := by
  cases request with
  | put key value bytes =>
      obtain ⟨⟨result, after⟩, put, done⟩ := Option.map_eq_some'.mp stepped
      obtain ⟨rfl, rfl⟩ := Prod.mk.inj done
      obtain ⟨-, -, -, -, -, lo⟩ := zipcachePut_spec settled put
      rcases lo with same | ⟨status, deleted⟩ | ⟨-, -, status, loPut⟩
      · exact same ▸ reachable
      · exact reachable.delete _ deleted
      · exact reachable.put _ _ loPut
  | delete key =>
      obtain ⟨⟨result, after⟩, deleted, done⟩ := Option.map_eq_some'.mp stepped
      obtain ⟨rfl, rfl⟩ := Prod.mk.inj done
      obtain ⟨⟨loResult, loDelete⟩, -⟩ := zipcacheDelete_spec deleted
      exact reachable.delete _ loDelete
  | get key =>
      obtain ⟨⟨result, output, after⟩, got, done⟩ := Option.map_eq_some'.mp stepped
      obtain ⟨rfl, rfl⟩ := Prod.mk.inj done
      obtain ⟨-, lo, -⟩ := zipcacheGet_spec settled got
      exact lo ▸ reachable

/-- The DRAM tree after a history of calls with their replies. -/
def dramAfter (tree : BaseTree) (history : List (ZipcacheRequest × ZipcacheReply)) : BaseTree :=
  history.foldl (fun tree (request, reply) => applyDramWrite tree (dramWrite request reply)) tree

/-- The bytes a history of calls charges to `memory_used`. -/
def memoryCharged (history : List (ZipcacheRequest × ZipcacheReply)) : Nat :=
  (history.map fun (request, reply) => memoryCharge request reply).sum

theorem zipcacheRun_spec (host : Host) (requests : List ZipcacheRequest) :
    ∀ {cache cache' : Zipcache} {replies : List ZipcacheReply}, cache.Settled →
      zipcacheRun host cache requests = some (replies, cache') →
      cache'.Settled ∧ cache'.btDram = dramAfter cache.btDram (requests.zip replies) ∧
        cache'.stats.memoryUsed =
          cache.stats.memoryUsed + BitVec.ofNat 64 (memoryCharged (requests.zip replies)) ∧
        ∀ k, cache'.btLo.Stores k → cache.btLo.Stores k ∨
          ∃ entry ∈ requests.zip replies, largeWrite entry.1 entry.2 = some k := by
  induction requests with
  | nil =>
      intro cache cache' replies settled ran
      simp only [zipcacheRun, Option.some.injEq, Prod.mk.injEq] at ran
      obtain ⟨rfl, rfl⟩ := ran
      exact ⟨settled, rfl, (BitVec.add_zero _).symm, fun k stored => .inl stored⟩
  | cons request rest inductionHypothesis =>
      intro cache cache' replies settled ran
      simp only [zipcacheRun, Option.bind_eq_bind, Option.bind_eq_some, Option.pure_def,
        Option.some.injEq, Prod.mk.injEq] at ran
      obtain ⟨⟨reply, middle⟩, stepped, ⟨more, after⟩, ranRest, rfl, rfl⟩ := ran
      obtain ⟨settledMiddle, dram, memory, stores⟩ := zipcacheStep_spec settled stepped
      obtain ⟨settledAfter, dramRest, memoryRest, storesRest⟩ :=
        inductionHypothesis settledMiddle ranRest
      refine ⟨settledAfter, by rw [dramRest, dram]; rfl, ?_, fun k stored => ?_⟩
      · rw [memoryRest, memory, BitVec.add_assoc, ← BitVec.ofNat_add]
        simp [memoryCharged]
      · rcases storesRest k stored with inMiddle | ⟨entry, member, written⟩
        · rcases stores k inMiddle with old | written
          · exact .inl old
          · exact .inr ⟨(request, reply), List.mem_cons_self _ _, written⟩
        · exact .inr ⟨entry, List.mem_cons_of_mem _ member, written⟩

theorem zipcacheRun_btLo_reachable (host : Host) (requests : List ZipcacheRequest) :
    ∀ {cache cache' : Zipcache} {replies : List ZipcacheReply}, cache.Settled →
      cache.btLo.Reachable → zipcacheRun host cache requests = some (replies, cache') →
      cache'.btLo.Reachable := by
  induction requests with
  | nil =>
      intro cache cache' replies _ reachable ran
      simp only [zipcacheRun, Option.some.injEq, Prod.mk.injEq] at ran
      obtain ⟨-, rfl⟩ := ran
      exact reachable
  | cons request rest inductionHypothesis =>
      intro cache cache' replies settled reachable ran
      simp only [zipcacheRun, Option.bind_eq_bind, Option.bind_eq_some, Option.pure_def,
        Option.some.injEq, Prod.mk.injEq] at ran
      obtain ⟨⟨reply, middle⟩, stepped, ⟨more, after⟩, ranRest, -, rfl⟩ := ran
      exact inductionHypothesis (zipcacheStep_spec settled stepped).1
        (zipcacheStep_btLo_reachable settled reachable stepped) ranRest

theorem zipcacheInit_spec {dramCapacityMb ssdFileSize : Nat} {ssdPath storage : List (BitVec 8)}
    {ssdExtended : Bool} {cache : Zipcache}
    (init : zipcacheInit dramCapacityMb ssdPath storage ssdFileSize ssdExtended = some cache) :
    cache.Settled ∧ cache.btDram = BaseTree.empty ∧ cache.stats.memoryUsed = 0 ∧
      bplusTreeLoInit 16 = some cache.btLo := by
  unfold zipcacheInit at init
  split_ifs at init
  simp only [bplusTreeLoInit, bplusTreeSsdInit, ssdMinOrder, ssdMaxOrder, ssdMaxEntries] at init
  simp only [show ¬(16 < bplusMinOrder ∨ 16 > bplusMaxOrder) by decide, if_false,
    show ¬((16 : Int) < 3 ∨ (64 : Int) < 16) by decide,
    show ¬((64 : Int) ≤ 0 ∨ (64 : Int) < 64) by decide, Option.some.injEq] at init
  subst init
  exact ⟨⟨rfl, rfl, rfl⟩, rfl, rfl, rfl⟩

end ZipCache.Router
