import ZipCache.Router.Model

/-!
# Second-chance eviction (`zipcache_evict_cold_pages`)

`zipcache_init` sizes the clock at `dram_capacity / 4096 + 1` pages, computed in `size_t`
and stored in a `uint32_t`, with one access bit per page and the hand on page 0.
`zipcache_evict_cold_pages` sweeps the hand over the access bits until it has counted
`target_bytes` as evicted or made `max_scan = total_pages * 2` rounds (in `uint32_t`). A page
whose bit is set loses it; any other page counts as 4096 evicted bytes, which come off
`stats.memory_used` when that many are in use. The source stubs the eviction itself, and so
does the model.

An `access_bits` index past the array is undefined behaviour in C and `none` here.
`zipcache_validate_consistency` asks for the hand to lie below `total_pages`; the loop keeps
that, and its other invariants, in `EvictionScan.Sound`.
-/

namespace ZipCache.Router

/-- The locals of `zipcache_evict_cold_pages` and the state its loop writes: the eviction
state, `stats.memory_used`, `evicted_bytes` and `pages_scanned`. -/
structure EvictionScan where
  eviction : ZipcacheEviction
  memoryUsed : BitVec 64
  evictedBytes : BitVec 64
  pagesScanned : BitVec 32
deriving DecidableEq, Repr

/-- One round of the loop, given the access bit under the hand: clear a set bit (the page's
second chance), or count the page's estimated 4096 bytes as evicted and take them off
`memory_used` when that many are in use; then advance the hand. -/
def evictionRound (scan : EvictionScan) (bit : BitVec 32) : EvictionScan :=
  let pageIdx := scan.eviction.clockHand
  let scan := if bit ≠ 0#32 then
      { scan with eviction := { scan.eviction with
          accessBits := scan.eviction.accessBits.set pageIdx.toNat 0#32 } }
    else
      { scan with evictedBytes := scan.evictedBytes + 4096#64,
                  memoryUsed := if 4096#64 ≤ scan.memoryUsed then scan.memoryUsed - 4096#64
                    else scan.memoryUsed }
  { scan with eviction := { scan.eviction with
                clockHand := (pageIdx + 1#32) % scan.eviction.totalPages },
              pagesScanned := scan.pagesScanned + 1#32 }

@[simp]
theorem evictionRound_pagesScanned (scan : EvictionScan) (bit : BitVec 32) :
    (evictionRound scan bit).pagesScanned = scan.pagesScanned + 1#32 := by
  unfold evictionRound; split <;> rfl

@[simp]
theorem evictionRound_totalPages (scan : EvictionScan) (bit : BitVec 32) :
    (evictionRound scan bit).eviction.totalPages = scan.eviction.totalPages := by
  unfold evictionRound; split <;> rfl

@[simp]
theorem evictionRound_clockHand (scan : EvictionScan) (bit : BitVec 32) :
    (evictionRound scan bit).eviction.clockHand =
      (scan.eviction.clockHand + 1#32) % scan.eviction.totalPages := by
  unfold evictionRound; split <;> rfl

@[simp]
theorem evictionRound_accessBits_length (scan : EvictionScan) (bit : BitVec 32) :
    (evictionRound scan bit).eviction.accessBits.length = scan.eviction.accessBits.length := by
  unfold evictionRound; split <;> simp

theorem evictionRound_memoryUsed_le (scan : EvictionScan) (bit : BitVec 32) :
    (evictionRound scan bit).memoryUsed.toNat ≤ scan.memoryUsed.toNat := by
  unfold evictionRound
  split
  · exact le_rfl
  · dsimp only
    split
    · rename_i enough
      rw [BitVec.le_def] at enough
      rw [BitVec.toNat_sub_of_le enough]
      omega
    · exact le_rfl

/-- The `while (evicted_bytes < target_bytes && pages_scanned < max_scan)` loop. An
`access_bits` index past the array gives `none`. -/
def evictionLoop (targetBytes : BitVec 64) (maxScan : BitVec 32) (scan : EvictionScan) :
    Option EvictionScan :=
  if scan.evictedBytes < targetBytes ∧ scan.pagesScanned < maxScan then
    match scan.eviction.accessBits[scan.eviction.clockHand.toNat]? with
    | none => none
    | some bit => evictionLoop targetBytes maxScan (evictionRound scan bit)
  else some scan
termination_by maxScan.toNat - scan.pagesScanned.toNat
decreasing_by
  rename_i guard
  have scanned := (BitVec.lt_def.mp guard.2)
  have := maxScan.isLt
  simp only [evictionRound_pagesScanned, BitVec.toNat_add, BitVec.toNat_ofNat]
  omega


/-- What every round keeps: one access bit per page, the hand on a page, the page count,
`memory_used` at most `memoryBound`, and the rounds within `maxScan`. -/
structure EvictionScan.Sound (totalPages : BitVec 32) (memoryBound : Nat) (maxScan : BitVec 32)
    (scan : EvictionScan) : Prop where
  totalPages_eq : scan.eviction.totalPages = totalPages
  length_eq : scan.eviction.accessBits.length = totalPages.toNat
  hand_lt : scan.eviction.clockHand < totalPages
  memoryUsed_le : scan.memoryUsed.toNat ≤ memoryBound
  scanned_le : scan.pagesScanned ≤ maxScan

section Sound

variable {totalPages : BitVec 32} {memoryBound : Nat} {maxScan : BitVec 32} {scan : EvictionScan}

theorem EvictionScan.Sound.getElem?_hand (sound : scan.Sound totalPages memoryBound maxScan) :
    ∃ bit, scan.eviction.accessBits[scan.eviction.clockHand.toNat]? = some bit := by
  have inside : scan.eviction.clockHand.toNat < scan.eviction.accessBits.length := by
    rw [sound.length_eq]; exact BitVec.lt_def.mp sound.hand_lt
  exact ⟨_, List.getElem?_eq_getElem inside⟩

theorem EvictionScan.Sound.round (sound : scan.Sound totalPages memoryBound maxScan)
    (more : scan.pagesScanned < maxScan) (bit : BitVec 32) :
    (evictionRound scan bit).Sound totalPages memoryBound maxScan := by
  have hand := BitVec.lt_def.mp sound.hand_lt
  have scanned := BitVec.lt_def.mp more
  have := maxScan.isLt
  refine ⟨by simp [sound.totalPages_eq], by simp [sound.length_eq], ?_,
    (evictionRound_memoryUsed_le scan bit).trans sound.memoryUsed_le, ?_⟩
  · rw [evictionRound_clockHand, sound.totalPages_eq, BitVec.lt_def, BitVec.toNat_umod]
    exact Nat.mod_lt _ (by omega)
  · rw [evictionRound_pagesScanned, BitVec.le_def, BitVec.toNat_add, BitVec.toNat_ofNat]
    omega

theorem evictionLoop_sound (targetBytes : BitVec 64)
    (sound : scan.Sound totalPages memoryBound maxScan) :
    ∃ final, evictionLoop targetBytes maxScan scan = some final ∧
      final.Sound totalPages memoryBound maxScan := by
  induction scan using evictionLoop.induct targetBytes maxScan with
  | case1 scan guard outside =>
      obtain ⟨bit, inside⟩ := sound.getElem?_hand
      rw [inside] at outside
      cases outside
  | case2 scan guard bit inside inductionHypothesis =>
      rw [evictionLoop, if_pos guard, inside]
      exact inductionHypothesis (sound.round guard.2 bit)
  | case3 scan stop =>
      rw [evictionLoop, if_neg stop]
      exact ⟨scan, rfl, sound⟩

end Sound

/-- `zipcache_evict_cold_pages`: the loop from the cache's eviction state, with `max_scan =
total_pages * 2`; always `ZIPCACHE_OK`. -/
def zipcacheEvictColdPages (cache : Zipcache) (targetBytes : BitVec 64) :
    Option (ZipcacheResult × Zipcache) :=
  (evictionLoop targetBytes (cache.eviction.totalPages * 2#32)
      ⟨cache.eviction, cache.stats.memoryUsed, 0#64, 0#32⟩).map fun scan =>
    (.ok, { cache with eviction := scan.eviction,
                       stats := { cache.stats with memoryUsed := scan.memoryUsed } })

theorem zipcacheInit_eviction {dramCapacityMb : Nat} {ssdPath storage : List (BitVec 8)}
    {ssdFileSize : Nat} {ssdExtended : Bool} {cache : Zipcache}
    (init : zipcacheInit dramCapacityMb ssdPath storage ssdFileSize ssdExtended = some cache) :
    let totalPages := BitVec.ofNat 32 (dramCapacityMb * 1024 * 1024 % 2 ^ 64 / 4096 + 1)
    cache.eviction = ⟨List.replicate totalPages.toNat 0#32, 0#32, totalPages⟩ := by
  unfold zipcacheInit at init
  split at init
  · cases init
  · split at init
    · cases init; rfl
    · cases init

/-- The page count `zipcache_init` computes is never 0 in `uint32_t`: `dram_capacity` is a
multiple of 2^20, so `dram_capacity / 4096` is a multiple of 256 and one more is not a
multiple of 2^32. From any state with one access bit per page and the hand on a page,
`zipcache_evict_cold_pages` runs at most `max_scan` rounds, reads and clears access bits
only within the array, leaves the hand on a page, and never takes `memory_used` below 0
(it only ever lowers it, with no wrap). -/
theorem zipcacheEvictColdPages_stays_in_bounds :
    (∀ (dramCapacityMb : Nat) (ssdPath storage : List (BitVec 8)) (ssdFileSize : Nat)
        (ssdExtended : Bool) (cache : Zipcache),
      zipcacheInit dramCapacityMb ssdPath storage ssdFileSize ssdExtended = some cache →
        cache.eviction.totalPages ≠ 0#32 ∧
        cache.eviction.accessBits.length = cache.eviction.totalPages.toNat ∧
        cache.eviction.clockHand < cache.eviction.totalPages) ∧
    ∀ (eviction : ZipcacheEviction) (memoryUsed targetBytes : BitVec 64),
      eviction.accessBits.length = eviction.totalPages.toNat →
      eviction.clockHand < eviction.totalPages →
      ∃ scan, evictionLoop targetBytes (eviction.totalPages * 2#32)
          ⟨eviction, memoryUsed, 0#64, 0#32⟩ = some scan ∧
        scan.pagesScanned ≤ eviction.totalPages * 2#32 ∧
        scan.eviction.clockHand < scan.eviction.totalPages ∧
        scan.eviction.totalPages = eviction.totalPages ∧
        scan.memoryUsed.toNat ≤ memoryUsed.toNat := by
  refine ⟨fun dramCapacityMb _ _ _ _ cache init => ?_,
    fun eviction memoryUsed targetBytes sized onPage => ?_⟩
  · have nonzero : (dramCapacityMb * 1024 * 1024 % 2 ^ 64 / 4096 + 1) % 2 ^ 32 ≠ 0 := by omega
    rw [zipcacheInit_eviction init]
    refine ⟨fun zero => nonzero ?_, by simp, ?_⟩
    · simpa using congrArg BitVec.toNat zero
    · rw [BitVec.lt_def]
      simpa using Nat.pos_of_ne_zero nonzero
  · have start : EvictionScan.Sound eviction.totalPages memoryUsed.toNat
        (eviction.totalPages * 2#32) ⟨eviction, memoryUsed, 0#64, 0#32⟩ :=
      ⟨rfl, sized, onPage, le_rfl, by rw [BitVec.le_def]; simp⟩
    obtain ⟨scan, ran, sound⟩ := evictionLoop_sound targetBytes start
    exact ⟨scan, ran, sound.scanned_le, sound.totalPages_eq ▸ sound.hand_lt, sound.totalPages_eq,
      sound.memoryUsed_le⟩

theorem zipcacheEvictColdPages_stays_in_bounds_on_three_pages :
    [0#32, 1#32, 0#32].length = (3#32).toNat ∧ 2#32 < 3#32 ∧
      ∃ scan, evictionLoop 10000#64 (3#32 * 2#32)
          ⟨⟨[0#32, 1#32, 0#32], 2#32, 3#32⟩, 8192#64, 0#64, 0#32⟩ = some scan ∧
        scan.memoryUsed.toNat ≤ (8192#64).toNat :=
  ⟨by decide, by decide,
    (zipcacheEvictColdPages_stays_in_bounds.2 ⟨[0#32, 1#32, 0#32], 2#32, 3#32⟩ 8192#64 10000#64
      (by decide) (by decide)).imp fun _ bounded => ⟨bounded.1, bounded.2.2.2.2⟩⟩

end ZipCache.Router
