import ZipCache.Router.Spec

/-!
# `memory_used`

`zipcache_route_put` adds the size of every tiny or medium put that succeeds to
`stats.memory_used`, and `zipcache_promote_object` adds the size it is given, always `0`.
Nothing in a request ever subtracts: an overwritten, deleted or replaced value stays
counted. Only the eviction thread lowers the counter.
-/

namespace ZipCache.Router

open DramTier

/-- On every run from `zipcache_init`, `memory_used` is the sum, modulo `2^64`, of the sizes
of the tiny and medium puts that succeeded. -/
theorem zipcacheRun_memoryUsed_eq_charged {host : Host} {dramCapacityMb ssdFileSize : Nat}
    {ssdPath storage : List (BitVec 8)} {ssdExtended : Bool} {requests : List ZipcacheRequest}
    {cache cache' : Zipcache} {replies : List ZipcacheReply}
    (init : zipcacheInit dramCapacityMb ssdPath storage ssdFileSize ssdExtended = some cache)
    (ran : zipcacheRun host cache requests = some (replies, cache')) :
    cache'.stats.memoryUsed = BitVec.ofNat 64 (memoryCharged (requests.zip replies)) := by
  obtain ⟨settled, -, unused, -⟩ := zipcacheInit_spec init
  rw [(zipcacheRun_spec host requests settled ran).2.2.1, unused]
  exact BitVec.zero_add _

theorem zipcacheRun_memoryUsed_eq_charged_after_overwrite :
    ∃ cache cache' replies, zipcacheInit 1 [] [] 0 true = some cache ∧
      zipcacheRun Host.linux cache [.put [107] 4096 (List.replicate 10 1),
        .put [107] 4096 (List.replicate 20 1)] = some (replies, cache') ∧
      cache'.stats.memoryUsed = BitVec.ofNat 64 (memoryCharged ([.put [107] 4096
        (List.replicate 10 1), .put [107] 4096 (List.replicate 20 1)].zip replies)) ∧
      memoryCharged ([.put [107] 4096 (List.replicate 10 1),
        .put [107] 4096 (List.replicate 20 1)].zip replies) = 30 ∧
      cache'.btDram.entries = [(keyHash [107], 4096)] :=
  ⟨_, _, _, rfl, rfl, zipcacheRun_memoryUsed_eq_charged
    (rfl : zipcacheInit 1 [] [] 0 true = some _) (rfl : zipcacheRun Host.linux _ _ = _), rfl, rfl⟩

end ZipCache.Router
