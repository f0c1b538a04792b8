import ZipCache.LoTier.Descent
import ZipCache.Router.LargeObject

/-!
# What `zipcache_get` answers

The DRAM tree decides every read it holds a positive value for. A tiny or medium put stores
the caller's pointer there, so the read hands that pointer back with `*size = 0`: neither
the size nor a copy of the bytes. A large put stores the tombstone marker, and the read
returns `ZIPCACHE_TOMBSTONE` on it instead of going on to the large-object tier. Only with
nothing positive in DRAM does the read ask the large-object tree, and a failed read of the
storage file then falls through to the SSD tier instead of failing the read.
-/

namespace ZipCache.Router

open DramTier LoTier

/-- What `bplus_tree_get` reports for a hash after one more call: the value the call put,
`-1` if it deleted the hash, or what it reported before. -/
def dramEffect (h before : Int) (entry : ZipcacheRequest × ZipcacheReply) : Int :=
  match dramWrite entry.1 entry.2 with
  | some (key, data) => if key = h then (if data = 0 then -1 else data) else before
  | none => before

/-- What the latest DRAM write of a history leaves for a hash: the pointer of a tiny or
medium put, the marker of a large one, `-1` after a delete or when nothing wrote it. -/
def latestDram (history : List (ZipcacheRequest × ZipcacheReply)) (h : Int) : Int :=
  history.foldl (dramEffect h) (-1)

theorem get_applyDramWrite (tree : BaseTree) (h : Int) (entry : ZipcacheRequest × ZipcacheReply) :
    (applyDramWrite tree (dramWrite entry.1 entry.2)).get h = dramEffect h (tree.get h) entry := by
  unfold dramEffect
  cases dramWrite entry.1 entry.2 with
  | none => rfl
  | some write =>
      obtain ⟨key, data⟩ := write
      by_cases same : key = h
      · subst same
        simp [applyDramWrite]
      · simp [applyDramWrite, same, BaseTree.get_put_of_ne _ _ (Ne.symm same)]

theorem get_dramAfter (history : List (ZipcacheRequest × ZipcacheReply)) :
    ∀ (tree : BaseTree) (h : Int),
      (dramAfter tree history).get h = history.foldl (dramEffect h) (tree.get h) := by
  induction history with
  | nil => intro tree h; rfl
  | cons entry rest inductionHypothesis =>
      intro tree h
      simp only [dramAfter, List.foldl_cons] at inductionHypothesis ⊢
      rw [inductionHypothesis, get_applyDramWrite]

/-- How `zipcache_get` answers for a key after a history, by the latest DRAM write to its
hash: the pointer with size `0`, the tombstone, or, for a hash no large put ever reached,
`ZIPCACHE_NOT_FOUND`. -/
structure AnswersLatest (history : List (ZipcacheRequest × ZipcacheReply)) (cache : Zipcache)
    (key : List (BitVec 8)) : Prop where
  live : 0 < latestDram history (keyHash key) →
    latestDram history (keyHash key) ≠ zipcacheTombstoneMarker →
    ∃ cache', zipcacheGet cache key =
      some (.ok, some (.address (latestDram history (keyHash key)), 0), cache')
  tombstone : latestDram history (keyHash key) = zipcacheTombstoneMarker →
    ∃ cache', zipcacheGet cache key = some (.tombstone, none, cache')
  absent : ¬ 0 < latestDram history (keyHash key) →
    (∀ entry ∈ history, largeWrite entry.1 entry.2 ≠ some (keyHash key)) →
    ∃ cache', zipcacheGet cache key = some (.notFound, none, cache')

/-- On every run from `zipcache_init`, `zipcache_get` answers by the latest DRAM write to the
key's hash. -/
theorem zipcacheGet_answers_latest_write {host : Host} {dramCapacityMb ssdFileSize : Nat}
    {ssdPath storage : List (BitVec 8)} {ssdExtended : Bool} {requests : List ZipcacheRequest}
    {cache cache' : Zipcache} {replies : List ZipcacheReply} {key : List (BitVec 8)}
    (init : zipcacheInit dramCapacityMb ssdPath storage ssdFileSize ssdExtended = some cache)
    (ran : zipcacheRun host cache requests = some (replies, cache'))
    (shortKey : key.length ≤ zipcacheMaxKeySize) :
    AnswersLatest (requests.zip replies) cache' key := by
  obtain ⟨settled, empty, -, loInit⟩ := zipcacheInit_spec init
  obtain ⟨settled', dram, -, stores⟩ := zipcacheRun_spec host requests settled ran
  have reachable := zipcacheRun_btLo_reachable host requests settled (.init 16 loInit) ran
  have reported :
      cache'.btDram.get (keyHash key) = latestDram (requests.zip replies) (keyHash key) := by
    rw [dram, get_dramAfter, empty]
    rfl
  have asked : zipcacheGet cache' key = zipcacheCoordinatedRead cache' key := by
    simp [zipcacheGet, Nat.not_lt.mpr shortKey]
  refine ⟨fun positive live => ?_, fun marked => ?_, fun miss neverLarge => ?_⟩
  · rw [asked, zipcacheCoordinatedRead_of_dram_hit (reported ▸ positive) (reported ▸ live),
      reported]
    exact ⟨_, rfl⟩
  · rw [asked, zipcacheCoordinatedRead_of_tombstone (reported ▸ marked)]
    exact ⟨_, rfl⟩
  · obtain ⟨optr, found⟩ :=
      Option.isSome_iff_exists.mp (reachable.bplusTreeLoGet_isSome (keyHash key))
    have invalid : objectPointerIsValid optr = false := by
      by_contra valid
      rcases stores _ (stores_of_bplusTreeLoGet found (by simpa using valid)) with atInit | written
      · exact not_stores_bplusTreeLoInit loInit _ atInit
      · obtain ⟨entry, member, large⟩ := written
        exact neverLarge entry member large
    rw [asked, zipcacheCoordinatedRead_of_dram_miss settled' (reported ▸ miss), found,
      Option.map_some', invalid]
    exact ⟨_, rfl⟩

theorem zipcacheGet_answers_latest_write_after_large_put :
    ∃ cache cache' replies, zipcacheInit 1 [] [] 0 true = some cache ∧
      zipcacheRun Host.linux cache [.put [107] 4096 (List.replicate 3000 1)] =
        some (replies, cache') ∧
      AnswersLatest ([.put [107] 4096 (List.replicate 3000 1)].zip replies) cache' [107] ∧
      ∃ cache'', zipcacheGet cache' [107] = some (.tombstone, none, cache'') := by
  obtain ⟨cache, cache', init, ran⟩ := zipcacheRun_large_after_init
  have answers : AnswersLatest _ cache' [107] :=
    zipcacheGet_answers_latest_write init ran (by decide)
  refine ⟨cache, cache', _, init, ran, answers, answers.tombstone ?_⟩
  simp only [latestDram, List.zip_cons_cons, List.zip_nil_right, List.foldl_cons, List.foldl_nil,
    dramEffect, dramWrite, List.length_replicate, zipcacheMediumDefault, ↓reduceIte]
  simp [zipcacheTombstoneMarker]

/-- After a large put that succeeded, a read of the key returns `ZIPCACHE_TOMBSTONE`. With
nothing positive in DRAM and a descriptor whose bytes fail to read back, the read goes on
to the SSD tier, which holds nothing, and answers `ZIPCACHE_NOT_FOUND`. -/
theorem zipcacheGet_stops_at_tombstone_and_falls_past_io_error :
    (∀ {host : Host} {cache cache' : Zipcache} {key : List (BitVec 8)} {value : BitVec 64}
        {bytes : List (BitVec 8)}, cache.Settled → zipcacheMediumDefault < bytes.length →
      key.length ≤ zipcacheMaxKeySize →
        zipcachePut host cache key value bytes = some (.ok, cache') →
      (zipcacheGet cache' key).map (·.1) = some .tombstone) ∧
    (∀ {cache : Zipcache} {key : List (BitVec 8)} {optr : ObjectPointer}, cache.Settled →
      key.length ≤ zipcacheMaxKeySize → ¬ 0 < cache.btDram.get (keyHash key) →
      bplusTreeLoGet cache.btLo (keyHash key) = some optr → objectPointerIsValid optr = true →
      zipcacheReadLargeObject cache ⟨optr.lba, optr.size, optr.checksum⟩ = .error .ioError →
      (zipcacheGet cache key).map (·.1) = some .notFound) := by
  constructor
  · intro host cache cache' key value bytes settled large shortKey put
    obtain ⟨-, -, -, dram, -⟩ := zipcachePut_spec settled put
    have marked : cache'.btDram.get (keyHash key) = zipcacheTombstoneMarker := by
      rw [dram]
      simp [dramWrite, applyDramWrite, Nat.not_le.mpr large, zipcacheTombstoneMarker]
    simp [zipcacheGet, Nat.not_lt.mpr shortKey, zipcacheCoordinatedRead_of_tombstone marked]
  · intro cache key optr settled shortKey miss found valid failed
    simp [zipcacheGet, Nat.not_lt.mpr shortKey, zipcacheCoordinatedRead_of_dram_miss settled miss,
      found, valid, failed]

theorem zipcacheGet_stops_at_tombstone_and_falls_past_io_error_at_seven :
    ∃ cache cache', zipcacheInit 1 [] [] 0 true = some cache ∧
      zipcachePut Host.linux cache [107] 4096 (List.replicate 3000 1) = some (.ok, cache') ∧
      (zipcacheGet cache' [107]).map (·.1) = some .tombstone ∧
      (zipcacheGet { cache' with btDram := BaseTree.empty, storage := [] } [107]).map (·.1) =
        some .notFound := by
  obtain ⟨stopsAtTombstone, fallsPastError⟩ :=
    zipcacheGet_stops_at_tombstone_and_falls_past_io_error
  obtain ⟨cache, cache', init, put, found, valid⟩ := zipcachePut_large_after_init
  obtain ⟨settled, -⟩ := zipcacheInit_spec init
  have long : (List.replicate 3000 (1 : BitVec 8)).length = 3000 := List.length_replicate _ _
  obtain ⟨ssd, tiny, medium, -⟩ := zipcachePut_spec settled put
  refine ⟨cache, cache', init, put,
    stopsAtTombstone settled (by rw [long]; decide) (by decide) put,
    fallsPastError ⟨tiny ▸ settled.tiny, medium ▸ settled.medium, ssd ▸ settled.ssdIdle⟩
      (by decide) (by simp) found valid ?_⟩
  unfold zipcacheReadLargeObject
  dsimp only
  rw [if_pos]
  simp only [pread, List.drop_nil, List.take_nil, List.length_nil]
  show 0 ≠ (BitVec.ofNat 32 (List.replicate 3000 (1 : BitVec 8)).length).toNat
  rw [long]
  decide

end ZipCache.Router
