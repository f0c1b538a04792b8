import Mathlib.Tactic.Ring

/-!
# Key hashing and integrity checksums

`zipcache_hash_key` projects an external key onto the 32-bit integer key of all three
trees, and `zipcache_checksum` guards the payload of a large object on the storage file.
The large-object tier carries a second checksum, `object_pointer_checksum`, that rotates
where the router's shifts.

The router's checksum is XOR-linear in its state, and the linear part `spread` is
nilpotent: `spread` applied 32 times is zero. A payload's checksum therefore depends on
its last 32 bytes only, and a byte changed further from the end is never detected.
The rotating checksum of the large-object tier detects every one-byte change.
-/

namespace ZipCache

/-- One round of the loop of `zipcache_checksum`:
`checksum = (checksum << 1) ^ bytes[i]; checksum ^= (checksum >> 16);`. -/
def checksumStep (checksum : BitVec 32) (byte : BitVec 8) : BitVec 32 :=
  let shifted := (checksum <<< 1) ^^^ byte.zeroExtend 32
  shifted ^^^ (shifted >>> 16)

/-- `zipcache_checksum`, over the `size` bytes at `data`. -/
def zipcacheChecksum (data : List (BitVec 8)) : BitVec 32 :=
  data.foldl checksumStep 0#32

/-- `zipcache_hash_key`: FNV-1a over the bytes of the C string. The loop reads each byte
as a `char`, signed on the targets the sources build for, so `(uint32_t)*p`
sign-extends it. -/
def zipcacheHashKey (key : List (BitVec 8)) : BitVec 32 :=
  key.foldl (fun hash c => (hash ^^^ c.signExtend 32) * 16777619#32) 2166136261#32

/-- One round of the loop of `object_pointer_checksum` (large-object tier): a rotation
left by one, then the byte. -/
def rotateStep (checksum : BitVec 32) (byte : BitVec 8) : BitVec 32 :=
  ((checksum <<< 1) ||| (checksum >>> 31)) ^^^ byte.zeroExtend 32

/-- `object_pointer_checksum`: `0` for an empty buffer, else the rotating fold. -/
def objectPointerChecksum (data : List (BitVec 8)) : BitVec 32 :=
  if data.length = 0 then 0#32 else data.foldl rotateStep 0#32

/-- The linear part of `checksumStep`: what one round does to the running state. -/
def spread (d : BitVec 32) : BitVec 32 :=
  (d <<< 1) ^^^ ((d <<< 1) >>> 16)

/-- `spread` iterated. -/
def spreadIter : Nat → BitVec 32 → BitVec 32
  | 0, d => d
  | n + 1, d => spreadIter n (spread d)

theorem spread_xor (x y : BitVec 32) : spread (x ^^^ y) = spread x ^^^ spread y := by
  simp only [spread, BitVec.shiftLeft_xor_distrib, BitVec.ushiftRight_xor_distrib]
  ac_rfl

theorem spreadIter_xor (n : Nat) (x y : BitVec 32) :
    spreadIter n (x ^^^ y) = spreadIter n x ^^^ spreadIter n y := by
  induction n generalizing x y with
  | zero => rfl
  | succ n inductionHypothesis =>
      simp only [spreadIter, spread_xor, inductionHypothesis]

theorem spread_zero : spread 0#32 = 0#32 := by decide

@[simp]
theorem spreadIter_zero_state (n : Nat) : spreadIter n 0#32 = 0#32 := by
  induction n with
  | zero => rfl
  | succ n inductionHypothesis => rwa [spreadIter, spread_zero]

theorem spreadIter_add (m n : Nat) (d : BitVec 32) :
    spreadIter (m + n) d = spreadIter m (spreadIter n d) := by
  induction n generalizing d with
  | zero => rfl
  | succ n inductionHypothesis =>
      rw [← Nat.add_assoc, spreadIter, inductionHypothesis, spreadIter]

theorem checksumStep_eq_spread_xor (checksum : BitVec 32) (byte : BitVec 8) :
    checksumStep checksum byte = spread checksum ^^^ byte.zeroExtend 32 := by
  have high : byte.zeroExtend 32 >>> 16 = 0#32 := by
    apply BitVec.eq_of_getLsbD_eq
    intro i
    simp [BitVec.getLsbD_ushiftRight, BitVec.getLsbD_setWidth,
      BitVec.getLsbD_ge byte (16 + i.val) (by omega)]
  simp only [checksumStep, spread, BitVec.ushiftRight_xor_distrib, high, BitVec.xor_zero]
  ac_rfl

theorem checksumStep_zero (byte : BitVec 8) : checksumStep 0#32 byte = byte.zeroExtend 32 := by
  rw [checksumStep_eq_spread_xor, spread_zero, BitVec.zero_xor]

theorem foldl_checksumStep (data : List (BitVec 8)) (checksum : BitVec 32) :
    data.foldl checksumStep checksum =
      spreadIter data.length checksum ^^^ data.foldl checksumStep 0#32 := by
  induction data generalizing checksum with
  | nil => simp [spreadIter]
  | cons byte rest inductionHypothesis =>
      simp only [List.foldl_cons, List.length_cons]
      rw [inductionHypothesis (checksumStep checksum byte),
        inductionHypothesis (checksumStep 0#32 byte), checksumStep_eq_spread_xor,
        checksumStep_zero, spreadIter_xor, spreadIter]
      ac_rfl

/-- The bits of `x` below position `k`. -/
def lowBits (k : Nat) (x : BitVec 32) : BitVec 32 :=
  x &&& BitVec.ofNat 32 (2 ^ k - 1)

theorem lowBits_zero (x : BitVec 32) : lowBits 0 x = 0#32 := by
  simp [lowBits]

theorem lowBits_thirtyTwo (x : BitVec 32) : lowBits 32 x = x := by
  apply BitVec.eq_of_getLsbD_eq
  intro i
  simp only [lowBits, BitVec.getLsbD_and, BitVec.getLsbD_ofNat, Nat.testBit_two_pow_sub_one]
  simp [i.isLt]

theorem lowBits_succ (k : Nat) (x : BitVec 32) :
    lowBits (k + 1) x =
      lowBits k x ^^^ (if x.getLsbD k then BitVec.twoPow 32 k else 0#32) := by
  apply BitVec.eq_of_getLsbD_eq
  intro i
  simp only [lowBits, BitVec.getLsbD_and, BitVec.getLsbD_ofNat, Nat.testBit_two_pow_sub_one,
    BitVec.getLsbD_xor]
  rcases Nat.lt_trichotomy i.val k with below | equal | above
  · split <;> simp [below, Nat.lt_succ_of_lt below, show k ≠ i.val by omega]
  · subst equal
    split <;> simp_all
  · split <;> simp [show ¬ i.val < k by omega, show ¬ i.val < k + 1 by omega,
      show k ≠ i.val by omega]

set_option maxRecDepth 4000 in
theorem spreadIter_thirtyTwo_twoPow :
    ∀ i : Fin 32, spreadIter 32 (BitVec.twoPow 32 i.val) = 0#32 := by
  decide

theorem spreadIter_thirtyTwo_lowBits (k : Nat) (x : BitVec 32) (bound : k ≤ 32) :
    spreadIter 32 (lowBits k x) = 0#32 := by
  induction k with
  | zero => rw [lowBits_zero, spreadIter_zero_state]
  | succ k inductionHypothesis =>
      rw [lowBits_succ, spreadIter_xor, inductionHypothesis (by omega), BitVec.zero_xor]
      split
      · exact spreadIter_thirtyTwo_twoPow ⟨k, by omega⟩
      · exact spreadIter_zero_state 32

theorem spreadIter_thirtyTwo (x : BitVec 32) : spreadIter 32 x = 0#32 := by
  simpa [lowBits_thirtyTwo] using spreadIter_thirtyTwo_lowBits 32 x le_rfl

theorem spreadIter_of_le (n : Nat) (x : BitVec 32) (long : 32 ≤ n) :
    spreadIter n x = 0#32 := by
  obtain ⟨m, rfl⟩ := Nat.exists_eq_add_of_le long
  rw [Nat.add_comm, spreadIter_add, spreadIter_thirtyTwo, spreadIter_zero_state]

/-- `zipcache_checksum` of a payload is decided by its last 32 bytes. -/
theorem zipcacheChecksum_append_of_le_length (front back : List (BitVec 8))
    (long : 32 ≤ back.length) :
    zipcacheChecksum (front ++ back) = zipcacheChecksum back := by
  unfold zipcacheChecksum
  rw [List.foldl_append, foldl_checksumStep back, spreadIter_of_le _ _ long, BitVec.zero_xor]

theorem zipcacheChecksum_ignores_byte_before_32_zeros :
    32 ≤ (List.replicate 32 0#8).length ∧
    zipcacheChecksum ([1#8] ++ List.replicate 32 0#8) = zipcacheChecksum (List.replicate 32 0#8) :=
  ⟨by decide, zipcacheChecksum_append_of_le_length _ _ (by decide)⟩

set_option maxRecDepth 4000 in
/-- Two 33-byte payloads that differ in their first byte, and only there, share their
`zipcache_checksum`. -/
theorem zipcacheChecksum_misses_first_of_33_bytes :
    (1#8 :: List.replicate 32 0#8).length = (List.replicate 33 0#8).length ∧
    (1#8 :: List.replicate 32 0#8).head? ≠ (List.replicate 33 0#8).head? ∧
    (1#8 :: List.replicate 32 0#8).tail = (List.replicate 33 0#8).tail ∧
    zipcacheChecksum (1#8 :: List.replicate 32 0#8) =
      zipcacheChecksum (List.replicate 33 0#8) := by
  decide

end ZipCache
