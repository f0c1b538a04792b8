import Mathlib.Data.List.Basic

/-!
# Sorted arrays: `key_binary_search` and slot insertion

The large-object tree and the SSD tree carry the same copy of `key_binary_search`. The
loop keeps `low < high`, reads `arr[mid]` for `low < mid < high`, and returns `high`
when `arr[high] == target` and `-high - 1` otherwise. Its variant `high - low` starts at
`len + 1` and drops on every round, so `len + 1` rounds of fuel run it to completion.
-/

namespace ZipCache

/-- Shift `xs[i ..]` up one slot and store `x` at `i`: the `memmove`-then-store, or the
backwards copy loop, with which both trees open a slot in a sorted array. -/
def insertAt {α : Type} (xs : List α) (i : Nat) (x : α) : List α :=
  xs.take i ++ x :: xs.drop i

@[simp]
theorem insertAt_append_length {α : Type} (front back : List α) (x : α) :
    insertAt (front ++ back) front.length x = front ++ x :: back := by
  simp [insertAt]

/-- The `while (low + 1 < high)` loop of `key_binary_search`, with fuel. -/
def keyBinarySearchLoop (arr : List Int) (target : Int) : Nat → Int → Int → Int
  | 0, _, high => high
  | fuel + 1, low, high =>
      if low + 1 < high then
        let mid := low + (high - low) / 2
        if target > arr.getD mid.toNat 0 then keyBinarySearchLoop arr target fuel mid high
        else keyBinarySearchLoop arr target fuel low mid
      else high

/-- `key_binary_search(arr, len, target)`. -/
def keyBinarySearch (arr : List Int) (len : Int) (target : Int) : Int :=
  let high := keyBinarySearchLoop arr target (len + 1).toNat (-1) len
  if high ≥ len ∨ arr.getD high.toNat 0 ≠ target then -high - 1 else high

theorem lt_keyBinarySearchLoop (arr : List Int) (target : Int) :
    ∀ (fuel : Nat) (low high : Int), low < high →
      low < keyBinarySearchLoop arr target fuel low high := by
  intro fuel
  induction fuel with
  | zero => intro low high ordered; exact ordered
  | succ fuel inductionHypothesis =>
      intro low high ordered
      simp only [keyBinarySearchLoop]
      split
      · have midAbove : low < low + (high - low) / 2 := by omega
        have midBelow : low + (high - low) / 2 < high := by omega
        split
        · exact Int.lt_trans midAbove (inductionHypothesis (low + (high - low) / 2) high midBelow)
        · exact inductionHypothesis low (low + (high - low) / 2) midAbove
      · exact ordered

theorem keyBinarySearch_found {arr : List Int} {len target : Int} (sized : 0 ≤ len)
    (found : 0 ≤ keyBinarySearch arr len target) :
    keyBinarySearch arr len target < len ∧
      arr.getD (keyBinarySearch arr len target).toNat 0 = target := by
  have above := lt_keyBinarySearchLoop arr target (len + 1).toNat (-1) len (by omega)
  unfold keyBinarySearch at found ⊢
  dsimp only at found ⊢
  generalize keyBinarySearchLoop arr target (len + 1).toNat (-1) len = high at above found ⊢
  by_cases miss : high ≥ len ∨ arr.getD high.toNat 0 ≠ target
  · rw [if_pos miss] at found
    omega
  · rw [if_neg miss]
    exact ⟨by omega, not_not.mp (not_or.mp miss).2⟩

theorem keyBinarySearchLoop_le (arr : List Int) (target : Int) :
    ∀ (fuel : Nat) (low high : Int), keyBinarySearchLoop arr target fuel low high ≤ high := by
  intro fuel
  induction fuel with
  | zero => intro low high; exact Int.le_refl high
  | succ fuel inductionHypothesis =>
      intro low high
      simp only [keyBinarySearchLoop]
      split
      · split
        · exact inductionHypothesis _ high
        · exact Int.le_trans (inductionHypothesis low _) (by omega)
      · exact Int.le_refl high

theorem keyBinarySearch_miss_le {arr : List Int} {len target : Int} (sized : 0 ≤ len)
    (missed : keyBinarySearch arr len target < 0) : -keyBinarySearch arr len target - 1 ≤ len := by
  have above := lt_keyBinarySearchLoop arr target (len + 1).toNat (-1) len (by omega)
  have below := keyBinarySearchLoop_le arr target (len + 1).toNat (-1) len
  unfold keyBinarySearch at missed ⊢
  dsimp only at missed ⊢
  split_ifs at missed ⊢ <;> omega

theorem keyBinarySearchLoop_eq_of_parted {arr : List Int} {len target : Int} (c : Int)
    (below : ∀ i : Int, 0 ≤ i → i < c → arr.getD i.toNat 0 < target)
    (notBelow : ∀ i : Int, c ≤ i → i < len → target ≤ arr.getD i.toNat 0) :
    ∀ (fuel : Nat) (low high : Int), -1 ≤ low → low < c → c ≤ high → high ≤ len →
      high - low ≤ fuel + 1 → keyBinarySearchLoop arr target fuel low high = c := by
  intro fuel
  induction fuel with
  | zero =>
      intro low high _ lowBelow highAbove _ gap
      simp only [keyBinarySearchLoop]
      omega
  | succ fuel inductionHypothesis =>
      intro low high lowFloor lowBelow highAbove highCeiling gap
      simp only [keyBinarySearchLoop]
      split
      · split
        · apply inductionHypothesis (low + (high - low) / 2) high (by omega) _ highAbove
            highCeiling (by omega)
          by_contra notLess
          have := notBelow (low + (high - low) / 2) (by omega) (by omega)
          omega
        · apply inductionHypothesis low (low + (high - low) / 2) lowFloor lowBelow _ (by omega)
            (by omega)
          by_contra less
          have := below (low + (high - low) / 2) (by omega) (by omega)
          omega
      · omega

theorem keyBinarySearch_eq_of_parted {arr : List Int} {len target : Int} (c : Int)
    (nonneg : 0 ≤ c) (bounded : c ≤ len)
    (below : ∀ i : Int, 0 ≤ i → i < c → arr.getD i.toNat 0 < target)
    (notBelow : ∀ i : Int, c ≤ i → i < len → target ≤ arr.getD i.toNat 0) :
    keyBinarySearch arr len target =
      if c < len ∧ arr.getD c.toNat 0 = target then c else -c - 1 := by
  unfold keyBinarySearch
  rw [keyBinarySearchLoop_eq_of_parted c below notBelow _ _ _ (Int.le_refl _) (by omega) bounded
    (Int.le_refl _) (by omega)]
  by_cases hit : c < len ∧ arr.getD c.toNat 0 = target
  · rw [if_neg (by omega), if_pos hit]
  · rw [if_pos (by omega), if_neg hit]

theorem parted_at_cut {under over rest : List Int} {target : Int}
    (allBelow : ∀ k ∈ under, k < target) (notBelow : ∀ k ∈ over, target ≤ k) :
    (∀ i : Int, 0 ≤ i → i < under.length → (under ++ over ++ rest).getD i.toNat 0 < target) ∧
      ∀ i : Int, under.length ≤ i → i < under.length + over.length →
        target ≤ (under ++ over ++ rest).getD i.toNat 0 := by
  constructor
  · intro i nonneg inside
    have inUnder : i.toNat < under.length := by omega
    rw [List.getD_eq_getElem?_getD, List.append_assoc, List.getElem?_append_left inUnder,
      List.getElem?_eq_getElem inUnder, Option.getD_some]
    exact allBelow _ (List.getElem_mem _)
  · intro i past inside
    have inOver : i.toNat - under.length < over.length := by omega
    rw [List.getD_eq_getElem?_getD, List.append_assoc, List.getElem?_append_right (by omega),
      List.getElem?_append_left inOver, List.getElem?_eq_getElem inOver, Option.getD_some]
    exact notBelow _ (List.getElem_mem _)

@[simp]
theorem getD_append_length {α : Type} (front back : List α) (x fallback : α) :
    (front ++ x :: back).getD front.length fallback = x := by
  rw [List.getD_eq_getElem?_getD, List.getElem?_append_right le_rfl, Nat.sub_self,
    List.getElem?_cons_zero, Option.getD_some]

theorem keyBinarySearchLoop_at_cut {under over rest : List Int} {target : Int}
    (allBelow : ∀ k ∈ under, k < target) (notBelow : ∀ k ∈ over, target ≤ k)
    {fuel : Nat} (enough : under.length + over.length + 1 ≤ fuel) :
    keyBinarySearchLoop (under ++ over ++ rest) target fuel (-1) (under.length + over.length) =
      under.length := by
  obtain ⟨below, above⟩ := @parted_at_cut under over rest target allBelow notBelow
  exact keyBinarySearchLoop_eq_of_parted _ below above _ _ _ (Int.le_refl _) (by omega)
    (by omega) (Int.le_refl _) (by omega)

theorem keyBinarySearch_at_cut {under over rest : List Int} {target : Int}
    (allBelow : ∀ k ∈ under, k < target) (notBelow : ∀ k ∈ over, target ≤ k) :
    keyBinarySearch (under ++ over ++ rest) (under.length + over.length) target =
      if over.head? = some target then (under.length : Int) else -under.length - 1 := by
  obtain ⟨below, above⟩ := @parted_at_cut under over rest target allBelow notBelow
  rw [keyBinarySearch_eq_of_parted (under.length : Int) (by omega) (by omega) below above]
  cases over with
  | nil => simp
  | cons head tail =>
      rw [Int.toNat_ofNat, List.append_assoc, List.cons_append, getD_append_length]
      simp only [List.length_cons, List.head?_cons, Option.some.injEq]
      exact if_congr ⟨And.right, fun hit => ⟨by omega, hit⟩⟩ rfl rfl

theorem keyBinarySearch_cut {under over rest : List Int} {target : Int}
    (allBelow : ∀ k ∈ under, k < target) (allAbove : ∀ k ∈ over, target < k) :
    keyBinarySearch (under ++ over ++ rest) (under.length + over.length) target =
      -under.length - 1 := by
  rw [keyBinarySearch_at_cut allBelow fun k member => Int.le_of_lt (allAbove k member), if_neg]
  exact fun headed => Int.lt_irrefl _ (allAbove _ (List.mem_of_mem_head? headed))

theorem exists_cut_of_pairwise {α : Type} (f : α → Int) :
    ∀ {xs : List α}, xs.Pairwise (fun a b => f a < f b) → ∀ target : Int,
      ∃ under over, (∀ x ∈ under, f x < target) ∧ (∀ x ∈ over, target < f x) ∧
        (xs = under ++ over ∨ ∃ x, f x = target ∧ xs = under ++ x :: over)
  | [], _, _ => ⟨[], [], by simp, by simp, .inl rfl⟩
  | first :: rest, sorted, target => by
      obtain ⟨above, sortedRest⟩ := List.pairwise_cons.mp sorted
      rcases Int.lt_trichotomy (f first) target with below | hit | higher
      · obtain ⟨under, over, allBelow, allAbove, parted⟩ :=
          exists_cut_of_pairwise f sortedRest target
        refine ⟨first :: under, over, ?_, allAbove, ?_⟩
        · simpa [below] using allBelow
        · rcases parted with rfl | ⟨x, held, rfl⟩
          · exact .inl rfl
          · exact .inr ⟨x, held, rfl⟩
      · exact ⟨[], rest, by simp, hit ▸ above, .inr ⟨first, hit, rfl⟩⟩
      · refine ⟨[], first :: rest, by simp, fun x member => ?_, .inl rfl⟩
        rcases List.mem_cons.mp member with rfl | later
        · exact higher
        · exact Int.lt_trans higher (above x later)

/-- On a strictly ascending prefix `arr[0..len)` the loop has stopped within its `len + 1`
rounds (more fuel gives the same slot); a present target comes back as a slot holding it, and
an absent one as `-p - 1`, where `p` counts the keys below it. -/
theorem keyBinarySearch_of_strictly_ascending (arr : List Int) (len : Nat) (target : Int)
    (sized : len ≤ arr.length) (ascending : (arr.take len).Pairwise (· < ·)) :
    (∀ fuel, len + 1 ≤ fuel →
      keyBinarySearchLoop arr target fuel (-1) len =
        keyBinarySearchLoop arr target (len + 1) (-1) len) ∧
    (target ∈ arr.take len → 0 ≤ keyBinarySearch arr len target ∧
      keyBinarySearch arr len target < len ∧
      arr.getD (keyBinarySearch arr len target).toNat 0 = target) ∧
    (target ∉ arr.take len →
      keyBinarySearch arr len target = -((arr.take len).countP (· < target) : Int) - 1) := by
  obtain ⟨under, over, allBelow, allAbove, parted⟩ := exists_cut_of_pairwise id ascending target
  obtain ⟨rest, whole⟩ : ∃ rest, arr = arr.take len ++ rest :=
    ⟨_, (List.take_append_drop len arr).symm⟩
  have taken : (arr.take len).length = len := List.length_take_of_le sized
  generalize arr.take len = pre at whole taken parted ⊢
  subst whole
  have notBelow : ∀ k ∈ over, target ≤ k := fun k member => Int.le_of_lt (allAbove k member)
  rcases parted with cut | ⟨x, hit, cut⟩
  · -- Absent: the target belongs right after the `under.length` smaller keys.
    have lenEq : len = under.length + over.length := by simp [← taken, cut]
    have absent : target ∉ under ++ over := fun member => by
      rcases List.mem_append.mp member with low | high
      · exact Int.lt_irrefl _ (allBelow _ low)
      · exact Int.lt_irrefl _ (allAbove _ high)
    subst cut lenEq
    push_cast
    refine ⟨fun fuel enough => ?_, fun member => absurd member absent, fun _ => ?_⟩
    · rw [keyBinarySearchLoop_at_cut allBelow notBelow enough,
        keyBinarySearchLoop_at_cut allBelow notBelow le_rfl]
    · rw [keyBinarySearch_cut allBelow allAbove, List.countP_append,
        List.countP_eq_length.mpr fun k member => by simpa using allBelow k member,
        List.countP_eq_zero.mpr fun k member => by simpa using Int.not_lt.mpr (notBelow k member)]
      simp
  · -- Present: the target sits right after the `under.length` smaller keys.
    have lenEq : len = under.length + (x :: over).length := by simp [← taken, cut]
    have notBelowHere : ∀ k ∈ x :: over, target ≤ k := by simpa [← hit] using notBelow
    subst cut lenEq
    push_cast
    have found : keyBinarySearch (under ++ x :: over ++ rest)
        (under.length + (x :: over).length) target = under.length := by
      rw [keyBinarySearch_at_cut allBelow notBelowHere, if_pos (by simpa using hit)]
    refine ⟨fun fuel enough => ?_, fun _ => ?_, fun absent => absurd ?_ absent⟩
    · rw [keyBinarySearchLoop_at_cut allBelow notBelowHere enough,
        keyBinarySearchLoop_at_cut allBelow notBelowHere le_rfl]
    · rw [found, Int.toNat_ofNat, List.append_assoc, List.cons_append, getD_append_length]
      exact ⟨by omega, by simp only [List.length_cons]; omega, hit⟩
    · simp [← hit]

theorem keyBinarySearch_of_strictly_ascending_of_four :
    3 ≤ [1, 3, 5].length ∧ ([1, 3, 5].take 3).Pairwise (· < ·) ∧
      keyBinarySearch [1, 3, 5] 3 4 = -(([1, 3, 5].take 3).countP (· < (4 : Int)) : Int) - 1 :=
  ⟨by decide, by decide,
    (keyBinarySearch_of_strictly_ascending [1, 3, 5] 3 4 (by decide) (by decide)).2.2 (by decide)⟩

end ZipCache
