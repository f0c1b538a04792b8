import ZipCache.SsdTier.AscendingInserts

/-!
# Runs of sub-page operations

The sub-pages a run of `sub_page_insert` and `sub_page_delete` calls can build from
`sub_page_create()`. Inserts in ascending key order reach every page `pageOf pairs` with
strictly ascending keys, up to `ENTRIES_PER_SUB_PAGE` of them. `sub_page_insert` tests
`sub_page_is_full` before it searches, so on a full page it refuses an update of a key the
page holds as well as a new key; the large-object tree's `leaf_insert` searches first.

Apart from that refusal, every page a run builds is a sorted map. Its first `entries` slots
hold bindings in strictly increasing key order (`SubPage.Sorted`), and search, insert and
delete act on them as `List.lookup`, `sortedInsert` and a filter do.
-/

namespace ZipCache.SsdTier

/-- The sub-pages that `sub_page_create` and a run of inserts and deletes can build. -/
inductive SubPage.Reachable : SubPage → Prop
  | create : SubPage.Reachable subPageCreate
  | insert {subPage : SubPage} (key data : Int) :
      subPage.Reachable → (subPageInsert subPage key data).2.Reachable
  | delete {subPage : SubPage} (key : Int) :
      subPage.Reachable → (subPageDelete subPage key).2.Reachable

theorem reachable_pageOf {pairs : List (Int × Int)}
    (ascending : pairs.Pairwise (fun a b => a.1 < b.1))
    (room : pairs.length ≤ entriesPerSubPage) : (pageOf pairs).Reachable := by
  induction pairs using List.reverseRecOn with
  | nil => exact .create
  | append_singleton front last inductionHypothesis =>
      obtain ⟨ascendingFront, -, below⟩ := List.pairwise_append.mp ascending
      have below : ∀ pair ∈ front, pair.1 < last.1 :=
        fun pair member => below pair member last (List.mem_singleton_self _)
      have fits : front.length < entriesPerSubPage := by
        simp only [List.length_append, List.length_singleton] at room
        omega
      have inserted :
          (subPageInsert (pageOf front) last.1 last.2).2 = pageOf (front ++ [last]) := by
        rw [subPageInsert_pageOf_append last.2 below fits]
      exact inserted ▸ .insert last.1 last.2 (inductionHypothesis ascendingFront (by omega))

@[simp]
theorem liveKeys_pageOf (pairs : List (Int × Int)) :
    (pageOf pairs).liveKeys = pairs.map Prod.fst := by
  simp [SubPage.liveKeys, pageOf]

/-- On a full page reached by ascending inserts, `sub_page_insert` of a key the page holds
returns `-1` and leaves the page as it was: the fullness test comes before the search that
would have found the key's slot. -/
theorem subPageInsert_refuses_update_in_full_page {pairs : List (Int × Int)} (key data : Int)
    (ascending : pairs.Pairwise (fun a b => a.1 < b.1)) (full : pairs.length = entriesPerSubPage)
    (present : key ∈ pairs.map Prod.fst) :
    (pageOf pairs).Reachable ∧ key ∈ (pageOf pairs).liveKeys ∧
      subPageInsert (pageOf pairs) key data = (-1, pageOf pairs) := by
  refine ⟨reachable_pageOf ascending full.le, by simpa using present, ?_⟩
  simp [subPageInsert, subPageIsFull_pageOf, full]

/-- The keys `0 .. 339` in ascending order, each stored as its own value. -/
def fullPairs : List (Int × Int) :=
  (List.range entriesPerSubPage).map fun i : Nat => ((i : Int), (i : Int))

theorem subPageInsert_refuses_update_of_zero :
    fullPairs.Pairwise (fun a b => a.1 < b.1) ∧ fullPairs.length = entriesPerSubPage ∧
      (0 : Int) ∈ fullPairs.map Prod.fst ∧
      subPageInsert (pageOf fullPairs) 0 7 = (-1, pageOf fullPairs) :=
  have ascending : fullPairs.Pairwise (fun a b => a.1 < b.1) :=
    List.pairwise_map.mpr (List.pairwise_lt_range _ |>.imp Int.ofNat_lt.mpr)
  have full : fullPairs.length = entriesPerSubPage := by simp [fullPairs]
  have present : (0 : Int) ∈ fullPairs.map Prod.fst :=
    List.mem_map.mpr ⟨(0, 0), List.mem_map.mpr ⟨0, List.mem_range.mpr (by decide), rfl⟩, rfl⟩
  ⟨ascending, full, present,
    (subPageInsert_refuses_update_in_full_page 0 7 ascending full present).2.2⟩

/-- A binding put into a list sorted by key: it replaces the key's binding, or goes in at the
key's place. -/
def sortedInsert (key data : Int) : List (Int × Int) → List (Int × Int)
  | [] => [(key, data)]
  | pair :: rest =>
      if key < pair.1 then (key, data) :: pair :: rest
      else if key = pair.1 then (key, data) :: rest
      else pair :: sortedInsert key data rest

section Cut

variable {key : Int} {under over : List (Int × Int)}

theorem sortedInsert_append (data : Int) (below : ∀ pair ∈ under, pair.1 < key)
    (rest : List (Int × Int)) :
    sortedInsert key data (under ++ rest) = under ++ sortedInsert key data rest := by
  induction under with
  | nil => rfl
  | cons pair front inductionHypothesis =>
      have lower := below pair (List.mem_cons_self _ _)
      rw [List.cons_append, sortedInsert, if_neg (Int.not_lt.mpr (Int.le_of_lt lower)),
        if_neg (Int.ne_of_gt lower),
        inductionHypothesis fun pair member => below pair (List.mem_cons_of_mem _ member),
        List.cons_append]

theorem sortedInsert_of_above (data : Int) (above : ∀ pair ∈ over, key < pair.1) :
    sortedInsert key data over = (key, data) :: over := by
  cases over with
  | nil => rfl
  | cons pair rest => simp [sortedInsert, above pair (List.mem_cons_self _ _)]

theorem lookup_append_of_below (below : ∀ pair ∈ under, pair.1 < key)
    (rest : List (Int × Int)) : (under ++ rest).lookup key = rest.lookup key := by
  induction under with
  | nil => rfl
  | cons pair front inductionHypothesis =>
      have lower := below pair (List.mem_cons_self _ _)
      rw [List.cons_append, List.lookup_cons,
        show (key == pair.1) = false by simpa using Int.ne_of_gt lower]
      exact inductionHypothesis fun pair member => below pair (List.mem_cons_of_mem _ member)

theorem lookup_of_above (above : ∀ pair ∈ over, key < pair.1) : over.lookup key = none := by
  induction over with
  | nil => rfl
  | cons pair rest inductionHypothesis =>
      have higher := above pair (List.mem_cons_self _ _)
      rw [List.lookup_cons, show (key == pair.1) = false by simpa using Int.ne_of_lt higher]
      exact inductionHypothesis fun pair member => above pair (List.mem_cons_of_mem _ member)

theorem filter_ne_of_cut (below : ∀ pair ∈ under, pair.1 < key)
    (above : ∀ pair ∈ over, key < pair.1) :
    (under ++ over).filter (fun pair => pair.1 ≠ key) = under ++ over :=
  List.filter_eq_self.mpr fun pair member => by
    rcases List.mem_append.mp member with lower | higher
    · simpa using Int.ne_of_lt (below pair lower)
    · simpa using Int.ne_of_gt (above pair higher)

end Cut

theorem set_append_cons (front back tail : List Int) (x y : Int) :
    (front ++ x :: back ++ tail).set front.length y = front ++ y :: back ++ tail := by
  induction front with
  | nil => simp
  | cons z rest inductionHypothesis => simp [inductionHypothesis]

theorem pairwise_insert_between {key data : Int} {under over : List (Int × Int)}
    (ascending : (under ++ over).Pairwise (fun a b => a.1 < b.1))
    (below : ∀ pair ∈ under, pair.1 < key) (above : ∀ pair ∈ over, key < pair.1) :
    (under ++ (key, data) :: over).Pairwise (fun a b => a.1 < b.1) := by
  obtain ⟨lower, upper, -⟩ := List.pairwise_append.mp ascending
  refine List.pairwise_append.mpr ⟨lower, List.Pairwise.cons above upper, ?_⟩
  rintro a lowerMember b (_ | ⟨_, upperMember⟩)
  · exact below a lowerMember
  · exact Int.lt_trans (below a lowerMember) (above b upperMember)

/-- What every sub-page a run of calls builds keeps: both slot arrays at their full
`ENTRIES_PER_SUB_PAGE` slots, at most that many entries, and its bindings in strictly
increasing key order. -/
structure SubPage.Sorted (subPage : SubPage) : Prop where
  keysSized : subPage.keys.length = entriesPerSubPage
  valuesSized : subPage.values.length = entriesPerSubPage
  bounded : subPage.entries ≤ entriesPerSubPage
  ascending : subPage.pairs.Pairwise (fun a b => a.1 < b.1)

theorem SubPage.pairs_of_take {subPage : SubPage} {pairs : List (Int × Int)}
    (keys : subPage.keys.take subPage.entries = pairs.map Prod.fst)
    (values : subPage.values.take subPage.entries = pairs.map Prod.snd) :
    subPage.pairs = pairs := by
  rw [SubPage.pairs, keys, values]
  exact (List.zip_of_prod rfl rfl).symm

theorem SubPage.pairs_mk {pairs : List (Int × Int)} {n : Nat} (counted : pairs.length = n)
    (next : Int) (keyTail valueTail : List Int) :
    SubPage.pairs ⟨n, next, pairs.map Prod.fst ++ keyTail, pairs.map Prod.snd ++ valueTail⟩ =
      pairs :=
  SubPage.pairs_of_take (List.take_left' (by simpa using counted))
    (List.take_left' (by simpa using counted))

theorem SubPage.sorted_mk {pairs : List (Int × Int)} {n : Nat} (counted : pairs.length = n)
    {next : Int} {keyTail valueTail : List Int}
    (keysSized : n + keyTail.length = entriesPerSubPage)
    (valuesSized : n + valueTail.length = entriesPerSubPage)
    (ascending : pairs.Pairwise (fun a b => a.1 < b.1)) :
    SubPage.Sorted ⟨n, next, pairs.map Prod.fst ++ keyTail, pairs.map Prod.snd ++ valueTail⟩ :=
  ⟨by simp [counted, keysSized], by simp [counted, valuesSized], show n ≤ _ by omega,
    (SubPage.pairs_mk counted next keyTail valueTail).symm ▸ ascending⟩

section Sorted

variable {subPage : SubPage}

theorem SubPage.Sorted.keys_eq (sorted : subPage.Sorted) :
    subPage.keys = subPage.pairs.map Prod.fst ++ subPage.keys.drop subPage.entries := by
  rw [SubPage.pairs, List.map_fst_zip _ _ (by simp [sorted.keysSized, sorted.valuesSized]),
    List.take_append_drop]

theorem SubPage.Sorted.values_eq (sorted : subPage.Sorted) :
    subPage.values = subPage.pairs.map Prod.snd ++ subPage.values.drop subPage.entries := by
  rw [SubPage.pairs, List.map_snd_zip _ _ (by simp [sorted.keysSized, sorted.valuesSized]),
    List.take_append_drop]

theorem SubPage.Sorted.length_drop_keys (sorted : subPage.Sorted) :
    (subPage.keys.drop subPage.entries).length = entriesPerSubPage - subPage.entries := by
  rw [List.length_drop, sorted.keysSized]

theorem SubPage.Sorted.length_drop_values (sorted : subPage.Sorted) :
    (subPage.values.drop subPage.entries).length = entriesPerSubPage - subPage.entries := by
  rw [List.length_drop, sorted.valuesSized]

theorem SubPage.Sorted.length_pairs (sorted : subPage.Sorted) :
    subPage.pairs.length = subPage.entries := by
  have := congrArg List.length sorted.keys_eq
  simp only [List.length_append, List.length_map, List.length_drop, sorted.keysSized] at this
  have := sorted.bounded
  omega

theorem SubPage.Sorted.find_at_cut (sorted : subPage.Sorted) {key : Int}
    {under over : List (Int × Int)} (cut : subPage.pairs = under ++ over)
    (below : ∀ pair ∈ under, pair.1 < key) (notBelow : ∀ pair ∈ over, key ≤ pair.1) :
    subPage.find key =
      if over.head?.map Prod.fst = some key then (under.length : Int) else -under.length - 1 := by
  have counted : subPage.entries = (under.map Prod.fst).length + (over.map Prod.fst).length := by
    rw [← sorted.length_pairs, cut]
    simp
  have found := @keyBinarySearch_at_cut (under.map Prod.fst) (over.map Prod.fst)
    (subPage.keys.drop subPage.entries) key (by simpa using below) (by simpa using notBelow)
  rw [← List.map_append, ← cut, ← sorted.keys_eq, ← Int.ofNat_add, ← counted] at found
  rw [SubPage.find, found, List.head?_map, List.length_map]

theorem SubPage.Sorted.cut (sorted : subPage.Sorted) (key : Int) :
    ∃ under over, (∀ pair ∈ under, pair.1 < key) ∧ (∀ pair ∈ over, key < pair.1) ∧
      ((subPage.pairs = under ++ over ∧ subPage.find key = -under.length - 1) ∨
        ∃ value, subPage.pairs = under ++ (key, value) :: over ∧
          subPage.find key = under.length) := by
  obtain ⟨under, over, below, above, cut | ⟨⟨key, value⟩, rfl, cut⟩⟩ :=
    exists_cut_of_pairwise Prod.fst sorted.ascending key
  · have missed : over.head?.map Prod.fst ≠ some key := by
      cases over with
      | nil => simp
      | cons pair rest => simpa using Int.ne_of_gt (above pair (List.mem_cons_self _ _))
    refine ⟨under, over, below, above, .inl ⟨cut, ?_⟩⟩
    rw [sorted.find_at_cut cut below fun pair member => Int.le_of_lt (above pair member),
      if_neg missed]
  · have notBelow : ∀ pair ∈ (key, value) :: over, key ≤ pair.1 := by
      rintro pair (_ | ⟨_, member⟩)
      · exact Int.le_refl _
      · exact Int.le_of_lt (above pair member)
    refine ⟨under, over, below, above, .inr ⟨value, cut, ?_⟩⟩
    rw [sorted.find_at_cut cut below notBelow, List.head?_cons, Option.map_some', if_pos rfl]

theorem SubPage.Sorted.subPageSearch_eq (sorted : subPage.Sorted) (key : Int) :
    subPageSearch subPage key = (subPage.pairs.lookup key).getD (-1) := by
  obtain ⟨under, over, below, above, ⟨cut, found⟩ | ⟨value, cut, found⟩⟩ := sorted.cut key
  · rw [subPageSearch, found, if_neg (by omega), cut, lookup_append_of_below below,
      lookup_of_above above]
    rfl
  · rw [subPageSearch, found, if_pos (Int.ofNat_nonneg _), Int.toNat_ofNat, sorted.values_eq, cut,
      lookup_append_of_below below, List.map_append, List.map_cons, List.append_assoc,
      List.cons_append, show under.length = (under.map Prod.snd).length from
        (List.length_map _ _).symm, getD_append_length]
    simp [List.lookup_cons]

theorem SubPage.Sorted.subPageInsert_of_room (sorted : subPage.Sorted)
    (room : subPage.entries < entriesPerSubPage) (key data : Int) :
    (subPageInsert subPage key data).1 = 0 ∧ (subPageInsert subPage key data).2.Sorted ∧
      (subPageInsert subPage key data).2.pairs = sortedInsert key data subPage.pairs := by
  have notFull : subPageIsFull subPage = false := decide_eq_false (Nat.not_le.mpr room)
  have keys := sorted.keys_eq
  have values := sorted.values_eq
  obtain ⟨under, over, below, above, ⟨cut, found⟩ | ⟨value, cut, found⟩⟩ := sorted.cut key
  · have counted : (under ++ (key, data) :: over).length = subPage.entries + 1 := by
      rw [← sorted.length_pairs, cut]
      simp only [List.length_append, List.length_cons]
      omega
    rw [cut, List.map_append] at keys values
    unfold subPageInsert
    rw [notFull, if_neg Bool.false_ne_true, found, if_neg (by omega)]
    dsimp only
    have entries : under.length + over.length = subPage.entries := by
      simp only [List.length_append, List.length_cons] at counted
      omega
    rw [keys, values, shiftUp_append key (by rw [List.length_map]; omega)
        (by rw [List.length_map, List.length_map, entries]),
      shiftUp_append data (by rw [List.length_map]; omega)
        (by rw [List.length_map, List.length_map, entries]),
      show under.map Prod.fst ++ key :: over.map Prod.fst =
        (under ++ (key, data) :: over).map Prod.fst by simp,
      show under.map Prod.snd ++ data :: over.map Prod.snd =
        (under ++ (key, data) :: over).map Prod.snd by simp]
    refine ⟨rfl, SubPage.sorted_mk counted
      (by rw [List.length_tail, sorted.length_drop_keys]; omega)
      (by rw [List.length_tail, sorted.length_drop_values]; omega)
      (pairwise_insert_between (cut ▸ sorted.ascending) below above), ?_⟩
    rw [SubPage.pairs_mk counted, cut, sortedInsert_append data below,
      sortedInsert_of_above data above]
  · have counted : (under ++ (key, data) :: over).length = subPage.entries := by
      rw [← sorted.length_pairs, cut]
      simp
    rw [cut, List.map_append, List.map_cons] at keys values
    unfold subPageInsert
    rw [notFull, if_neg Bool.false_ne_true, found, if_pos (Int.ofNat_nonneg _)]
    dsimp only
    rw [keys, values, Int.toNat_ofNat, show under.length = (under.map Prod.snd).length from
      (List.length_map _ _).symm, set_append_cons,
      show under.map Prod.fst ++ key :: over.map Prod.fst =
        (under ++ (key, data) :: over).map Prod.fst by simp,
      show under.map Prod.snd ++ data :: over.map Prod.snd =
        (under ++ (key, data) :: over).map Prod.snd by simp]
    refine ⟨rfl, SubPage.sorted_mk counted
      (by rw [sorted.length_drop_keys]; omega) (by rw [sorted.length_drop_values]; omega)
      (pairwise_insert_between
        (List.Pairwise.sublist ((List.sublist_cons_self _ _).append_left under)
          (cut ▸ sorted.ascending))
        below above), ?_⟩
    rw [SubPage.pairs_mk counted, cut, sortedInsert_append data below]
    simp [sortedInsert]

theorem SubPage.Sorted.subPageDelete_eq (sorted : subPage.Sorted) (key : Int) :
    (subPageDelete subPage key).1 = (if key ∈ subPage.pairs.map Prod.fst then 0 else -1) ∧
      (subPageDelete subPage key).2.Sorted ∧
      (subPageDelete subPage key).2.pairs = subPage.pairs.filter (fun pair => pair.1 ≠ key) := by
  have keys := sorted.keys_eq
  have values := sorted.values_eq
  obtain ⟨under, over, below, above, ⟨cut, found⟩ | ⟨value, cut, found⟩⟩ := sorted.cut key
  · have absent : key ∉ subPage.pairs.map Prod.fst := by
      rw [cut, List.map_append, List.mem_append, List.mem_map, List.mem_map]
      rintro (⟨pair, member, rfl⟩ | ⟨pair, member, rfl⟩)
      · exact Int.lt_irrefl _ (below pair member)
      · exact Int.lt_irrefl _ (above pair member)
    unfold subPageDelete
    rw [found, if_pos (by omega), if_neg absent, cut, filter_ne_of_cut below above, ← cut]
    exact ⟨rfl, sorted, rfl⟩
  · have counted : (under ++ over).length + 1 = subPage.entries := by
      rw [← sorted.length_pairs, cut]
      simp only [List.length_append, List.length_cons]
      omega
    have countedAfter : (under ++ over).length = subPage.entries - 1 := by omega
    have bounded := sorted.bounded
    rw [cut, List.map_append, List.map_cons] at keys values
    unfold subPageDelete
    rw [found, if_neg (Int.not_lt.mpr (Int.ofNat_nonneg _)), if_pos (by rw [cut]; simp)]
    dsimp only
    have entries : under.length + over.length + 1 = subPage.entries := by
      rw [← counted, List.length_append]
    rw [keys, values, Int.toNat_ofNat, shiftDown_append key (List.length_map _ _)
        (by rw [List.length_map, List.length_map, entries]),
      shiftDown_append value (List.length_map _ _)
        (by rw [List.length_map, List.length_map, entries]),
      show under.map Prod.fst ++ over.map Prod.fst = (under ++ over).map Prod.fst by simp,
      show under.map Prod.snd ++ over.map Prod.snd = (under ++ over).map Prod.snd by simp]
    refine ⟨rfl, SubPage.sorted_mk countedAfter
      (by rw [List.length_append, List.length_drop, List.length_cons, sorted.length_drop_keys]
          omega)
      (by rw [List.length_append, List.length_drop, List.length_cons, sorted.length_drop_values]
          omega)
      (List.Pairwise.sublist ((List.sublist_cons_self _ _).append_left under)
        (cut ▸ sorted.ascending)), ?_⟩
    rw [SubPage.pairs_mk countedAfter, cut, List.filter_append, List.filter_cons_of_neg (by simp),
      ← List.filter_append, filter_ne_of_cut below above]

end Sorted

theorem pageOf_sorted {pairs : List (Int × Int)}
    (ascending : pairs.Pairwise (fun a b => a.1 < b.1)) (room : pairs.length ≤ entriesPerSubPage) :
    (pageOf pairs).Sorted :=
  SubPage.sorted_mk rfl (by rw [List.length_replicate]; omega)
    (by rw [List.length_replicate]; omega) ascending

theorem SubPage.Reachable.sorted {subPage : SubPage} (reachable : subPage.Reachable) :
    subPage.Sorted := by
  induction reachable with
  | create => exact subPageCreate_eq_pageOf_nil ▸ pageOf_sorted List.Pairwise.nil (Nat.zero_le _)
  | @insert subPage key data _ sorted =>
      by_cases room : subPage.entries < entriesPerSubPage
      · exact (sorted.subPageInsert_of_room room key data).2.1
      · rw [subPageInsert_of_full (Nat.not_lt.mp room)]
        exact sorted
  | delete key _ sorted => exact (sorted.subPageDelete_eq key).2.1

/-- Every sub-page that `sub_page_create()` and a run of `sub_page_insert` and
`sub_page_delete` calls build holds at most `ENTRIES_PER_SUB_PAGE` bindings in strictly
increasing key order, and each call acts on them as on a sorted map. The search gives the
key's binding, or `-1`. An insert into a page with room returns `0` and puts the binding in;
a full page refuses every insert, of a key it holds too, with `-1` and no change. A delete
returns `0` exactly when the page holds the key, and drops its binding. -/
theorem SubPage.Reachable.refines_sortedMap {subPage : SubPage} (reachable : subPage.Reachable)
    (key data : Int) :
    subPage.entries ≤ entriesPerSubPage ∧ subPage.pairs.Pairwise (fun a b => a.1 < b.1) ∧
      subPageSearch subPage key = (subPage.pairs.lookup key).getD (-1) ∧
      (subPageInsert subPage key data).1 = (if subPage.entries < entriesPerSubPage then 0 else -1) ∧
      (subPageInsert subPage key data).2.pairs =
        (if subPage.entries < entriesPerSubPage then sortedInsert key data subPage.pairs
          else subPage.pairs) ∧
      (subPageDelete subPage key).1 = (if key ∈ subPage.pairs.map Prod.fst then 0 else -1) ∧
      (subPageDelete subPage key).2.pairs = subPage.pairs.filter (fun pair => pair.1 ≠ key) := by
  have sorted := reachable.sorted
  obtain ⟨deleted, -, dropped⟩ := sorted.subPageDelete_eq key
  refine ⟨sorted.bounded, sorted.ascending, sorted.subPageSearch_eq key, ?_, ?_, deleted, dropped⟩
  all_goals
    by_cases room : subPage.entries < entriesPerSubPage
    · simp only [if_pos room, sorted.subPageInsert_of_room room key data]
    · simp only [if_neg room, subPageInsert_of_full (Nat.not_lt.mp room)]

theorem SubPage.Reachable.refines_sortedMap_after_two_inserts :
    let page := (subPageInsert (subPageInsert subPageCreate 7 70).2 3 30).2
    page.Reachable ∧ page.pairs = [(3, 30), (7, 70)] ∧
      subPageSearch page 7 = 70 ∧ (subPageDelete page 7).2.pairs = [(3, 30)] :=
  have reachable := SubPage.Reachable.insert 3 30 (.insert 7 70 .create)
  have refined := reachable.refines_sortedMap 7 0
  ⟨reachable, by decide, refined.2.2.1.trans (by decide), refined.2.2.2.2.2.2.trans (by decide)⟩

end ZipCache.SsdTier
