import Mathlib.Data.List.Basic

/-!
# The DRAM base B+tree

Modelled from the spec: the base tree (`bplustree.c`) is not among the sources. The spec
describes it as an in-memory ordered map from `key_t` to `long` whose `put` with value `0`
deletes the key, and whose `get` answers `-1` for a key it does not hold. The model keeps
the map as an association list with one entry per key. Deleting a key the map does not
hold is refused with `-1`, as the sources' other two trees do.
-/

namespace ZipCache.DramTier

/-- Modelled from the spec: a DRAM base tree, as the map it stores. -/
structure BaseTree where
  entries : List (Int × Int)
deriving DecidableEq, Repr

namespace BaseTree

/-- Modelled from the spec: `bplus_tree_init`, an empty tree (its root is `NULL`). -/
def empty : BaseTree := ⟨[]⟩

/-- Modelled from the spec: `bplus_tree_get`, the value stored for a key, else `-1`. -/
def get (tree : BaseTree) (key : Int) : Int :=
  (tree.entries.lookup key).getD (-1)

/-- Modelled from the spec: `bplus_tree_put`. A non-zero value is stored (replacing any
old one) with status `0`; the value `0` deletes the key, with status `-1` if it is absent. -/
def put (tree : BaseTree) (key data : Int) : Int × BaseTree :=
  if data = 0 then
    if (tree.entries.lookup key).isSome then (0, ⟨tree.entries.filter (·.1 != key)⟩)
    else (-1, tree)
  else (0, ⟨(key, data) :: tree.entries.filter (·.1 != key)⟩)

theorem lookup_filter_ne (entries : List (Int × Int)) {key other : Int} (apart : other ≠ key) :
    (entries.filter (·.1 != key)).lookup other = entries.lookup other := by
  induction entries with
  | nil => rfl
  | cons entry rest inductionHypothesis =>
      obtain ⟨first, value⟩ := entry
      by_cases dropped : first = key
      · subst dropped
        have miss : (other == first) = false := by simpa using apart
        simp [List.filter_cons, List.lookup_cons, miss, inductionHypothesis]
      · by_cases hit : other = first
        · subst hit
          simp [List.filter_cons, List.lookup_cons, dropped]
        · have miss : (other == first) = false := by simpa using hit
          simp [List.filter_cons, List.lookup_cons, dropped, miss, inductionHypothesis]

theorem lookup_filter_self (entries : List (Int × Int)) (key : Int) :
    (entries.filter (·.1 != key)).lookup key = none := by
  induction entries with
  | nil => rfl
  | cons entry rest inductionHypothesis =>
      obtain ⟨first, value⟩ := entry
      by_cases dropped : first = key
      · simp [List.filter_cons, dropped, inductionHypothesis]
      · have miss : (key == first) = false := by simpa using Ne.symm dropped
        simp [List.filter_cons, List.lookup_cons, dropped, miss, inductionHypothesis]

@[simp]
theorem get_put_self (tree : BaseTree) (key data : Int) :
    (tree.put key data).2.get key = if data = 0 then -1 else data := by
  unfold put get
  by_cases deleting : data = 0
  · by_cases present : (tree.entries.lookup key).isSome
    · simp [deleting, present, lookup_filter_self]
    · have absent : tree.entries.lookup key = none := by
        cases found : tree.entries.lookup key with
        | none => rfl
        | some value => simp [found] at present
      simp [deleting, absent]
  · simp [deleting]

@[simp]
theorem get_put_of_ne (tree : BaseTree) {key other : Int} (data : Int) (apart : other ≠ key) :
    (tree.put key data).2.get other = tree.get other := by
  unfold put get
  by_cases deleting : data = 0
  · by_cases present : (tree.entries.lookup key).isSome
    · simp [deleting, present, lookup_filter_ne _ apart]
    · simp [deleting, present]
  · have miss : (other == key) = false := by simpa using apart
    simp [deleting, List.lookup_cons, miss, lookup_filter_ne _ apart]

@[simp]
theorem get_empty (key : Int) : empty.get key = -1 := rfl

theorem put_status_of_ne_zero (tree : BaseTree) (key : Int) {data : Int} (live : data ≠ 0) :
    (tree.put key data).1 = 0 := by
  simp [put, live]

end BaseTree

end ZipCache.DramTier
