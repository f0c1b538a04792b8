import ZipCache.SortedArray

/-!
# Sub-pages of the SSD tree (`bplustree.c`, sub-page section)

A sub-page is a 4 KiB image: a header, then `ENTRIES_PER_SUB_PAGE` key slots, then as many
value slots. `ENTRIES_PER_SUB_PAGE` is `(4096 - 16) / (4 + 8) = 340`, and the two arrays
fill the payload exactly, so the image has no tail. The model keeps all 340 slots of each
array: `memmove` leaves stale values behind the last entry, and
`sub_page_prepare_for_compression` is there to zero them.

The header's `reserved` words are read by no function and are left out.
-/

namespace ZipCache.SsdTier

/-- `SUB_PAGE_SIZE`. -/
def subPageSize : Nat := 4096

/-- `SUB_PAGES_PER_SUPER_LEAF`: `SUPER_LEAF_SIZE / SUB_PAGE_SIZE`. -/
def subPagesPerSuperLeaf : Nat := 65536 / subPageSize

/-- `ENTRIES_PER_SUB_PAGE`: the header is four `int`s, a key an `int`, a value a `long`. -/
def entriesPerSubPage : Nat := (subPageSize - 16) / (4 + 8)

theorem entriesPerSubPage_eq : entriesPerSubPage = 340 := rfl

theorem subPagesPerSuperLeaf_eq : subPagesPerSuperLeaf = 16 := rfl

/-- `struct sub_page`: the header's `entries` and `next_sub_page`, and both slot arrays. -/
structure SubPage where
  entries : Nat
  nextSubPage : Int
  keys : List Int
  values : List Int
deriving DecidableEq, Repr

/-- `sub_page_create`: `calloc`, then `next_sub_page = -1`. -/
def subPageCreate : SubPage :=
  ⟨0, -1, List.replicate entriesPerSubPage 0, List.replicate entriesPerSubPage 0⟩

/-- The image of a block of the zero-filled file that was never written. -/
def zeroSubPage : SubPage :=
  ⟨0, 0, List.replicate entriesPerSubPage 0, List.replicate entriesPerSubPage 0⟩

/-- `sub_page_is_full`. -/
def subPageIsFull (subPage : SubPage) : Bool :=
  entriesPerSubPage ≤ subPage.entries

/-- `memmove(&a[pos + 1], &a[pos], (n - pos) * size)`, then `a[pos] = x`. -/
def shiftUp (a : List Int) (n pos : Nat) (x : Int) : List Int :=
  a.take pos ++ x :: (a.drop pos).take (n - pos) ++ a.drop (n + 1)

/-- `memmove(&a[pos], &a[pos + 1], (n - pos - 1) * size)`: slot `n - 1` keeps its value. -/
def shiftDown (a : List Int) (n pos : Nat) : List Int :=
  a.take pos ++ (a.drop (pos + 1)).take (n - pos - 1) ++ a.drop (n - 1)

theorem shiftUp_append {front middle back : List Int} {n pos : Nat} (x : Int)
    (atFront : front.length = pos) (entries : front.length + middle.length = n) :
    shiftUp (front ++ middle ++ back) n pos x = front ++ x :: middle ++ back.tail := by
  subst atFront entries
  have rest : front ++ middle ++ back = front ++ (middle ++ back) := List.append_assoc _ _ _
  have past : front.length + middle.length + 1 = (front ++ middle).length + 1 := by simp
  rw [shiftUp, past, List.drop_append, List.drop_one, rest, List.take_left, List.drop_left,
    Nat.add_sub_cancel_left, List.take_left]

theorem shiftDown_append {front middle back : List Int} {n pos : Nat} (y : Int)
    (atFront : front.length = pos) (entries : front.length + middle.length + 1 = n) :
    shiftDown (front ++ y :: middle ++ back) n pos =
      front ++ middle ++ ((y :: middle).drop middle.length ++ back) := by
  subst atFront entries
  have whole : front ++ y :: middle ++ back = front ++ ((y :: middle) ++ back) := by simp
  have kept : front.length + middle.length + 1 - front.length - 1 = middle.length := by omega
  have past : front.length + middle.length + 1 - 1 = front.length + middle.length := by omega
  rw [shiftDown, past, kept, whole, List.take_left, List.drop_append, List.drop_append,
    List.drop_append_of_le_length (by simp : middle.length ≤ (y :: middle).length), List.drop_one,
    List.cons_append, List.tail_cons, List.take_left, List.append_assoc]

/-- The position `key_binary_search` reports for a key among the entries. -/
def SubPage.find (subPage : SubPage) (key : Int) : Int :=
  keyBinarySearch subPage.keys subPage.entries key

/-- `sub_page_insert`: `-1` on a full page, else update in place or shift and insert. -/
def subPageInsert (subPage : SubPage) (key data : Int) : Int × SubPage :=
  if subPageIsFull subPage then (-1, subPage)
  else
    let pos := subPage.find key
    if 0 ≤ pos then (0, { subPage with values := subPage.values.set pos.toNat data })
    else
      let pos := (-pos - 1).toNat
      (0, { subPage with
        keys := shiftUp subPage.keys subPage.entries pos key,
        values := shiftUp subPage.values subPage.entries pos data,
        entries := subPage.entries + 1 })

theorem subPageInsert_of_full {subPage : SubPage} (full : entriesPerSubPage ≤ subPage.entries)
    (key data : Int) : subPageInsert subPage key data = (-1, subPage) := by
  simp [subPageInsert, subPageIsFull, full]

/-- `sub_page_search`: the value stored for a key, `-1` when it is absent. -/
def subPageSearch (subPage : SubPage) (key : Int) : Int :=
  let pos := subPage.find key
  if 0 ≤ pos then subPage.values.getD pos.toNat 0 else -1

/-- `sub_page_delete`: close the gap, or `-1` when the key is absent. -/
def subPageDelete (subPage : SubPage) (key : Int) : Int × SubPage :=
  let pos := subPage.find key
  if pos < 0 then (-1, subPage)
  else
    let pos := pos.toNat
    (0, { subPage with
      keys := shiftDown subPage.keys subPage.entries pos,
      values := shiftDown subPage.values subPage.entries pos,
      entries := subPage.entries - 1 })

/-- `sub_page_prepare_for_compression`: zero the key and value slots from `entries` on.
The tail after the arrays is empty. -/
def subPagePrepareForCompression (subPage : SubPage) : SubPage :=
  if subPage.entries < entriesPerSubPage then
    { subPage with
      keys := subPage.keys.take subPage.entries ++
        List.replicate (entriesPerSubPage - subPage.entries) 0,
      values := subPage.values.take subPage.entries ++
        List.replicate (entriesPerSubPage - subPage.entries) 0 }
  else subPage

/-- `hash_key_to_sub_page`: Knuth's multiplicative hash on the key's 32 bits, folded down
by two shifts, modulo the number of sub-pages. -/
def hashKeyToSubPage (key : Int) (numSubPages : Int) : Nat :=
  if numSubPages ≤ 0 then 0
  else
    let hash := BitVec.ofInt 32 key * 2654435761#32
    let hash := hash ^^^ (hash >>> 16)
    let hash := hash ^^^ (hash >>> 8)
    hash.toNat % numSubPages.toNat

theorem hashKeyToSubPage_lt (key : Int) {numSubPages : Int} (positive : 0 < numSubPages) :
    hashKeyToSubPage key numSubPages < numSubPages.toNat := by
  unfold hashKeyToSubPage
  rw [if_neg (by omega)]
  exact Nat.mod_lt _ (by omega)

/-- The keys held by a sub-page, `keys[0 .. entries)`. -/
def SubPage.liveKeys (subPage : SubPage) : List Int :=
  subPage.keys.take subPage.entries

end ZipCache.SsdTier
