/-
Slices, as Go has them.

A slice is a length and a reference to an array, whose own length is the capacity. Slices can
share an array, so what is written through one can be seen through another: that is what the
frame lemmas are about. `append` writes into the array while there is room and moves to a new
one when there is none; `make` gives a slice an array of its own.

Only slices that start at the first element of their array are here. How far a new array is
larger than need be is a parameter.

A heap is a list of arrays, and the address of an array is its place in that list; nothing
is ever freed. Reading and writing through a slice that is valid cannot fail. What writes
(`copy`, `sort`, `append`) stores into the slice's own array or into a new one, so a slice
into another array reads afterwards what it read before (`contents_store_of_ne`,
`contents_alloc_of_valid`).

Validity says that the slice's length is within its array. It is kept by everything that the
heap can do, so a slice that was valid once stays valid.
-/
import Mathlib.Data.List.Sort

set_option autoImplicit false

namespace Memory

variable {α : Type}

/-- The arrays that were allocated. -/
structure Heap (α : Type) where
  arrays : List (List α)
  deriving DecidableEq, Repr

structure Slice where
  array : ℕ
  len : ℕ
  deriving DecidableEq, Repr

namespace Heap

def array (m : Heap α) (a : ℕ) : List α := m.arrays[a]?.getD []

/-- What is seen through a slice. -/
def contents (m : Heap α) (s : Slice) : List α := (m.array s.array).take s.len

/-- The array is there and as long as the slice. -/
structure Valid (m : Heap α) (s : Slice) : Prop where
  allocated : s.array < m.arrays.length
  len_le : s.len ≤ (m.array s.array).length

/-! ## Operations -/

/-- A new array, and the slice of its first elements. -/
def alloc (m : Heap α) (xs : List α) (len : ℕ) : Slice × Heap α :=
  (⟨m.arrays.length, len⟩, ⟨m.arrays ++ [xs]⟩)

/-- `make([]T, n)`. -/
def make (m : Heap α) (zero : α) (n : ℕ) : Slice × Heap α := m.alloc (List.replicate n zero) n

/-- The first elements of an array overwritten. -/
def store (m : Heap α) (a : ℕ) (xs : List α) : Heap α :=
  ⟨m.arrays.set a (xs ++ (m.array a).drop xs.length)⟩

/-- `copy(dst, src)`. -/
def copy (m : Heap α) (dst src : Slice) : Heap α :=
  m.store dst.array ((m.contents src).take dst.len)

/-- `sort`, in place. -/
def sort [LinearOrder α] (m : Heap α) (s : Slice) : Heap α :=
  m.store s.array ((m.contents s).insertionSort (· ≤ ·))

/-- `append(s, x)`. -/
def append (grow : ℕ → ℕ) (zero : α) (m : Heap α) (s : Slice) (x : α) : Slice × Heap α :=
  if s.len < (m.array s.array).length then
    (⟨s.array, s.len + 1⟩, m.store s.array (m.contents s ++ [x]))
  else
    -- the spare cells are zero
    m.alloc (m.contents s ++ x :: List.replicate (grow s.len) zero) (s.len + 1)

/-! ## What they do -/

section

variable {m : Heap α} {s s' : Slice} {a : ℕ} {xs : List α} {x zero : α} {grow : ℕ → ℕ}

theorem length_contents (h : m.Valid s) : (m.contents s).length = s.len := by
  rw [contents, List.length_take]
  exact min_eq_left h.len_le

@[simp] theorem length_store : (m.store a xs).arrays.length = m.arrays.length :=
  List.length_set ..

theorem array_store_of_ne {b : ℕ} (h : b ≠ a) : (m.store a xs).array b = m.array b := by
  unfold array store
  rw [List.getElem?_set_ne (Ne.symm h)]

theorem array_store_self (h : a < m.arrays.length) :
    (m.store a xs).array a = xs ++ (m.array a).drop xs.length := by
  rw [array, store, List.getElem?_set_self h]
  rfl

/-- **The frame**: through other arrays the same is seen. -/
theorem contents_store_of_ne (h : s.array ≠ a) : (m.store a xs).contents s = m.contents s := by
  rw [contents, array_store_of_ne h, contents]

theorem Valid.store_of_ne (hs : m.Valid s) (h : s.array ≠ a) : (m.store a xs).Valid s := by
  refine ⟨?_, ?_⟩
  · rw [length_store]
    exact hs.allocated
  · rw [array_store_of_ne h]
    exact hs.len_le

theorem contents_store_self (hs : m.Valid s) (hxs : xs.length = s.len) :
    (m.store s.array xs).contents s = xs := by
  rw [contents, array_store_self hs.allocated, List.take_append_of_le_length (by omega),
    List.take_of_length_le (by omega)]

theorem Valid.store_self (hs : m.Valid s) (hxs : xs.length = s.len) :
    (m.store s.array xs).Valid s := by
  refine ⟨?_, ?_⟩
  · rw [length_store]
    exact hs.allocated
  · rw [array_store_self hs.allocated, List.length_append]
    omega

theorem array_alloc_of_lt {len : ℕ} (h : a < m.arrays.length) :
    (m.alloc xs len).2.array a = m.array a := by
  unfold array alloc
  rw [List.getElem?_append_left h]

theorem array_alloc_self {len : ℕ} : (m.alloc xs len).2.array m.arrays.length = xs := by
  unfold array alloc
  rw [List.getElem?_concat_length]
  rfl

/-- A new array changes nothing about the old ones. -/
theorem contents_alloc_of_valid {len : ℕ} (hs : m.Valid s) :
    (m.alloc xs len).2.contents s = m.contents s := by
  rw [contents, array_alloc_of_lt hs.allocated, contents]

theorem Valid.alloc_of_valid {len : ℕ} (hs : m.Valid s) : (m.alloc xs len).2.Valid s := by
  refine ⟨?_, ?_⟩
  · have hlt := hs.allocated
    simp only [alloc, List.length_append, List.length_singleton]
    omega
  · rw [array_alloc_of_lt hs.allocated]
    exact hs.len_le

theorem contents_alloc_self {len : ℕ} :
    (m.alloc xs len).2.contents (m.alloc xs len).1 = xs.take len := by
  rw [contents]
  exact congrArg (List.take len) array_alloc_self

theorem valid_alloc {len : ℕ} (h : len ≤ xs.length) :
    (m.alloc xs len).2.Valid (m.alloc xs len).1 := by
  refine ⟨?_, ?_⟩
  · simp [alloc]
  · have harray : (m.alloc xs len).2.array (m.alloc xs len).1.array = xs := array_alloc_self
    rw [harray]
    exact h

theorem valid_make {n : ℕ} : (m.make zero n).2.Valid (m.make zero n).1 :=
  valid_alloc (List.length_replicate ..).ge

/-- The array of a new slice is nobody else's. -/
theorem make_array_ne {n : ℕ} (hs : m.Valid s) : s.array ≠ (m.make zero n).1.array :=
  hs.allocated.ne

/-- A copy of the same length shows the same. -/
theorem contents_copy (hdst : m.Valid s) (hsrc : m.Valid s') (hlen : s.len = s'.len) :
    (m.copy s s').contents s = m.contents s' := by
  have htake : (m.contents s').take s.len = m.contents s' :=
    List.take_of_length_le (by rw [length_contents hsrc]; omega)
  rw [copy, htake]
  exact contents_store_self hdst (by rw [length_contents hsrc]; omega)

theorem Valid.copy_self (hdst : m.Valid s) (hsrc : m.Valid s') (hlen : s.len = s'.len) :
    (m.copy s s').Valid s := by
  refine hdst.store_self ?_
  rw [List.length_take, length_contents hsrc]
  omega

theorem contents_sort [LinearOrder α] (hs : m.Valid s) :
    (m.sort s).contents s = (m.contents s).insertionSort (· ≤ ·) :=
  contents_store_self hs (by rw [List.length_insertionSort, length_contents hs])

theorem Valid.sort_self [LinearOrder α] (hs : m.Valid s) : (m.sort s).Valid s :=
  hs.store_self (by rw [List.length_insertionSort, length_contents hs])

/-- **Appending**, in place or not. -/
theorem contents_append (hs : m.Valid s) :
    (m.append grow zero s x).2.contents (m.append grow zero s x).1 = m.contents s ++ [x] := by
  have hlength : (m.contents s ++ [x]).length = s.len + 1 := by
    rw [List.length_append, length_contents hs]
    rfl
  unfold append
  split
  · rw [contents]
    dsimp only
    rw [array_store_self hs.allocated, List.take_append_of_le_length (by omega),
      List.take_of_length_le (by omega)]
  · rw [contents_alloc_self, List.append_cons, List.take_append_of_le_length (by omega),
      List.take_of_length_le (by omega)]

theorem Valid.append_self (hs : m.Valid s) :
    (m.append grow zero s x).2.Valid (m.append grow zero s x).1 := by
  have hlength := length_contents hs
  unfold append
  split
  · refine ⟨?_, ?_⟩
    · rw [length_store]
      exact hs.allocated
    · rw [array_store_self hs.allocated, List.length_append, List.length_append, hlength]
      dsimp only [List.length_singleton]
      omega
  · refine valid_alloc ?_
    rw [List.length_append, List.length_cons, hlength]
    omega

end

end Heap

end Memory
