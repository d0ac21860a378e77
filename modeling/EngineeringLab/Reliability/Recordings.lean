/-
The histogram in memory, under concurrent use (`metrics/percentile.go`).

For the memory `Percentile` is several steps: it makes a slice, copies the latencies into it,
sorts it in place and takes an entry. It has the read lock all the while, which keeps `Record`
out but not other calls of `Percentile`. What carries the proof is that every call works on an
array of its own (`SharedHistogram.Consistent`): then each one returns what `Percentile` is of
the latencies recorded so far (`returns_eq`), the order in which they were recorded plays no
part, and no call is noticed by another (`percentile_laws`).

The memory is a heap of arrays, and a slice is a length and the address of an array
(`Memory.Slice`). `append` writes in place as long as there is room and moves to a larger
array otherwise, so two slices may share an array for a while. The recorded latencies and
the copies of the calls in progress are such slices, and what must not happen is that two of
them overlap while one is sorted.
-/
import EngineeringLab.Concurrency.Machine
import EngineeringLab.Memory.Slice
import EngineeringLab.Reliability.Percentile

set_option autoImplicit false

open Concurrency Memory Rank

namespace EngineeringLab.Reliability

/-! ## The steps -/

/-- Where a call of `Percentile` is. It has the read lock until it returns. -/
inductive Stage where
  | locked
  | made (latencyRecordsCopy : Slice)
  | copied (latencyRecordsCopy : Slice)
  | sorted (latencyRecordsCopy : Slice)
  | returned (result : Except PercentileFailure ℚ)
  deriving DecidableEq, Repr

/-- A call of `Percentile`. -/
structure PercentileCall where
  n : ℚ
  stage : Stage
  deriving DecidableEq, Repr

/-- `metrics.Histogram`, with the memory and the calls of `Percentile` so far. -/
structure SharedHistogram where
  heap : Heap ℚ
  latencyRecords : Slice
  calls : List PercentileCall
  deriving DecidableEq, Repr

/-- `Record`, a call of `Percentile` that gets the lock, and the next step of the `i`-th call. -/
inductive HistogramMove where
  | record (ms : ℚ)
  | percentile (n : ℚ)
  | advance (i : ℕ)
  deriving DecidableEq, Repr

/-- The next step of `Percentile`. -/
def PercentileCall.advance (heap : Heap ℚ) (latencyRecords : Slice) (call : PercentileCall) :
    Option (Heap ℚ × Stage) :=
  match call.stage with
  | .locked =>
    if call.n < 0 ∨ 100 < call.n then
      some (heap, .returned (.error (.invalid
        ("percentile must be between 0 and 100, got " ++ formatFixed 2 call.n))))
    else if latencyRecords.len = 0 then some (heap, .returned (.error .errNoData))
    else
      let (latencyRecordsCopy, heap) := heap.make 0 latencyRecords.len
      some (heap, .made latencyRecordsCopy)
  | .made latencyRecordsCopy =>
    some (heap.copy latencyRecordsCopy latencyRecords, .copied latencyRecordsCopy)
  | .copied latencyRecordsCopy =>
    some (heap.sort latencyRecordsCopy, .sorted latencyRecordsCopy)
  | .sorted latencyRecordsCopy =>
    some (heap, .returned (sliceAt (heap.contents latencyRecordsCopy)
      (goInt (((latencyRecordsCopy.len - 1 : ℤ) : ℚ) * call.n / 100))))
  | .returned _ => none

namespace SharedHistogram

/-- `NewHistogram`. -/
def new : SharedHistogram :=
  let (latencyRecords, heap) := (⟨[]⟩ : Heap ℚ).make 0 0
  ⟨heap, latencyRecords, []⟩

/-- `Histogram.Record`. -/
def record (grow : ℕ → ℕ) (h : SharedHistogram) (ms : ℚ) : SharedHistogram :=
  let (latencyRecords, heap) := h.heap.append grow 0 h.latencyRecords ms
  { h with heap := heap, latencyRecords := latencyRecords }

/-- `Histogram.Count`. -/
def count (h : SharedHistogram) : ℕ := h.latencyRecords.len

/-- Does the call still have the read lock? -/
def holdsLock (call : PercentileCall) : Bool :=
  match call.stage with
  | .returned _ => false
  | _ => true

/-- One step. `Record` has the lock to itself. -/
def step (grow : ℕ → ℕ) (h : SharedHistogram) : HistogramMove → Option SharedHistogram
  | .record ms => if h.calls.any holdsLock then none else some (h.record grow ms)
  | .percentile n => some { h with calls := h.calls ++ [⟨n, .locked⟩] }
  | .advance i => do
    let call ← h.calls[i]?
    let (heap, stage) ← call.advance h.heap h.latencyRecords
    return { h with heap := heap, calls := h.calls.set i ⟨call.n, stage⟩ }

/-- `make` leaves the capacity of a longer slice to the runtime: `grow` says what `append`
makes of it. -/
def machine (grow : ℕ → ℕ) : Machine SharedHistogram HistogramMove := ⟨new, step grow⟩

end SharedHistogram

/-- The latencies that were recorded, in order. -/
def recordings (moves : List HistogramMove) : List ℚ :=
  moves.filterMap fun
    | .record ms => some ms
    | _ => none

/-- After these moves a call of `Percentile` with `n` returns `r`. -/
def Returns (grow : ℕ → ℕ) (moves : List HistogramMove) (n : ℚ)
    (r : Except PercentileFailure ℚ) : Prop :=
  ∃ h h' i, (SharedHistogram.machine grow).run moves = some h ∧
    h.step grow (.advance i) = some h' ∧ h'.calls[i]? = some ⟨n, .returned r⟩

/-! ## An array for each call -/

/-- The array a call works on. -/
def Stage.slice : Stage → Option Slice
  | .locked => none
  | .made latencyRecordsCopy => some latencyRecordsCopy
  | .copied latencyRecordsCopy => some latencyRecordsCopy
  | .sorted latencyRecordsCopy => some latencyRecordsCopy
  | .returned _ => none

/-- A call that was not refused, and its slice for a copy of the latencies. -/
structure OwnCopy (heap : Heap ℚ) (latencyRecords s : Slice) (n : ℚ) : Prop where
  valid : heap.Valid s
  len_eq : s.len = latencyRecords.len
  array_ne : latencyRecords.array ≠ s.array
  len_ne_zero : latencyRecords.len ≠ 0
  nonneg : 0 ≤ n
  le_hundred : n ≤ 100

/-- What a call has done so far. -/
def PercentileCall.Ok (heap : Heap ℚ) (latencyRecords : Slice) (call : PercentileCall) : Prop :=
  match call.stage with
  | .locked => True
  | .made s => OwnCopy heap latencyRecords s call.n
  | .copied s =>
    OwnCopy heap latencyRecords s call.n ∧ heap.contents s = heap.contents latencyRecords
  | .sorted s =>
    OwnCopy heap latencyRecords s call.n ∧
      heap.contents s = (heap.contents latencyRecords).insertionSort (· ≤ ·)
  | .returned _ => True

/-- The same is seen through a slice as before. -/
structure Keeps (heap heap' : Heap ℚ) (s : Slice) : Prop where
  valid : heap'.Valid s
  contents : heap'.contents s = heap.contents s

/-- What the next step of `Percentile` can be. -/
inductive Advances (heap : Heap ℚ) (latencyRecords : Slice) (n : ℚ) :
    Stage → Heap ℚ → Stage → Prop
  | refuse {e : PercentileFailure}
      (he : ∀ latencies : List ℚ, latencies.length = latencyRecords.len →
        (⟨latencies⟩ : Histogram).percentile n = .error e) :
      Advances heap latencyRecords n .locked heap (.returned (.error e))
  | make (hlen : latencyRecords.len ≠ 0) (h0 : 0 ≤ n) (h100 : n ≤ 100) :
      Advances heap latencyRecords n .locked (heap.make 0 latencyRecords.len).2
        (.made (heap.make 0 latencyRecords.len).1)
  | copy (s : Slice) :
      Advances heap latencyRecords n (.made s) (heap.copy s latencyRecords) (.copied s)
  | sort (s : Slice) : Advances heap latencyRecords n (.copied s) (heap.sort s) (.sorted s)
  | take (s : Slice) :
      Advances heap latencyRecords n (.sorted s) heap
        (.returned (sliceAt (heap.contents s) (goInt (((s.len - 1 : ℤ) : ℚ) * n / 100))))

section

variable {heap heap' : Heap ℚ} {latencyRecords s t : Slice} {n : ℚ} {stage stage' : Stage}

theorem advances_of_advance {call : PercentileCall}
    (h : call.advance heap latencyRecords = some (heap', stage')) :
    Advances heap latencyRecords call.n call.stage heap' stage' := by
  obtain ⟨n, stage⟩ := call
  cases stage with
  | locked =>
      unfold PercentileCall.advance at h
      dsimp only at h ⊢
      -- `n` out of range, nothing recorded, or a slice to fill
      split_ifs at h with hrange hlen
      · cases h
        refine .refuse fun latencies _ => ?_
        rw [Histogram.percentile, if_pos hrange]
      · cases h
        refine .refuse fun latencies hlatencies => ?_
        rw [Histogram.percentile, if_neg hrange, if_pos (hlatencies.trans hlen)]
      · cases h
        obtain ⟨h0, h100⟩ := not_or.mp hrange
        exact .make hlen (not_lt.mp h0) (not_lt.mp h100)
  | made s =>
      cases h
      exact .copy s
  | copied s =>
      cases h
      exact .sort s
  | sorted s =>
      cases h
      exact .take s
  | returned result => cases h

/-- **The frame**: a call writes to its own array only. -/
theorem Advances.keeps (h : Advances heap latencyRecords n stage heap' stage')
    (hs : heap.Valid s) (hne : ∀ t ∈ stage.slice, s.array ≠ t.array) : Keeps heap heap' s := by
  cases h with
  | refuse he => exact ⟨hs, rfl⟩
  | make hlen h0 h100 => exact ⟨hs.alloc_of_valid, Heap.contents_alloc_of_valid hs⟩
  | copy t =>
      have harray : s.array ≠ t.array := hne t rfl
      exact ⟨hs.store_of_ne harray, Heap.contents_store_of_ne harray⟩
  | sort t =>
      have harray : s.array ≠ t.array := hne t rfl
      exact ⟨hs.store_of_ne harray, Heap.contents_store_of_ne harray⟩
  | take t => exact ⟨hs, rfl⟩

/-- An array is a call's own from the start. -/
theorem Advances.slice_cases (h : Advances heap latencyRecords n stage heap' stage')
    (ht : t ∈ stage'.slice) : t ∈ stage.slice ∨ t.array = heap.arrays.length := by
  cases h with
  | refuse he => cases ht
  | make hlen h0 h100 =>
      cases ht
      exact .inr rfl
  | copy s => exact .inl ht
  | sort s => exact .inl ht
  | take s => cases ht

theorem PercentileCall.Ok.ownCopy {call : PercentileCall} (h : call.Ok heap latencyRecords)
    (hs : s ∈ call.stage.slice) : OwnCopy heap latencyRecords s call.n := by
  obtain ⟨n, stage⟩ := call
  cases stage with
  | locked => cases hs
  | made t =>
      cases hs
      exact h
  | copied t =>
      cases hs
      exact h.1
  | sorted t =>
      cases hs
      exact h.1
  | returned result => cases hs

theorem OwnCopy.mono (h : OwnCopy heap latencyRecords s n) (hs : heap'.Valid s) :
    OwnCopy heap' latencyRecords s n where
  valid := hs
  len_eq := h.len_eq
  array_ne := h.array_ne
  len_ne_zero := h.len_ne_zero
  nonneg := h.nonneg
  le_hundred := h.le_hundred

/-- What others do does not matter to a call. -/
theorem PercentileCall.Ok.keep {call : PercentileCall} (h : call.Ok heap latencyRecords)
    (hrecords : Keeps heap heap' latencyRecords)
    (hown : ∀ s ∈ call.stage.slice, Keeps heap heap' s) : call.Ok heap' latencyRecords := by
  obtain ⟨n, stage⟩ := call
  cases stage with
  | locked => trivial
  | made s => exact OwnCopy.mono h (hown s rfl).valid
  | copied s =>
      refine ⟨h.1.mono (hown s rfl).valid, ?_⟩
      rw [(hown s rfl).contents, hrecords.contents]
      exact h.2
  | sorted s =>
      refine ⟨h.1.mono (hown s rfl).valid, ?_⟩
      rw [(hown s rfl).contents, hrecords.contents]
      exact h.2
  | returned result => trivial

/-- **What a call does itself.** -/
theorem Advances.ok (h : Advances heap latencyRecords n stage heap' stage')
    (hrecords : heap.Valid latencyRecords)
    (hok : (⟨n, stage⟩ : PercentileCall).Ok heap latencyRecords) :
    (⟨n, stage'⟩ : PercentileCall).Ok heap' latencyRecords := by
  cases h with
  | refuse he => trivial
  | make hlen h0 h100 =>
      exact ⟨Heap.valid_make, rfl, Heap.make_array_ne hrecords, hlen, h0, h100⟩
  | copy s =>
      have hcopy : OwnCopy heap latencyRecords s n := hok
      refine ⟨hcopy.mono (hcopy.valid.copy_self hrecords hcopy.len_eq), ?_⟩
      rw [Heap.contents_copy hcopy.valid hrecords hcopy.len_eq, Heap.copy,
        Heap.contents_store_of_ne hcopy.array_ne]
  | sort s =>
      obtain ⟨hcopy, hcontents⟩ := hok
      refine ⟨hcopy.mono hcopy.valid.sort_self, ?_⟩
      rw [Heap.contents_sort hcopy.valid, hcontents, Heap.sort,
        Heap.contents_store_of_ne hcopy.array_ne]
  | take s => trivial

/-- **What a call returns**: `Percentile` of the latencies. -/
theorem Advances.result {r : Except PercentileFailure ℚ}
    (h : Advances heap latencyRecords n stage heap' (.returned r))
    (hrecords : heap.Valid latencyRecords)
    (hok : (⟨n, stage⟩ : PercentileCall).Ok heap latencyRecords) :
    r = (⟨heap.contents latencyRecords⟩ : Histogram).percentile n := by
  have hlength := Heap.length_contents hrecords
  cases h with
  | refuse he => exact (he _ hlength).symm
  | take s =>
      obtain ⟨hcopy, hcontents⟩ := hok
      have hrange : ¬ (n < 0 ∨ 100 < n) :=
        not_or.mpr ⟨not_lt.mpr hcopy.nonneg, not_lt.mpr hcopy.le_hundred⟩
      have hne : ¬ (heap.contents latencyRecords).length = 0 := by
        rw [hlength]
        exact hcopy.len_ne_zero
      rw [Histogram.percentile, if_neg hrange, if_neg hne]
      dsimp only
      rw [List.length_insertionSort, hlength, hcontents, hcopy.len_eq]

end

namespace SharedHistogram

variable {grow : ℕ → ℕ} {h h' : SharedHistogram} {past moves : List HistogramMove}
  {move : HistogramMove} {n : ℚ} {r : Except PercentileFailure ℚ}

/-- **Every call works on an array of its own.** -/
structure Consistent (past : List HistogramMove) (h : SharedHistogram) : Prop where
  valid : h.heap.Valid h.latencyRecords
  recorded : h.heap.contents h.latencyRecords = recordings past
  calls : ∀ call ∈ h.calls, call.Ok h.heap h.latencyRecords
  apart : ∀ (i j : ℕ) (call call' : PercentileCall) (s s' : Slice),
    h.calls[i]? = some call → h.calls[j]? = some call' →
    s ∈ call.stage.slice → s' ∈ call'.stage.slice → s.array = s'.array → i = j

/-- What a step can be. -/
theorem step_cases (hs : h.step grow move = some h') :
    (∃ ms, move = .record ms ∧ h.calls.any holdsLock = false ∧ h' = h.record grow ms) ∨
      (∃ n, move = .percentile n ∧ h' = { h with calls := h.calls ++ [⟨n, .locked⟩] }) ∨
      ∃ i call heap stage, move = .advance i ∧ h.calls[i]? = some call ∧
        Advances h.heap h.latencyRecords call.n call.stage heap stage ∧
        h' = { h with heap := heap, calls := h.calls.set i ⟨call.n, stage⟩ } := by
  cases move with
  | record ms =>
      simp only [step] at hs
      split_ifs at hs with hlock
      cases hs
      exact .inl ⟨ms, rfl, Bool.eq_false_iff.mpr hlock, rfl⟩
  | percentile n =>
      cases hs
      exact .inr (.inl ⟨n, rfl, rfl⟩)
  | advance i =>
      obtain ⟨call, hcall, hrest⟩ := Option.bind_eq_some_iff.mp hs
      obtain ⟨⟨heap, stage⟩, hadvance, hrest⟩ := Option.bind_eq_some_iff.mp hrest
      cases hrest
      exact .inr (.inr ⟨i, call, heap, stage, rfl, hcall, advances_of_advance hadvance, rfl⟩)

theorem consistent_new : Consistent [] new where
  valid := Heap.valid_make
  recorded := rfl
  calls := fun _ hcall => nomatch hcall
  apart := fun i j call call' s s' hi => by cases hi

/-- A recording finds nobody with a copy. -/
theorem Consistent.record (hc : Consistent past h) (hlock : h.calls.any holdsLock = false)
    (ms : ℚ) : Consistent (past ++ [.record ms]) (h.record grow ms) := by
  have hnone : ∀ call ∈ h.calls, ∃ result, call.stage = .returned result := by
    intro call hcall
    have hreturned : holdsLock call ≠ true := List.any_eq_false.mp hlock call hcall
    unfold holdsLock at hreturned
    split at hreturned
    · exact ⟨_, by assumption⟩
    · exact absurd rfl hreturned
  refine ⟨hc.valid.append_self, ?_, ?_, ?_⟩
  · rw [recordings, List.filterMap_append]
    exact (Heap.contents_append hc.valid).trans (congrArg (· ++ [ms]) hc.recorded)
  · intro call hcall
    obtain ⟨result, hresult⟩ := hnone call hcall
    unfold PercentileCall.Ok
    rw [hresult]
    trivial
  · intro i j call call' s s' hi hj hs
    obtain ⟨result, hresult⟩ := hnone call (List.mem_of_getElem? hi)
    rw [hresult] at hs
    cases hs

theorem Consistent.percentile (hc : Consistent past h) (n : ℚ) :
    Consistent (past ++ [.percentile n]) { h with calls := h.calls ++ [⟨n, .locked⟩] } := by
  refine ⟨hc.valid, ?_, ?_, ?_⟩
  · rw [recordings, List.filterMap_append]
    exact hc.recorded.trans (List.append_nil _).symm
  · intro call hcall
    rcases List.mem_append.mp hcall with hold | hnew
    · exact hc.calls call hold
    · rw [List.mem_singleton.mp hnew]
      trivial
  · -- the new call has no slice yet
    have hold : ∀ (i : ℕ) (call : PercentileCall) (s : Slice),
        (h.calls ++ [⟨n, .locked⟩])[i]? = some call →
        s ∈ call.stage.slice → h.calls[i]? = some call := by
      intro i call s hi hs
      rw [List.getElem?_append] at hi
      split at hi
      · exact hi
      · rw [List.mem_singleton.mp (List.mem_of_getElem? hi)] at hs
        cases hs
    intro i j call call' s s' hi hj hs hs'
    exact hc.apart i j call call' s s' (hold i call s hi hs) (hold j call' s' hj hs') hs hs'

theorem Consistent.allocated (hc : Consistent past h) {i : ℕ} {call : PercentileCall} {s : Slice}
    (hi : h.calls[i]? = some call) (hs : s ∈ call.stage.slice) :
    s.array < h.heap.arrays.length :=
  ((hc.calls call (List.mem_of_getElem? hi)).ownCopy hs).valid.allocated

/-- A slice is one of before, or the call has just made it. -/
theorem slice_set_cases {calls : List PercentileCall} {i j : ℕ} {call call' : PercentileCall}
    {s latencyRecords : Slice} {heap heap' : Heap ℚ} {stage : Stage}
    (hi : calls[i]? = some call)
    (hadvance : Advances heap latencyRecords call.n call.stage heap' stage)
    (hj : (calls.set i ⟨call.n, stage⟩)[j]? = some call') (hs : s ∈ call'.stage.slice) :
    (∃ old, calls[j]? = some old ∧ s ∈ old.stage.slice) ∨
      (i = j ∧ s.array = heap.arrays.length) := by
  by_cases hne : i = j
  · subst hne
    rw [List.getElem?_set_self (List.getElem?_eq_some_iff.mp hi).1] at hj
    cases hj
    rcases hadvance.slice_cases hs with hold | hnew
    · exact .inl ⟨call, hi, hold⟩
    · exact .inr ⟨rfl, hnew⟩
  · rw [List.getElem?_set_ne hne] at hj
    exact .inl ⟨call', hj, hs⟩

/-- **A step of a call** leaves the others as they were. -/
theorem Consistent.advance (hc : Consistent past h) {i : ℕ} {call : PercentileCall}
    {heap : Heap ℚ} {stage : Stage} (hi : h.calls[i]? = some call)
    (hadvance : Advances h.heap h.latencyRecords call.n call.stage heap stage) :
    Consistent (past ++ [.advance i])
      { h with heap := heap, calls := h.calls.set i ⟨call.n, stage⟩ } := by
  have hok := hc.calls call (List.mem_of_getElem? hi)
  have hrecords : Keeps h.heap heap h.latencyRecords :=
    hadvance.keeps hc.valid fun s hs => (hok.ownCopy hs).array_ne
  -- the slices of the others are as they were
  have hother : ∀ (j : ℕ) (call' : PercentileCall), i ≠ j → h.calls[j]? = some call' →
      ∀ s ∈ call'.stage.slice, Keeps h.heap heap s := by
    intro j call' hne hj s hs
    have hcopy := (hc.calls call' (List.mem_of_getElem? hj)).ownCopy hs
    refine hadvance.keeps hcopy.valid fun t ht harray => hne ?_
    exact hc.apart i j call call' t s hi hj ht hs harray.symm
  refine ⟨hrecords.valid, ?_, ?_, ?_⟩
  · rw [recordings, List.filterMap_append]
    exact (hrecords.contents.trans hc.recorded).trans (List.append_nil _).symm
  · intro call' hcall'
    obtain ⟨j, hj⟩ := List.mem_iff_getElem?.mp hcall'
    by_cases hne : i = j
    · subst hne
      rw [List.getElem?_set_self (List.getElem?_eq_some_iff.mp hi).1] at hj
      cases hj
      exact hadvance.ok hc.valid hok
    · rw [List.getElem?_set_ne hne] at hj
      exact (hc.calls call' (List.mem_of_getElem? hj)).keep hrecords (hother j call' hne hj)
  · intro j k call₁ call₂ s t hj hk hs ht harray
    rcases slice_set_cases hi hadvance hj hs with ⟨old₁, hold₁, hs'⟩ | ⟨rfl, hnew₁⟩
    · have hlt := hc.allocated hold₁ hs'
      rcases slice_set_cases hi hadvance hk ht with ⟨old₂, hold₂, ht'⟩ | ⟨rfl, hnew₂⟩
      · exact hc.apart j k old₁ old₂ s t hold₁ hold₂ hs' ht' harray
      · omega
    · rcases slice_set_cases hi hadvance hk ht with ⟨old₂, hold₂, ht'⟩ | ⟨rfl, hnew₂⟩
      · have hlt := hc.allocated hold₂ ht'
        omega
      · rfl

theorem Consistent.step (hc : Consistent past h) (hs : h.step grow move = some h') :
    Consistent (past ++ [move]) h' := by
  rcases step_cases hs with ⟨ms, rfl, hlock, rfl⟩ | ⟨n, rfl, rfl⟩ |
    ⟨i, call, heap, stage, rfl, hi, hadvance, rfl⟩
  · exact hc.record hlock ms
  · exact hc.percentile n
  · exact hc.advance hi hadvance

theorem consistent_run (hrun : (machine grow).run moves = some h) : Consistent moves h :=
  Machine.invariant_along consistent_new (fun _ _ _ _ hc hs => hc.step hs) hrun

/-- **A call returns** what `Percentile` is of the latencies recorded so far, as if it had been
alone. -/
theorem returns_eq (hr : Returns grow moves n r) :
    r = (Histogram.recordAll (recordings moves)).percentile n := by
  obtain ⟨h, h', i, hrun, hs, hi'⟩ := hr
  have hc := consistent_run hrun
  rcases step_cases hs with ⟨ms, hmove, -⟩ | ⟨m, hmove, -⟩ |
    ⟨j, call, heap, stage, hmove, hi, hadvance, rfl⟩
  · cases hmove
  · cases hmove
  · cases hmove
    rw [List.getElem?_set_self (List.getElem?_eq_some_iff.mp hi).1] at hi'
    cases hi'
    have hresult := hadvance.result hc.valid (hc.calls call (List.mem_of_getElem? hi))
    rw [hc.recorded] at hresult
    rw [Histogram.recordAll_eq]
    exact hresult

theorem count_eq (hrun : (machine grow).run moves = some h) :
    h.count = (recordings moves).length := by
  have hc := consistent_run hrun
  rw [← hc.recorded, Heap.length_contents hc.valid]
  rfl

end SharedHistogram

/-! ## No call waits -/

/-- How many steps a call is from its last one. -/
def Stage.left : Stage → ℕ
  | .locked => 3
  | .made _ => 2
  | .copied _ => 1
  | .sorted _ => 0
  | .returned _ => 0

theorem exists_advance {call : PercentileCall} (hlock : SharedHistogram.holdsLock call = true)
    (heap : Heap ℚ) (latencyRecords : Slice) :
    ∃ heap' stage', call.advance heap latencyRecords = some (heap', stage') ∧
      ((∃ r, stage' = .returned r) ∨ stage'.left < call.stage.left ∧
        SharedHistogram.holdsLock ⟨call.n, stage'⟩ = true) := by
  obtain ⟨n, stage⟩ := call
  cases stage with
  | locked =>
      simp only [PercentileCall.advance]
      split_ifs with hrange hlen
      · exact ⟨_, _, rfl, .inl ⟨_, rfl⟩⟩
      · exact ⟨_, _, rfl, .inl ⟨_, rfl⟩⟩
      · exact ⟨_, _, rfl, .inr ⟨Nat.lt_succ_self _, rfl⟩⟩
  | made s => exact ⟨_, _, rfl, .inr ⟨Nat.lt_succ_self _, rfl⟩⟩
  | copied s => exact ⟨_, _, rfl, .inr ⟨Nat.lt_succ_self _, rfl⟩⟩
  | sorted s => exact ⟨_, _, rfl, .inl ⟨_, rfl⟩⟩
  | returned result => cases hlock

open SharedHistogram in
/-- **A call that has the lock returns** by its own steps alone. The induction is on the
number of steps that its stage has left. -/
theorem exists_returns {grow : ℕ → ℕ} {moves : List HistogramMove} {h : SharedHistogram} {i : ℕ}
    {call : PercentileCall} (hrun : (machine grow).run moves = some h)
    (hi : h.calls[i]? = some call) (hlock : holdsLock call = true) :
    ∃ k r, Returns grow (moves ++ List.replicate k (.advance i)) call.n r := by
  induction hleft : call.stage.left using Nat.strong_induction_on generalizing moves h call with
  | _ left ih =>
      obtain ⟨heap, stage, hadvance, hnext⟩ := exists_advance hlock h.heap h.latencyRecords
      have hs : (machine grow).step h (.advance i) =
          some { h with heap := heap, calls := h.calls.set i ⟨call.n, stage⟩ } := by
        simp only [machine, step, hi, Option.bind_eq_bind, Option.bind_some, hadvance, pure]
      have hi' : (h.calls.set i ⟨call.n, stage⟩)[i]? = some ⟨call.n, stage⟩ :=
        List.getElem?_set_self (List.getElem?_eq_some_iff.mp hi).1
      rcases hnext with ⟨r, rfl⟩ | ⟨hless, hlock'⟩
      · refine ⟨0, r, h, _, i, ?_, hs, hi'⟩
        rw [List.replicate_zero, List.append_nil]
        exact hrun
      · obtain ⟨k, r, hr⟩ := ih _ (hleft ▸ hless) (Machine.run_concat hrun hs) hi' hlock' rfl
        refine ⟨k + 1, r, ?_⟩
        rw [List.replicate_succ, List.append_cons]
        exact hr

/-! ## The laws -/

/-- In some run that records these latencies, in whatever order, a call of `Percentile` with `n`
returns `r` after the last of them. -/
def Answers (grow : ℕ → ℕ) (latencies : List ℚ) (n : ℚ)
    (r : Except PercentileFailure ℚ) : Prop :=
  ∃ moves, (recordings moves).Perm latencies ∧ Returns grow moves n r

section

variable {grow : ℕ → ℕ} {latencies : List ℚ} {n m : ℚ} {r : Except PercentileFailure ℚ}

theorem Answers.eq (h : Answers grow latencies n r) :
    r = (Histogram.recordAll latencies).percentile n := by
  obtain ⟨moves, hperm, hr⟩ := h
  have hreturned := SharedHistogram.returns_eq hr
  rw [Histogram.recordAll_eq] at hreturned ⊢
  rw [hreturned, percentile_congr hperm]

/-- An answer in range is an entry of the sorted latencies. -/
theorem Answers.eq_entry (h : Answers grow latencies n r) (hne : latencies ≠ []) (h0 : 0 ≤ n)
    (h100 : n ≤ 100) :
    ∃ hk : lowerRank latencies.length n < (latencies.insertionSort (· ≤ ·)).length,
      r = .ok (latencies.insertionSort (· ≤ ·))[lowerRank latencies.length n] := by
  have hk : lowerRank latencies.length n < (latencies.insertionSort (· ≤ ·)).length := by
    rw [List.length_insertionSort]
    exact lowerRank_lt (List.length_pos_iff.mpr hne) h0 h100
  refine ⟨hk, ?_⟩
  rw [h.eq, percentile_recordAll hne h0 h100 hk]

/-- The index that a call takes its entry at is there. -/
theorem exists_index {moves : List HistogramMove} {h : SharedHistogram} {call : PercentileCall}
    {s : Slice} (hrun : (SharedHistogram.machine grow).run moves = some h)
    (hcall : call ∈ h.calls) (hsorted : call.stage = .sorted s) :
    ∃ k : ℕ, goInt (((s.len - 1 : ℤ) : ℚ) * call.n / 100) = k ∧
      k < (h.heap.contents s).length := by
  have hok := (SharedHistogram.consistent_run hrun).calls call hcall
  have hcopy := hok.ownCopy (s := s) (by rw [hsorted]; rfl)
  have hlen : 0 < s.len := by
    rw [hcopy.len_eq]
    exact Nat.pos_of_ne_zero hcopy.len_ne_zero
  refine ⟨lowerRank s.len call.n, goInt_index hlen hcopy.nonneg, ?_⟩
  rw [Heap.length_contents hcopy.valid]
  exact lowerRank_lt hlen hcopy.nonneg hcopy.le_hundred

end

/-- What holds of the calls of `Percentile` and `Count`, in all runs that record these
latencies. -/
structure PercentileLaws (grow : ℕ → ℕ) (latencies : List ℚ) : Prop where
  /-- The index is within the sorted copy. -/
  index : ∀ (moves : List HistogramMove) (h : SharedHistogram) (call : PercentileCall)
    (s : Slice), (SharedHistogram.machine grow).run moves = some h → call ∈ h.calls →
      call.stage = .sorted s →
      ∃ k : ℕ, goInt (((s.len - 1 : ℤ) : ℚ) * call.n / 100) = k ∧
        k < (h.heap.contents s).length
  entry : ∀ n r, Answers grow latencies n r → 0 ≤ n → n ≤ 100 → ∃ v ∈ latencies, r = .ok v
  minimum : ∀ r, Answers grow latencies 0 r →
    ∃ v ∈ latencies, r = .ok v ∧ ∀ x ∈ latencies, v ≤ x
  maximum : ∀ r, Answers grow latencies 100 r →
    ∃ v ∈ latencies, r = .ok v ∧ ∀ x ∈ latencies, x ≤ v
  monotone : ∀ n m r r', Answers grow latencies n r → Answers grow latencies m r' → 0 ≤ n →
    n ≤ m → m ≤ 100 → ∃ v w, r = .ok v ∧ r' = .ok w ∧ v ≤ w
  /-- The order of the recordings and the other calls play no part. -/
  same : ∀ n r r', Answers grow latencies n r → Answers grow latencies n r' → r = r'
  count : ∀ (moves : List HistogramMove) (h : SharedHistogram),
    (SharedHistogram.machine grow).run moves = some h → (recordings moves).Perm latencies →
      h.count = latencies.length
  /-- Calls that one run has and another has not change neither what is returned later nor
  `Count`. `after'` is `after` with the later calls numbered anew. -/
  undisturbed : ∀ before calls after after' : List HistogramMove, recordings calls = [] →
    recordings after' = recordings after →
      (∀ n r r', Returns grow (before ++ calls ++ after) n r →
        Returns grow (before ++ after') n r' → r = r') ∧
      ∀ h h', (SharedHistogram.machine grow).run (before ++ calls ++ after) = some h →
        (SharedHistogram.machine grow).run (before ++ after') = some h' → h.count = h'.count
  /-- Every call that has the lock can go on until it returns. -/
  returns : ∀ (moves : List HistogramMove) (h : SharedHistogram) (i : ℕ) (call : PercentileCall),
    (SharedHistogram.machine grow).run moves = some h → h.calls[i]? = some call →
      SharedHistogram.holdsLock call = true →
      ∃ k r, Returns grow (moves ++ List.replicate k (.advance i)) call.n r

/-- **Percentiles are order-free, monotone and in range**, whatever calls of `Record` and
`Percentile` come in between: each call answers by the latencies recorded before it, takes
an entry that is there, answers no less for a larger `n`, and is noticed by no other call. -/
theorem percentile_laws (grow : ℕ → ℕ) {latencies : List ℚ} (hne : latencies ≠ []) :
    PercentileLaws grow latencies := by
  have hlen : 0 < latencies.length := List.length_pos_iff.mpr hne
  have hsorted : (latencies.insertionSort (· ≤ ·)).Pairwise (· ≤ ·) :=
    List.pairwise_insertionSort (· ≤ ·) latencies
  have hmem : ∀ x, x ∈ latencies.insertionSort (· ≤ ·) ↔ x ∈ latencies :=
    fun x => List.mem_insertionSort (· ≤ ·)
  refine ⟨?_, ?_, ?_, ?_, ?_, ?_, ?_, ?_, ?_⟩
  · -- the index is within the copy
    intro moves h call s hrun hcall hs
    exact exists_index hrun hcall hs
  · -- the value is one of the latencies
    intro n r hr h0 h100
    obtain ⟨hk, rfl⟩ := hr.eq_entry hne h0 h100
    exact ⟨_, (hmem _).mp (List.getElem_mem hk), rfl⟩
  · -- the percentile of zero is the least of them
    intro r hr
    obtain ⟨hk, rfl⟩ := hr.eq_entry hne (le_refl 0) (by norm_num)
    refine ⟨_, (hmem _).mp (List.getElem_mem hk), rfl, fun x hx => ?_⟩
    simp only [lowerRank_zero]
    exact getElem_zero_le hsorted ((hmem x).mpr hx) _
  · intro r hr
    obtain ⟨hk, rfl⟩ := hr.eq_entry hne (by norm_num) (le_refl 100)
    refine ⟨_, (hmem _).mp (List.getElem_mem hk), rfl, fun x hx => ?_⟩
    apply le_getElem_last hsorted ((hmem x).mpr hx) hk
    rw [List.length_insertionSort, lowerRank_hundred hlen]
    omega
  · -- monotone in `n`, as the index is
    intro n m r r' hr hr' h0 hnm h100
    obtain ⟨hk, rfl⟩ := hr.eq_entry hne h0 (hnm.trans h100)
    obtain ⟨hk', rfl⟩ := hr'.eq_entry hne (h0.trans hnm) h100
    exact ⟨_, _, rfl, rfl, getElem_mono hsorted (lowerRank_mono hlen hnm) hk'⟩
  · -- one answer, in whatever order the calls were made
    intro n r r' hr hr'
    exact hr.eq.trans hr'.eq.symm
  · intro moves h hrun hperm
    rw [SharedHistogram.count_eq hrun, hperm.length_eq]
  · -- calls that record nothing make no difference to what comes later
    intro before calls after after' hcalls hafter
    have hsame : recordings (before ++ calls ++ after) = recordings (before ++ after') := by
      unfold recordings at hcalls hafter ⊢
      rw [List.filterMap_append, List.filterMap_append, List.filterMap_append, hcalls, hafter,
        List.append_nil]
    refine ⟨fun n r r' hr hr' => ?_, fun h h' hrun hrun' => ?_⟩
    · rw [SharedHistogram.returns_eq hr, SharedHistogram.returns_eq hr', hsame]
    · rw [SharedHistogram.count_eq hrun, SharedHistogram.count_eq hrun', hsame]
  · -- whoever holds the lock gets done
    intro moves h i call hrun hi hlock
    exact exists_returns hrun hi hlock

/-- Two calls that overlap, each with a copy of its own, after three recordings. Both have
made their slices before either sorts. -/
theorem percentile_laws_example :
    PercentileLaws id [10, 20, 30] ∧ Answers id [10, 20, 30] 50 (.ok 20) := by
  refine ⟨percentile_laws id (by simp), [.record 30, .record 10, .record 20, .percentile 100,
    .percentile 50, .advance 0, .advance 1, .advance 1, .advance 0, .advance 1, .advance 0],
    by decide, _, _, 1, rfl, rfl, ?_⟩
  decide +kernel

end EngineeringLab.Reliability
