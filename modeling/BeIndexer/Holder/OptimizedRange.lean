import BeIndexer.Holder.Range
import BeIndexer.Lib.SegmentTree
import Mathlib.Data.List.Destutter
import Mathlib.Order.Bounds.Basic

/-!
# The optimised range container (`optimized_range_holder.go`)

Coordinates are collected while expressions are prepared and committed; compiling sorts them and
inserts the pending ranges, as index intervals, into a segment tree. A query value that is no
coordinate is answered as the next larger coordinate.
-/

namespace BeIndexer

/-! ### Coordinates -/

/-- `valueToIdx` has the values as its keys, and after `Build` their positions as its values. -/
structure CoordinateCompressor where
  values : List Int64
  built : Bool
  nodup : values.Nodup
  sorted : built = true → values.Pairwise (· < ·)

def newCoordinateCompressor : CoordinateCompressor where
  values := []
  built := false
  nodup := List.nodup_nil
  sorted := nofun

namespace CoordinateCompressor

def addValue (cc : CoordinateCompressor) (v : Int64) : Go CoordinateCompressor :=
  if h : cc.built then panicf "compressor already built" []
  else if new : v ∈ cc.values then .ok cc
  else .ok {
    values := cc.values ++ [v]
    built := false
    nodup := by
      rw [List.nodup_append]
      refine ⟨cc.nodup, by simp, fun a ha b hb => ?_⟩
      rintro rfl
      exact new (List.mem_singleton.mp hb ▸ ha)
    sorted := nofun }

theorem sorted_lt {values : List Int64} (nodup : values.Nodup) :
    (values.insertionSort (· ≤ ·)).Pairwise (· < ·) := by
  have le := List.pairwise_insertionSort (· ≤ ·) values
  have ne : (values.insertionSort (· ≤ ·)).Nodup := (List.perm_insertionSort _ _).nodup_iff.mpr nodup
  exact (le.and ne).imp fun h => lt_of_le_of_ne h.1 h.2

/-- The sorted values are distinct already, so the loop that drops repeats drops none. -/
theorem unique_eq {values : List Int64} (nodup : values.Nodup) :
    (values.insertionSort (· ≤ ·)).destutter (· ≠ ·) = values.insertionSort (· ≤ ·) :=
  (List.destutter_eq_self_iff _ _).mpr ((sorted_lt nodup).imp ne_of_lt).isChain

def build (cc : CoordinateCompressor) : CoordinateCompressor :=
  if cc.built then cc
  else {
    values := (cc.values.insertionSort (· ≤ ·)).destutter (· ≠ ·)
    built := true
    nodup := by
      rw [unique_eq cc.nodup]
      exact (List.perm_insertionSort _ _).nodup_iff.mpr cc.nodup
    sorted := fun _ => by
      rw [unique_eq cc.nodup]
      exact sorted_lt cc.nodup }

def getIdx (cc : CoordinateCompressor) (v : Int64) : Option Nat :=
  if v ∈ cc.values then some (cc.values.idxOf v) else none

def findIdx (cc : CoordinateCompressor) (v : Int64) : Nat :=
  SortedSearch.search cc.values.length fun i => (cc.values[i]?).elim true fun c => decide (c ≥ v)

/-- `FindRange`; a right end before the left one is replaced by it. -/
def findRange (cc : CoordinateCompressor) (left right : Int64) : Nat × Nat :=
  (cc.findIdx left, max (cc.findIdx left) (cc.findIdx right - 1))

def size (cc : CoordinateCompressor) : Nat := cc.values.length

end CoordinateCompressor

/-! ### The container -/

/-- `OptimizedRangeTxData` has the fields of `RangeTxData`. -/
abbrev OptimizedRangeTxData := RangeTxData

structure PendingRange where
  left : Int64
  right : Int64
  eid : EntryID

structure OptimizedRangeHolder where
  option : RangeHolderOption
  compressor : CoordinateCompressor
  pendingRanges : List PendingRange
  built : Bool
  compressedSize : Nat
  root : SegmentTree EntryID 0 (compressedSize - 1)

def newOptimizedRangeHolder (option : RangeHolderOption) : OptimizedRangeHolder where
  option := option
  compressor := newCoordinateCompressor
  pendingRanges := []
  built := false
  compressedSize := 0
  root := .nil

namespace OptimizedRangeHolder

variable [FloatOps]

/-- `BuildFieldIndexingData`, which collects the ends of a kept interval as coordinates. -/
def buildFieldIndexingData (h : OptimizedRangeHolder) (field : BEField) (values : BoolValues) :
    Go (OptimizedRangeHolder × OptimizedRangeTxData) :=
  match values.operator with
  | .eq => do
    let ids ← wrapErr "field:%s value:%+v parse fail, err:%v" [.str field, .val values.value]
      (parseIntegers values.value h.option.enableFloat2Int)
    return (h, { operator := .eq, rgValue := none, eqValues := ids })
  | .other n => errorf "unsupported operator:%d" [.int n]
  | op => do
    let rg ← parseRange op values.value h.option.enableFloat2Int
    if h.option.rangeCvtValuesSize.admits rg.size then do
      let vs ← rg.toSlice
      return (h, { operator := .eq, rgValue := none, eqValues := vs })
    else do
      let compressor ← h.compressor.addValue rg.left
      let compressor ← compressor.addValue rg.right
      return ({ h with compressor := compressor }, { operator := .between, rgValue := some rg, eqValues := [] })

/-- The loop over the distinct values of an `EQ` expression. -/
def commitPoints (eid : EntryID) (h : OptimizedRangeHolder) (values : List Int64) : Go OptimizedRangeHolder :=
  values.foldlM (fun h id => do
    let compressor ← h.compressor.addValue id
    return { h with compressor := compressor, pendingRanges := h.pendingRanges ++ [⟨id, id, eid⟩] }) h

/-- `CommitFieldIndexingData`; any other operator is ignored. -/
def commitFieldIndexingData (h : OptimizedRangeHolder) (eid : EntryID) (data : OptimizedRangeTxData) :
    Go OptimizedRangeHolder :=
  match data.operator with
  | .eq => h.commitPoints eid data.eqValues.dedup
  | .between =>
    match data.rgValue with
    | none => panicf "invalid memory address or nil pointer dereference" []
    | some rg => .ok { h with pendingRanges := h.pendingRanges ++ [⟨rg.left, rg.right, eid⟩] }
  | _ => .ok h

/-- Inserts a pending range into the root of a tree over `size` coordinates. A range above every
coordinate would hang right of the last leaf, where no query looks. -/
def insertPending (cc : CoordinateCompressor) (root : SegmentTree EntryID 0 (cc.size - 1)) (pr : PendingRange) :
    SegmentTree EntryID 0 (cc.size - 1) :=
  if h : (cc.findRange pr.left pr.right).1 < cc.size then
    root.insert (cc.findRange pr.left pr.right).1 (cc.findRange pr.left pr.right).2 pr.eid
      ⟨Nat.zero_le _, by omega⟩ ⟨le_max_left _ _, Nat.zero_le _⟩
  else root

/-- `CompileEntries`: without coordinates there is no root to insert into. -/
def compileEntries (h : OptimizedRangeHolder) : Go OptimizedRangeHolder := do
  let compressor := h.compressor.build
  panicIf (compressor.size == 0 && !h.pendingRanges.isEmpty) "invalid memory address or nil pointer dereference" []
  return {
    option := h.option
    compressor := compressor
    pendingRanges := []
    built := true
    compressedSize := compressor.size
    root := if compressor.size = 0 then .nil
      else h.pendingRanges.foldl (insertPending compressor) (.build 0 (compressor.size - 1)) }

/-- The index a query value is looked up at, if there is one. -/
def lookupIdx (h : OptimizedRangeHolder) (id : Int64) : Option Nat :=
  match h.compressor.getIdx id with
  | some idx => some idx
  | none => if h.compressor.findIdx id ≥ h.compressedSize then none else some (h.compressor.findIdx id)

def getEntries (h : OptimizedRangeHolder) (assigns : Value) : Go EntriesCursors := do
  if !h.built then errorf "holder not compiled" []
  else do
    let ids ← parseIntegers assigns h.option.enableFloat2Int
    if ids.isEmpty then return []
    let result := sortEntries ((ids.filterMap h.lookupIdx).flatMap (fun idx => h.root.collect idx)).dedup
    if result.isEmpty then return [] else return [newEntriesCursor result]

theorem build_option {h h' : OptimizedRangeHolder} {field : BEField} {values : BoolValues} {data : OptimizedRangeTxData}
    (run : h.buildFieldIndexingData field values = .ok (h', data)) : h'.option = h.option := by
  unfold buildFieldIndexingData at run
  split at run
  · obtain ⟨ids, _, done⟩ := bind_eq_ok.mp run
    obtain ⟨rfl, rfl⟩ := Prod.mk.inj (Except.ok.inj done)
    rfl
  · cases run
  · obtain ⟨rg, _, rest⟩ := bind_eq_ok.mp run
    split at rest
    · obtain ⟨vs, _, done⟩ := bind_eq_ok.mp rest
      obtain ⟨rfl, rfl⟩ := Prod.mk.inj (Except.ok.inj done)
      rfl
    · obtain ⟨left, _, rest⟩ := bind_eq_ok.mp rest
      obtain ⟨right, _, done⟩ := bind_eq_ok.mp rest
      obtain ⟨rfl, rfl⟩ := Prod.mk.inj (Except.ok.inj done)
      rfl

omit [FloatOps] in
theorem commitPoints_frame {eid : EntryID} {h h' : OptimizedRangeHolder} {values : List Int64}
    (run : h.commitPoints eid values = .ok h') :
    h'.option = h.option ∧ h'.pendingRanges.length = h.pendingRanges.length + values.length := by
  induction values generalizing h with
  | nil =>
    obtain rfl := Except.ok.inj run
    exact ⟨rfl, rfl⟩
  | cons v values ih =>
    rw [commitPoints, List.foldlM_cons] at run
    obtain ⟨next, step, rest⟩ := bind_eq_ok.mp run
    obtain ⟨compressor, _, done⟩ := bind_eq_ok.mp step
    obtain rfl := Except.ok.inj done
    obtain ⟨option, longer⟩ :=
      @ih { h with compressor := compressor, pendingRanges := h.pendingRanges ++ [⟨v, v, eid⟩] } rest
    refine ⟨option, ?_⟩
    simp only [longer, List.length_append, List.length_cons, List.length_nil]
    omega

omit [FloatOps] in
theorem commit_option {eid : EntryID} {h h' : OptimizedRangeHolder} {data : OptimizedRangeTxData}
    (run : h.commitFieldIndexingData eid data = .ok h') : h'.option = h.option := by
  unfold commitFieldIndexingData at run
  split at run
  · exact (commitPoints_frame run).1
  · split at run
    · cases run
    · obtain rfl := Except.ok.inj run
      rfl
  · obtain rfl := Except.ok.inj run
    rfl

end OptimizedRangeHolder

/-! ### Looking up a coordinate -/

namespace CoordinateCompressor

theorem mem_build {cc : CoordinateCompressor} {v : Int64} : v ∈ cc.build.values ↔ v ∈ cc.values := by
  unfold build
  split
  · rfl
  · simp only [unique_eq cc.nodup]
    exact (List.perm_insertionSort _ _).mem_iff

theorem build_built (cc : CoordinateCompressor) : cc.build.built = true := by
  unfold build
  split
  · assumption
  · rfl

theorem addValue_ok {cc cc' : CoordinateCompressor} {v : Int64} (run : cc.addValue v = .ok cc') :
    cc.built = false ∧ cc'.built = false ∧ ∀ c, c ∈ cc'.values ↔ c ∈ cc.values ∨ c = v := by
  unfold addValue at run
  split at run
  · cases run
  · rename_i open'
    split at run
    · rename_i old
      obtain rfl := Except.ok.inj run
      exact ⟨by simpa using open', by simpa using open', fun c => ⟨Or.inl, fun h => h.elim id fun same => same ▸ old⟩⟩
    · obtain rfl := Except.ok.inj run
      exact ⟨by simpa using open', rfl, fun c => by simp⟩

theorem addValue_runs {cc : CoordinateCompressor} (v : Int64) (unbuilt : cc.built = false) :
    ∃ cc', cc.addValue v = .ok cc' := by
  unfold addValue
  rw [dif_neg (by simp [unbuilt])]
  split
  · exact ⟨_, rfl⟩
  · exact ⟨_, rfl⟩

variable {cc : CoordinateCompressor} (built : cc.built = true)

include built in
theorem findIdx_isFirst (v : Int64) :
    SortedSearch.IsFirst cc.values.length (fun i => (cc.values[i]?).elim true fun c => decide (c ≥ v))
      (cc.findIdx v) := by
  have sorted := List.pairwise_iff_getElem.mp (cc.sorted built)
  refine SortedSearch.search_isFirst fun i j le hit => ?_
  rcases Nat.lt_or_ge j cc.values.length with inside | outside
  · rw [List.getElem?_eq_getElem (by omega)] at hit ⊢
    simp only [Option.elim_some, decide_eq_true_eq] at hit ⊢
    rcases Nat.lt_or_eq_of_le le with lt | rfl
    · exact le_trans hit (le_of_lt (sorted i j (by omega) inside lt))
    · exact hit
  · rw [List.getElem?_eq_none outside, Option.elim_none]

include built in
theorem findIdx_le {v : Int64} {j : Nat} (h : j < cc.values.length) : cc.findIdx v ≤ j ↔ v ≤ cc.values[j] := by
  obtain ⟨_, below, stop⟩ := cc.findIdx_isFirst built v
  have sorted := List.pairwise_iff_getElem.mp (cc.sorted built)
  constructor
  · intro le
    have hit := stop (by omega)
    simp only [List.getElem?_eq_getElem (show cc.findIdx v < cc.values.length by omega), Option.elim_some,
      decide_eq_true_eq] at hit
    rcases Nat.lt_or_eq_of_le le with lt | same
    · exact le_trans hit (le_of_lt (sorted _ j (by omega) h lt))
    · simpa only [same] using hit
  · intro le
    by_contra gt
    have miss := below j (by omega)
    simp [List.getElem?_eq_getElem h, le] at miss

include built in
theorem findIdx_getElem {j : Nat} (h : j < cc.values.length) : cc.findIdx cc.values[j] = j := by
  refine Nat.le_antisymm ((findIdx_le built h).mpr le_rfl) ?_
  by_contra lt
  have sorted := List.pairwise_iff_getElem.mp (cc.sorted built)
  have le := (findIdx_le (v := cc.values[j]) built (j := cc.findIdx cc.values[j]) (by omega)).mp le_rfl
  exact absurd le (not_le.mpr (sorted _ j (by omega) h (by omega)))

include built in
theorem idxOf_eq_findIdx {v : Int64} (mem : v ∈ cc.values) : cc.values.idxOf v = cc.findIdx v := by
  have found := findIdx_getElem built (List.idxOf_lt_length_of_mem mem)
  rw [List.getElem_idxOf] at found
  exact found.symm

include built in
theorem findIdx_lt {v : Int64} (mem : v ∈ cc.values) : cc.findIdx v < cc.values.length := by
  rw [← idxOf_eq_findIdx built mem]
  exact List.idxOf_lt_length_of_mem mem

include built in
/-- `FindIdx` gives the place of the least coordinate that is not below the value. -/
theorem isLeast_iff {v : Int64} {idx : Nat} (lt : idx < cc.values.length) :
    IsLeast {c | c ∈ cc.values ∧ v ≤ c} cc.values[idx] ↔ idx = cc.findIdx v := by
  have sorted := List.pairwise_iff_getElem.mp (cc.sorted built)
  constructor
  · rintro ⟨⟨_, ge⟩, lower⟩
    refine Nat.le_antisymm ?_ ((findIdx_le built lt).mpr ge)
    by_contra gt
    have here := (findIdx_le (v := v) built (j := cc.findIdx v) (by omega)).mp le_rfl
    have := lower ⟨List.getElem_mem (by omega), here⟩
    exact absurd this (not_le.mpr (sorted _ idx (by omega) lt (by omega)))
  · rintro rfl
    refine ⟨⟨List.getElem_mem lt, (findIdx_le built lt).mp le_rfl⟩, ?_⟩
    rintro c ⟨mem, ge⟩
    obtain ⟨j, hj, rfl⟩ := List.getElem_of_mem mem
    have le := (findIdx_le built hj).mpr ge
    rcases Nat.lt_or_eq_of_le le with before | same
    · exact le_of_lt (sorted _ j lt hj before)
    · simp only [same, le_refl]

include built in
theorem findRange_covers {l r : Int64} {j : Nat} (h : j < cc.values.length) (coordinate : l ∈ cc.values) :
    ((cc.findRange l r).1 ≤ j ∧ j ≤ (cc.findRange l r).2) ↔
      cc.values[j] = l ∨ (l ≤ cc.values[j] ∧ cc.values[j] < r) := by
  obtain ⟨i, hi, rfl⟩ := List.getElem_of_mem coordinate
  have first := findIdx_getElem built hi
  have lower := findIdx_le (v := cc.values[i]) built h
  have upper := findIdx_le (v := r) built h
  have same : cc.values[j] = cc.values[i] ↔ j = i := cc.nodup.getElem_inj_iff
  simp only [findRange]
  rw [same, ← lower, ← not_le, ← upper, first]
  omega

end CoordinateCompressor

/-! ### What the container answers -/

namespace OptimizedRangeHolder

variable [FloatOps]

theorem build_fresh (h : OptimizedRangeHolder) (field : BEField) (values : BoolValues)
    (points : ∀ h' data, (newOptimizedRangeHolder h.option).buildFieldIndexingData field values = .ok (h', data) →
      data.operator = .eq) :
    h.buildFieldIndexingData field values =
      ((newOptimizedRangeHolder h.option).buildFieldIndexingData field values).map fun r => (h, r.2) := by
  have option : (newOptimizedRangeHolder h.option).option = h.option := rfl
  unfold buildFieldIndexingData at points ⊢
  rw [option] at points ⊢
  cases op : values.operator with
  | eq =>
    generalize (wrapErr _ _ _ : Go (List Int64)) = r
    cases r <;> rfl
  | other n => rfl
  | gt | lt | between =>
    simp only [op] at points ⊢
    generalize parseRange _ values.value h.option.enableFloat2Int = r at points ⊢
    cases r with
    | error fault => rfl
    | ok rg =>
      simp only [bind, Except.bind] at points ⊢
      split
      · cases rg.toSlice <;> rfl
      · rename_i kept
        rw [if_neg kept] at points
        obtain ⟨cc, left⟩ := CoordinateCompressor.addValue_runs rg.left (rfl : newCoordinateCompressor.built = false)
        obtain ⟨cc', right⟩ := CoordinateCompressor.addValue_runs rg.right (CoordinateCompressor.addValue_ok left).2.1
        have := points _ _ (by simp only [newOptimizedRangeHolder, left, right]; rfl)
        cases this

omit [FloatOps] in
theorem mem_insertPending {cc : CoordinateCompressor} {root : SegmentTree EntryID 0 (cc.size - 1)} {pr : PendingRange}
    {idx : Nat} {e : EntryID} (built : cc.built = true) (h : idx < cc.values.length)
    (coordinate : pr.left ∈ cc.values) :
    e ∈ (insertPending cc root pr).collect idx ↔ e ∈ root.collect idx ∨
      (e = pr.eid ∧ (cc.values[idx] = pr.left ∨ (pr.left ≤ cc.values[idx] ∧ cc.values[idx] < pr.right))) := by
  have inside : (cc.findRange pr.left pr.right).1 < cc.size := CoordinateCompressor.findIdx_lt built coordinate
  have bound : cc.size = cc.values.length := rfl
  rw [insertPending, dif_pos inside, SegmentTree.mem_collect_insert _ _ _ ⟨Nat.zero_le _, by omega⟩,
    CoordinateCompressor.findRange_covers built h coordinate]

omit [FloatOps] in
theorem mem_insertAll {cc : CoordinateCompressor} {root : SegmentTree EntryID 0 (cc.size - 1)}
    {pending : List PendingRange} {idx : Nat} {e : EntryID} (built : cc.built = true) (h : idx < cc.values.length)
    (coordinates : ∀ pr ∈ pending, pr.left ∈ cc.values) :
    e ∈ (pending.foldl (insertPending cc) root).collect idx ↔ e ∈ root.collect idx ∨
      ∃ pr ∈ pending, e = pr.eid ∧
        (cc.values[idx] = pr.left ∨ (pr.left ≤ cc.values[idx] ∧ cc.values[idx] < pr.right)) := by
  induction pending generalizing root with
  | nil => simp
  | cons pr pending ih =>
    rw [List.foldl_cons, ih fun p hp => coordinates p (List.mem_cons_of_mem _ hp),
      mem_insertPending built h (coordinates pr List.mem_cons_self)]
    simp only [List.exists_mem_cons_iff, or_assoc]

omit [FloatOps] in
/-- A value is looked up at the least coordinate that is not below it. -/
theorem mem_lookupIdx {h : OptimizedRangeHolder} (built : h.compressor.built = true)
    (size : h.compressedSize = h.compressor.values.length) {v : Int64} {idx : Nat} :
    idx ∈ h.lookupIdx v ↔
      ∃ lt : idx < h.compressor.values.length,
        IsLeast {c | c ∈ h.compressor.values ∧ v ≤ c} h.compressor.values[idx] := by
  have least := fun lt : idx < h.compressor.values.length => CoordinateCompressor.isLeast_iff (v := v) built lt
  rw [lookupIdx, CoordinateCompressor.getIdx, size]
  by_cases mem : v ∈ h.compressor.values
  · simp only [if_pos mem, Option.mem_def, Option.some.injEq, CoordinateCompressor.idxOf_eq_findIdx built mem]
    constructor
    · rintro rfl
      exact ⟨CoordinateCompressor.findIdx_lt built mem, (least _).mpr rfl⟩
    · rintro ⟨lt, isLeast⟩
      exact ((least lt).mp isLeast).symm
  · simp only [if_neg mem, Option.mem_def]
    split
    · rename_i beyond
      simp only [reduceCtorEq, false_iff, not_exists]
      intro lt isLeast
      have := (least lt).mp isLeast
      omega
    · rename_i within
      simp only [Option.some.injEq]
      constructor
      · rintro rfl
        exact ⟨by omega, (least _).mpr rfl⟩
      · rintro ⟨lt, isLeast⟩
        exact ((least lt).mp isLeast).symm

omit [FloatOps] in
/-- What compiling leaves: the sorted coordinates, and at each of them the pending ranges that hold it. -/
theorem compile_ok {h h' : OptimizedRangeHolder} (compiled : h.compileEntries = .ok h')
    (coordinates : ∀ pr ∈ h.pendingRanges, pr.left ∈ h.compressor.values) :
    h'.option = h.option ∧ h'.built = true ∧ h'.compressor = h.compressor.build ∧
      h'.compressedSize = h'.compressor.values.length ∧
      ∀ idx (lt : idx < h'.compressor.values.length) e, e ∈ h'.root.collect idx ↔
        ∃ pr ∈ h.pendingRanges, e = pr.eid ∧ (h'.compressor.values[idx] = pr.left ∨
          (pr.left ≤ h'.compressor.values[idx] ∧ h'.compressor.values[idx] < pr.right)) := by
  obtain ⟨_, _, done⟩ := bind_eq_ok.mp compiled
  obtain rfl := Except.ok.inj done
  refine ⟨rfl, rfl, rfl, rfl, fun idx lt e => ?_⟩
  have some : ¬ h.compressor.build.size = 0 := Nat.ne_of_gt (Nat.lt_of_le_of_lt (Nat.zero_le idx) lt)
  simp only [if_neg some]
  rw [mem_insertAll (CoordinateCompressor.build_built _) lt
    fun pr hpr => CoordinateCompressor.mem_build.mpr (coordinates pr hpr)]
  simp [SegmentTree.build, SegmentTree.collect]

theorem mem_getEntries {h : OptimizedRangeHolder} {assigns : Value} {cs : EntriesCursors} {ids : List Int64}
    (built : h.built = true) (parsed : parseIntegers assigns h.option.enableFloat2Int = .ok ids)
    (run : h.getEntries assigns = .ok cs) (e : EntryID) :
    e ∈ cs.ids ↔ ∃ v ∈ ids, ∃ idx ∈ h.lookupIdx v, e ∈ h.root.collect idx := by
  simp only [getEntries, built, Bool.not_true, Bool.false_eq_true, if_false] at run
  rw [parsed] at run
  change (if ids.isEmpty then .ok [] else _) = Except.ok cs at run
  have found : ∀ e, e ∈ sortEntries ((ids.filterMap h.lookupIdx).flatMap (fun idx => h.root.collect idx)).dedup ↔
      ∃ v ∈ ids, ∃ idx ∈ h.lookupIdx v, e ∈ h.root.collect idx := by
    intro e
    simp only [mem_sortEntries, List.mem_dedup, List.mem_flatMap, List.mem_filterMap]
    constructor
    · rintro ⟨idx, ⟨v, hv, hidx⟩, he⟩
      exact ⟨v, hv, idx, hidx, he⟩
    · rintro ⟨v, hv, idx, hidx, he⟩
      exact ⟨idx, ⟨v, hv, hidx⟩, he⟩
  split at run
  · rename_i empty
    obtain rfl := Except.ok.inj run
    simp [EntriesCursors.ids, List.isEmpty_iff.mp empty]
  · rw [← found]
    generalize sortEntries ((ids.filterMap h.lookupIdx).flatMap (fun idx => h.root.collect idx)).dedup = result at run
    split at run
    · rename_i none
      obtain rfl := Except.ok.inj run
      simp [EntriesCursors.ids, List.isEmpty_iff.mp none]
    · obtain rfl := Except.ok.inj run
      simp [EntriesCursors.ids, newEntriesCursor, EntriesCursor.moveTo]

/-- A compiled container returns the entry ids of the pending ranges that hold the next coordinate
of a query value. -/
theorem getEntries_ids {h h' : OptimizedRangeHolder} {assigns : Value} {cs : EntriesCursors} {ids : List Int64}
    (coordinates : ∀ pr ∈ h.pendingRanges, pr.left ∈ h.compressor.values)
    (parsed : parseIntegers assigns h.option.enableFloat2Int = .ok ids)
    (compiled : h.compileEntries = .ok h') (run : h'.getEntries assigns = .ok cs) (e : EntryID) :
    e ∈ cs.ids ↔ ∃ v ∈ ids, ∃ c, IsLeast {c | c ∈ h.compressor.values ∧ v ≤ c} c ∧
      ∃ pr ∈ h.pendingRanges, e = pr.eid ∧ (c = pr.left ∨ (pr.left ≤ c ∧ c < pr.right)) := by
  obtain ⟨option, built, compressor, size, collected⟩ := compile_ok compiled coordinates
  have sorted : h'.compressor.built = true := compressor ▸ h.compressor.build_built
  have values : ∀ c, c ∈ h'.compressor.values ↔ c ∈ h.compressor.values := by
    intro c
    rw [compressor]
    exact CoordinateCompressor.mem_build
  rw [mem_getEntries built (option ▸ parsed) run]
  simp only [mem_lookupIdx sorted size, values]
  constructor
  · rintro ⟨v, hv, idx, ⟨lt, least⟩, he⟩
    exact ⟨v, hv, _, least, (collected idx lt e).mp he⟩
  · rintro ⟨v, hv, c, least, held⟩
    obtain ⟨idx, lt, rfl⟩ := List.getElem_of_mem ((values c).mpr least.1.1)
    exact ⟨v, hv, idx, ⟨lt, least⟩, (collected idx lt e).mpr held⟩

end OptimizedRangeHolder

end BeIndexer
