import BeIndexer.Holder.OptimizedRange
import Mathlib.Data.Set.Finite.Lemmas

/-!
# The two range containers side by side

Both containers are loaded with one list of expressions, compiled and asked. `RangeHolder` answers a
value by the expressions that contain it, `OptimizedRangeHolder` by those that hold the next larger
coordinate.
-/

namespace BeIndexer

/-! ### Coordinates -/

/-- The coordinates an expression adds to the compressor. -/
def RangeTxData.Coordinate (data : RangeTxData) (c : Int64) : Prop :=
  match data.rgValue with
  | none => c ∈ data.eqValues
  | some rg => c = rg.left ∨ c = rg.right

/-- The coordinates at which an expression is found. -/
def RangeTxData.HoldsAt (data : RangeTxData) (c : Int64) : Prop :=
  match data.rgValue with
  | none => c ∈ data.eqValues
  | some rg => c = rg.left ∨ (rg.left ≤ c ∧ c < rg.right)

def RangeTxData.Leaves (data : RangeTxData) (eid : EntryID) (pr : PendingRange) : Prop :=
  match data.rgValue with
  | none => pr.left ∈ data.eqValues ∧ pr.right = pr.left ∧ pr.eid = eid
  | some rg => pr.left = rg.left ∧ pr.right = rg.right ∧ pr.eid = eid

theorem leaves_coordinate {data : RangeTxData} {eid : EntryID} {pr : PendingRange} (leaves : data.Leaves eid pr) :
    data.Coordinate pr.left := by
  unfold RangeTxData.Leaves at leaves
  unfold RangeTxData.Coordinate
  split at leaves
  · exact leaves.1
  · exact Or.inl leaves.1

theorem leaves_holdsAt {data : RangeTxData} {eid e : EntryID} {c : Int64} :
    (∃ pr, data.Leaves eid pr ∧ e = pr.eid ∧ (c = pr.left ∨ (pr.left ≤ c ∧ c < pr.right))) ↔
      eid = e ∧ data.HoldsAt c := by
  unfold RangeTxData.Leaves RangeTxData.HoldsAt
  cases data.rgValue with
  | none =>
    constructor
    · rintro ⟨pr, ⟨point, ends, rfl⟩, rfl, held⟩
      refine ⟨rfl, ?_⟩
      rcases held with rfl | ⟨lo, hi⟩
      · exact point
      · exact absurd (lt_of_le_of_lt lo hi) (by simp [ends])
    · rintro ⟨rfl, held⟩
      exact ⟨⟨c, c, eid⟩, ⟨held, rfl, rfl⟩, rfl, Or.inl rfl⟩
  | some rg =>
    constructor
    · rintro ⟨pr, ⟨left, right, rfl⟩, rfl, held⟩
      rw [left, right] at held
      exact ⟨rfl, held⟩
    · rintro ⟨rfl, held⟩
      exact ⟨⟨rg.left, rg.right, eid⟩, ⟨rfl, rfl, rfl⟩, rfl, held⟩

namespace RangeTxData

/-- A kept interval is not empty and lies between the bounds of the container. -/
def Inside (min max : Int64) (data : RangeTxData) : Prop :=
  ∀ rg ∈ data.rgValue, min ≤ rg.left ∧ rg.left < rg.right ∧ rg.right ≤ max

variable {data : RangeTxData} {min max c v : Int64}

theorem Inside.covers_iff (inside : data.Inside min max)
    (shape : (∃ vs, data = ⟨.eq, none, vs⟩) ∨ ∃ rg, data = ⟨.between, some rg, []⟩) :
    data.Covers min max v ↔ data.HoldsAt v := by
  rcases shape with ⟨vs, rfl⟩ | ⟨rg, rfl⟩
  · rfl
  · obtain ⟨above, ordered, below⟩ := inside rg rfl
    simp only [Covers, HoldsAt, bumpEqual_ne (ne_of_lt ordered)]
    constructor
    · rintro ⟨_, _, ge, lt⟩
      exact Or.inr ⟨ge, lt⟩
    · rintro (rfl | ⟨ge, lt⟩)
      · exact ⟨lt_of_lt_of_le ordered below, above, le_rfl, ordered⟩
      · exact ⟨lt_of_lt_of_le lt below, above, ge, lt⟩

end RangeTxData

section ReadsAlike

variable {log : List (EntryID × RangeTxData)} {min max v c : Int64}

/-- The coordinate at which `OptimizedRangeHolder` looks a value up. -/
def NextCoordinate (log : List (EntryID × RangeTxData)) (v c : Int64) : Prop :=
  IsLeast {c | (∃ x ∈ log, x.2.Coordinate c) ∧ v ≤ c} c

end ReadsAlike

variable [FloatOps]

/-! ### Loading a list of expressions -/

def RangeHolder.load (field : BEField) (h : RangeHolder) (exprs : List (EntryID × BoolValues)) : Go RangeHolder :=
  exprs.foldlM (fun h ex => do
    let data ← RangeHolder.buildFieldIndexingData h.option field ex.2
    h.commitFieldIndexingData ex.1 data) h

def OptimizedRangeHolder.load (field : BEField) (h : OptimizedRangeHolder) (exprs : List (EntryID × BoolValues)) :
    Go OptimizedRangeHolder :=
  exprs.foldlM (fun h ex => do
    let (h, data) ← h.buildFieldIndexingData field ex.2
    h.commitFieldIndexingData ex.1 data) h

/-- The data that the expressions are prepared to, which depends on the options only. -/
def prepareAll (option : RangeHolderOption) (field : BEField) (exprs : List (EntryID × BoolValues)) :
    Go (List (EntryID × RangeTxData)) :=
  exprs.mapM fun ex => do
    let data ← RangeHolder.buildFieldIndexingData option field ex.2
    return (ex.1, data)

def RangeHolder.commitAll (h : RangeHolder) (log : List (EntryID × RangeTxData)) : Go RangeHolder :=
  log.foldlM (fun h x => h.commitFieldIndexingData x.1 x.2) h

def int64Query (ids : List Int64) : Value := .ints .int64 (some (ids.map Int64.toInt))

def rangeAnswer (option : RangeHolderOption) (field : BEField) (exprs : List (EntryID × BoolValues))
    (ids : List Int64) : Go EntriesCursors := do
  let h ← newNumberExtendRangeHolder option
  let h ← h.load field exprs
  h.compileEntries.getEntries (int64Query ids)

omit [FloatOps] in
theorem RangeHolder.commit_runs (h : RangeHolder) (eid : EntryID) {data : RangeTxData}
    (shape : (∃ vs, data = ⟨.eq, none, vs⟩) ∨ ∃ rg, data = ⟨.between, some rg, []⟩) :
    ∃ h', h.commitFieldIndexingData eid data = .ok h' := by
  rcases shape with ⟨vs, rfl⟩ | ⟨rg, rfl⟩
  · exact ⟨_, rfl⟩
  · obtain ⟨rix, placed⟩ := h.rangeIdx.indexingRange_ok rg eid
    exact ⟨{ h with rangeIdx := rix }, by simp [commitFieldIndexingData, placed, bind, Except.bind, pure, Except.pure]⟩

theorem prepareAll_cons {option : RangeHolderOption} {field : BEField} {ex : EntryID × BoolValues}
    {exprs : List (EntryID × BoolValues)} {log : List (EntryID × RangeTxData)}
    (prepared : prepareAll option field (ex :: exprs) = .ok log) :
    ∃ data log', log = (ex.1, data) :: log' ∧ RangeHolder.buildFieldIndexingData option field ex.2 = .ok data ∧
      prepareAll option field exprs = .ok log' := by
  rw [prepareAll, List.mapM_cons] at prepared
  obtain ⟨x, one, rest⟩ := bind_eq_ok.mp prepared
  obtain ⟨log', others, done⟩ := bind_eq_ok.mp rest
  obtain rfl := Except.ok.inj done
  obtain ⟨data, built, same⟩ := bind_eq_ok.mp one
  obtain rfl := Except.ok.inj same
  exact ⟨data, log', rfl, built, others⟩

theorem RangeHolder.load_prepared {field : BEField} {exprs : List (EntryID × BoolValues)}
    {log : List (EntryID × RangeTxData)} (h : RangeHolder) (prepared : prepareAll h.option field exprs = .ok log) :
    h.load field exprs = h.commitAll log := by
  induction exprs generalizing h log with
  | nil =>
    obtain rfl : log = [] := (Except.ok.inj prepared).symm
    rfl
  | cons ex exprs ih =>
    obtain ⟨data, log', rfl, built, others⟩ := prepareAll_cons prepared
    obtain ⟨h₁, committed⟩ := h.commit_runs ex.1 (build_shape built)
    rw [← (commit_frame committed).1] at others
    rw [load, List.foldlM_cons, built, commitAll, List.foldlM_cons]
    change (h.commitFieldIndexingData ex.1 data >>= _) = (h.commitFieldIndexingData ex.1 data >>= _)
    rw [committed]
    exact ih h₁ others

omit [FloatOps] in
theorem RangeHolder.commitAll_covers {log : List (EntryID × RangeTxData)} (h : RangeHolder)
    (fresh : h.rangeIdx.compiled = false)
    (shapes : ∀ x ∈ log, (∃ vs, x.2 = ⟨.eq, none, vs⟩) ∨ ∃ rg, x.2 = ⟨.between, some rg, []⟩) :
    ∃ h', h.commitAll log = .ok h' ∧ h'.option = h.option ∧
      ∀ v e, h'.Covers v e ↔ h.Covers v e ∨
        ∃ x ∈ log, x.1 = e ∧ x.2.Covers h.rangeIdx.valueMin h.rangeIdx.valueMax v := by
  induction log generalizing h with
  | nil => exact ⟨h, rfl, rfl, by simp⟩
  | cons x log ih =>
    obtain ⟨h₁, committed⟩ := h.commit_runs x.1 (shapes x List.mem_cons_self)
    obtain ⟨option, compiled, min, max⟩ := commit_frame committed
    obtain ⟨h', run, option', covers⟩ :=
      ih h₁ (compiled.trans fresh) fun y mem => shapes y (List.mem_cons_of_mem _ mem)
    refine ⟨h', ?_, option'.trans option, fun v e => ?_⟩
    · rw [commitAll, List.foldlM_cons, committed]
      exact run
    · rw [covers, commit_covers fresh committed, min, max, or_assoc]
      simp only [List.exists_mem_cons_iff, eq_comm]

theorem prepareAll_shapes {option : RangeHolderOption} {field : BEField} {exprs : List (EntryID × BoolValues)}
    {log : List (EntryID × RangeTxData)} (prepared : prepareAll option field exprs = .ok log) :
    ∀ x ∈ log, (∃ vs, x.2 = ⟨.eq, none, vs⟩) ∨ ∃ rg, x.2 = ⟨.between, some rg, []⟩ := by
  intro x mem
  obtain ⟨ex, _, one⟩ := mem_mapM prepared mem
  obtain ⟨data, built, same⟩ := bind_eq_ok.mp one
  obtain rfl := Except.ok.inj same
  exact RangeHolder.build_shape built

theorem RangeHolder.load_covers {field : BEField} {exprs : List (EntryID × BoolValues)}
    {log : List (EntryID × RangeTxData)} (h : RangeHolder) (fresh : h.rangeIdx.compiled = false)
    (prepared : prepareAll h.option field exprs = .ok log) :
    ∃ h', h.load field exprs = .ok h' ∧ h'.option = h.option ∧
      ∀ v e, h'.Covers v e ↔ h.Covers v e ∨
        ∃ x ∈ log, x.1 = e ∧ x.2.Covers h.rangeIdx.valueMin h.rangeIdx.valueMax v := by
  rw [h.load_prepared prepared]
  exact h.commitAll_covers fresh (prepareAll_shapes prepared)

namespace OptimizedRangeHolder

omit [FloatOps] in
theorem commitPoints_ok (eid : EntryID) (vs : List Int64) (h : OptimizedRangeHolder)
    (unbuilt : h.compressor.built = false) :
    ∃ h', h.commitPoints eid vs = .ok h' ∧ h'.option = h.option ∧ h'.compressor.built = false ∧
      (∀ c, c ∈ h'.compressor.values ↔ c ∈ h.compressor.values ∨ c ∈ vs) ∧
      h'.pendingRanges = h.pendingRanges ++ vs.map fun v => ⟨v, v, eid⟩ := by
  induction vs generalizing h with
  | nil => exact ⟨h, rfl, rfl, unbuilt, by simp, by simp⟩
  | cons v vs ih =>
    obtain ⟨cc, added⟩ := CoordinateCompressor.addValue_runs v unbuilt
    obtain ⟨_, unbuilt', values⟩ := CoordinateCompressor.addValue_ok added
    obtain ⟨h', run, option, still, coords, pending⟩ :=
      ih { h with compressor := cc, pendingRanges := h.pendingRanges ++ [⟨v, v, eid⟩] } unbuilt'
    refine ⟨h', ?_, option, still, fun c => ?_, by simp [pending]⟩
    · rw [commitPoints, List.foldlM_cons, added]
      exact run
    · rw [coords, values, or_assoc, List.mem_cons]

omit [FloatOps] in
theorem collect_ends {h : OptimizedRangeHolder} (rg : Range) (unbuilt : h.compressor.built = false) :
    ∃ c₁ c₂, h.compressor.addValue rg.left = .ok c₁ ∧ c₁.addValue rg.right = .ok c₂ ∧ c₂.built = false ∧
      ∀ c, c ∈ c₂.values ↔ c ∈ h.compressor.values ∨ c = rg.left ∨ c = rg.right := by
  obtain ⟨c₁, first⟩ := CoordinateCompressor.addValue_runs rg.left unbuilt
  obtain ⟨_, unbuilt₁, values₁⟩ := CoordinateCompressor.addValue_ok first
  obtain ⟨c₂, second⟩ := CoordinateCompressor.addValue_runs rg.right unbuilt₁
  obtain ⟨_, unbuilt₂, values₂⟩ := CoordinateCompressor.addValue_ok second
  exact ⟨c₁, c₂, first, second, unbuilt₂, fun c => by rw [values₂, values₁, or_assoc]⟩

theorem build_range {op : ValueOpt} {value : Value} {data : RangeTxData} (h : OptimizedRangeHolder)
    (unbuilt : h.compressor.built = false)
    (built : (do
      let rg ← parseRange op value h.option.enableFloat2Int
      if h.option.rangeCvtValuesSize.admits rg.size then do
        let vs ← rg.toSlice
        return { operator := .eq, rgValue := none, eqValues := vs }
      else return { operator := .between, rgValue := some rg, eqValues := [] } : Go RangeTxData) = .ok data) :
    ∃ cc, (do
      let rg ← parseRange op value h.option.enableFloat2Int
      if h.option.rangeCvtValuesSize.admits rg.size then do
        let vs ← rg.toSlice
        return (h, { operator := .eq, rgValue := none, eqValues := vs })
      else do
        let compressor ← h.compressor.addValue rg.left
        let compressor ← compressor.addValue rg.right
        return ({ h with compressor := compressor }, { operator := .between, rgValue := some rg, eqValues := [] }) :
          Go (OptimizedRangeHolder × OptimizedRangeTxData)) = .ok ({ h with compressor := cc }, data) ∧
      cc.built = false ∧
      ∀ c, c ∈ cc.values ↔ c ∈ h.compressor.values ∨ ∃ rg ∈ data.rgValue, c = rg.left ∨ c = rg.right := by
  obtain ⟨rg, parsed, rest⟩ := bind_eq_ok.mp built
  rw [parsed]
  by_cases small : h.option.rangeCvtValuesSize.admits rg.size = true
  · rw [if_pos small] at rest
    obtain ⟨vs, expanded, done⟩ := bind_eq_ok.mp rest
    obtain rfl := Except.ok.inj done
    refine ⟨h.compressor, ?_, unbuilt, by simp⟩
    simp [bind, Except.bind, small, expanded, pure, Except.pure]
  · rw [if_neg small] at rest
    obtain rfl := Except.ok.inj rest
    obtain ⟨c₁, c₂, first, second, unbuilt', values⟩ := collect_ends rg unbuilt
    refine ⟨c₂, ?_, unbuilt', fun c => by simp [values]⟩
    simp [bind, Except.bind, small, first, second, pure, Except.pure]

theorem build_same {field : BEField} {bv : BoolValues} {data : RangeTxData} (h : OptimizedRangeHolder)
    (unbuilt : h.compressor.built = false)
    (built : RangeHolder.buildFieldIndexingData h.option field bv = .ok data) :
    ∃ cc, h.buildFieldIndexingData field bv = .ok ({ h with compressor := cc }, data) ∧ cc.built = false ∧
      ∀ c, c ∈ cc.values ↔ c ∈ h.compressor.values ∨ ∃ rg ∈ data.rgValue, c = rg.left ∨ c = rg.right := by
  cases op : bv.operator with
  | eq =>
    simp only [RangeHolder.buildFieldIndexingData, op] at built
    obtain ⟨ids, parsed, done⟩ := bind_eq_ok.mp built
    obtain rfl := Except.ok.inj done
    simp only [buildFieldIndexingData, op, parsed]
    exact ⟨h.compressor, rfl, unbuilt, by simp⟩
  | other n =>
    simp only [RangeHolder.buildFieldIndexingData, op] at built
    cases built
  | gt | lt | between =>
    simp only [RangeHolder.buildFieldIndexingData, op] at built
    simp only [buildFieldIndexingData, op]
    exact build_range h unbuilt built

/-- Preparing and committing one expression collects its coordinates and leaves its ranges pending. -/
theorem expr_ok {field : BEField} {bv : BoolValues} {data : RangeTxData} (eid : EntryID) (h : OptimizedRangeHolder)
    (unbuilt : h.compressor.built = false)
    (built : RangeHolder.buildFieldIndexingData h.option field bv = .ok data) :
    ∃ h', (do
        let (h, data) ← h.buildFieldIndexingData field bv
        h.commitFieldIndexingData eid data) = .ok h' ∧ h'.option = h.option ∧ h'.compressor.built = false ∧
      (∀ c, c ∈ h'.compressor.values ↔ c ∈ h.compressor.values ∨ data.Coordinate c) ∧
      (∀ pr, pr ∈ h'.pendingRanges ↔ pr ∈ h.pendingRanges ∨ data.Leaves eid pr) := by
  obtain ⟨cc, prepared, unbuilt', ends⟩ := build_same h unbuilt built
  rw [prepared]
  change ∃ h', OptimizedRangeHolder.commitFieldIndexingData _ eid data = .ok h' ∧ _
  rcases RangeHolder.build_shape built with ⟨vs, rfl⟩ | ⟨rg, rfl⟩
  · obtain ⟨h', run, option, still, coords, pending⟩ :=
      commitPoints_ok eid vs.dedup { h with compressor := cc } unbuilt'
    refine ⟨h', run, option, still, fun c => ?_, fun pr => ?_⟩
    · simp [coords, ends, RangeTxData.Coordinate]
    · obtain ⟨l, r, e⟩ := pr
      simp only [pending, List.mem_append, List.mem_map, List.mem_dedup, RangeTxData.Leaves, PendingRange.mk.injEq]
      refine or_congr_right ⟨?_, ?_⟩
      · rintro ⟨v, hv, rfl, rfl, rfl⟩
        exact ⟨hv, rfl, rfl⟩
      · rintro ⟨hv, rfl, rfl⟩
        exact ⟨_, hv, rfl, rfl, rfl⟩
  · refine ⟨_, rfl, rfl, unbuilt', fun c => ?_, fun pr => ?_⟩
    · simp [ends, RangeTxData.Coordinate]
    · obtain ⟨l, r, e⟩ := pr
      simp [RangeTxData.Leaves, PendingRange.mk.injEq]

end OptimizedRangeHolder

/-! ### The answers -/

section Answers

variable {option : RangeHolderOption} {field : BEField} {exprs : List (EntryID × BoolValues)}
  {log : List (EntryID × RangeTxData)}

theorem parseIntegers_query (ids : List Int64) (floatToInt : Bool) :
    parseIntegers (int64Query ids) floatToInt = .ok ids := parseIntegers_int64s ids floatToInt

theorem RangeHolder.getEntries_runs {h : RangeHolder} {assigns : Value} {ids : List Int64}
    (parsed : parseIntegers assigns h.option.enableFloat2Int = .ok ids) : ∃ cs, h.getEntries assigns = .ok cs := by
  rw [getEntries, parsed]
  change ∃ cs, (if ids.isEmpty then .ok [] else _) = Except.ok cs
  split
  · exact ⟨_, rfl⟩
  · exact ⟨_, rfl⟩

theorem OptimizedRangeHolder.getEntries_runs {h : OptimizedRangeHolder} {assigns : Value} {ids : List Int64}
    (built : h.built = true) (parsed : parseIntegers assigns h.option.enableFloat2Int = .ok ids) :
    ∃ cs, h.getEntries assigns = .ok cs := by
  simp only [getEntries, built, Bool.not_true, Bool.false_eq_true, if_false]
  rw [parsed]
  change ∃ cs, (if ids.isEmpty then .ok [] else _) = Except.ok cs
  split
  · exact ⟨_, rfl⟩
  · generalize sortEntries ((ids.filterMap h.lookupIdx).flatMap (fun idx => h.root.collect idx)).dedup = result
    by_cases none : result.isEmpty = true
    · exact ⟨[], by simp only [none, if_true]; rfl⟩
    · exact ⟨_, by simp only [none]; rfl⟩

theorem RangeHolder.answer_ids {h : RangeHolder} (ids : List Int64) :
    ∃ cs, h.compileEntries.getEntries (int64Query ids) = .ok cs ∧ ∀ e, e ∈ cs.ids ↔ ∃ v ∈ ids, h.Covers v e := by
  have parsed : parseIntegers (int64Query ids) h.option.enableFloat2Int = .ok ids := parseIntegers_query ids _
  obtain ⟨cs, asked⟩ := RangeHolder.getEntries_runs (h := h.compileEntries) parsed
  exact ⟨cs, asked, RangeHolder.getEntries_ids parsed asked⟩

omit [FloatOps] in
theorem newRangeHolder_ok (bounds : option.rangeMin < option.rangeMax) :
    ∃ h, newNumberExtendRangeHolder option = .ok h ∧ h.option = option ∧ h.rangeIdx.compiled = false ∧
      h.rangeIdx.valueMin = option.rangeMin ∧ h.rangeIdx.valueMax = option.rangeMax ∧ ∀ v e, ¬ h.Covers v e := by
  refine ⟨_, newNumberExtendRangeHolder_ok option bounds, rfl, rfl, rfl, rfl, fun v e => ?_⟩
  simp [RangeHolder.Covers, RangeIdx.fresh_covers]

theorem rangeAnswer_ids (bounds : option.rangeMin < option.rangeMax)
    (prepared : prepareAll option field exprs = .ok log)
    (ids : List Int64) :
    ∃ cs, rangeAnswer option field exprs ids = .ok cs ∧ ∀ e, e ∈ cs.ids ↔
      ∃ v ∈ ids, ∃ x ∈ log, x.1 = e ∧ x.2.Covers option.rangeMin option.rangeMax v := by
  obtain ⟨h₀, made, rfl, fresh, min, max, none⟩ := newRangeHolder_ok bounds
  obtain ⟨h, run, _, covers⟩ := RangeHolder.load_covers h₀ fresh prepared
  obtain ⟨cs, asked, ids_iff⟩ := RangeHolder.answer_ids (h := h) ids
  refine ⟨cs, ?_, fun e => ?_⟩
  · rw [rangeAnswer, made]
    change (RangeHolder.load field _ exprs >>= _) = _
    rw [run]
    exact asked
  · simp only [ids_iff, covers, none, min, max, false_or]

/-- The container holds the expressions of `log`: their coordinates are collected, their ranges pending. -/
def OptimizedRangeHolder.Holds (h : OptimizedRangeHolder) (log : List (EntryID × RangeTxData)) : Prop :=
  (∀ c, c ∈ h.compressor.values ↔ ∃ x ∈ log, x.2.Coordinate c) ∧
    ∀ pr, pr ∈ h.pendingRanges ↔ ∃ x ∈ log, x.2.Leaves x.1 pr

theorem OptimizedRangeHolder.answer_ids {h : OptimizedRangeHolder} (holds : h.Holds log) (ids : List Int64) :
    ∃ h' cs, h.compileEntries = .ok h' ∧ h'.getEntries (int64Query ids) = .ok cs ∧ ∀ e, e ∈ cs.ids ↔
      ∃ v ∈ ids, ∃ c, NextCoordinate log v c ∧ ∃ x ∈ log, x.1 = e ∧ x.2.HoldsAt c := by
  obtain ⟨values, pendings⟩ := holds
  have coordinates : ∀ pr ∈ h.pendingRanges, pr.left ∈ h.compressor.values := by
    intro pr hpr
    obtain ⟨x, hx, leaves⟩ := (pendings pr).mp hpr
    exact (values _).mpr ⟨x, hx, leaves_coordinate leaves⟩
  obtain ⟨h', compiled⟩ : ∃ h', h.compileEntries = .ok h' := by
    have some : (h.compressor.build.size == 0 && !h.pendingRanges.isEmpty) = false := by
      rw [Bool.and_eq_false_iff]
      cases list : h.pendingRanges with
      | nil => exact Or.inr rfl
      | cons pr rest =>
        left
        have mem := CoordinateCompressor.mem_build.mpr (coordinates pr (list ▸ List.mem_cons_self))
        simpa [CoordinateCompressor.size] using List.ne_nil_of_mem mem
    rw [OptimizedRangeHolder.compileEntries, some]
    exact ⟨_, rfl⟩
  obtain ⟨option', built, _⟩ := OptimizedRangeHolder.compile_ok compiled coordinates
  have parsed : parseIntegers (int64Query ids) h.option.enableFloat2Int = .ok ids := parseIntegers_query ids _
  obtain ⟨cs, asked⟩ := OptimizedRangeHolder.getEntries_runs built (option' ▸ parsed)
  refine ⟨h', cs, compiled, asked, fun e => ?_⟩
  rw [OptimizedRangeHolder.getEntries_ids coordinates parsed compiled asked]
  simp only [values]
  refine exists_congr fun v => and_congr_right fun _ => exists_congr fun c => and_congr_right fun _ => ?_
  simp only [← leaves_holdsAt, pendings]
  constructor
  · rintro ⟨pr, ⟨x, hx, leaves⟩, held⟩
    exact ⟨x, hx, pr, leaves, held⟩
  · rintro ⟨x, hx, pr, leaves, held⟩
    exact ⟨pr, ⟨x, hx, leaves⟩, held⟩

end Answers

end BeIndexer
