import BeIndexer.Holder.Codec
import BeIndexer.Holder.RangeCompare

/-!
# Range data through the cache

What is committed after `Encode` and `DecodeFieldIndexingData` is compared with what was prepared.
A list of values survives. A kept interval is read back as `Range{}`, which `RangeHolder` indexes as
`[0, 1)` and which leaves `OptimizedRangeHolder` without a coordinate.
-/

namespace BeIndexer

variable [FloatOps] [Codec]

def recoded (data : RangeTxData) : Go RangeTxData := do
  let bytes ← data.encode
  RangeTxData.decode bytes

/-- A fresh `RangeHolder` with the prepared data of one expression, asked for a value. -/
def rangeDirect (option : RangeHolderOption) (field : BEField) (bv : BoolValues) (eid : EntryID) (v : Int64) :
    Go EntriesCursors := do
  let data ← RangeHolder.buildFieldIndexingData option field bv
  let h ← newNumberExtendRangeHolder option
  let h ← h.commitFieldIndexingData eid data
  h.compileEntries.getEntries (int64Query [v])

def rangeRestored (option : RangeHolderOption) (field : BEField) (bv : BoolValues) (eid : EntryID) (v : Int64) :
    Go EntriesCursors := do
  let data ← RangeHolder.buildFieldIndexingData option field bv
  let data ← recoded data
  let h ← newNumberExtendRangeHolder option
  let h ← h.commitFieldIndexingData eid data
  h.compileEntries.getEntries (int64Query [v])

/-- A fresh `OptimizedRangeHolder` that prepares and commits one expression, asked for a value. -/
def optimizedDirect (option : RangeHolderOption) (field : BEField) (bv : BoolValues) (eid : EntryID) (v : Int64) :
    Go EntriesCursors := do
  let (h, data) ← (newOptimizedRangeHolder option).buildFieldIndexingData field bv
  let h ← h.commitFieldIndexingData eid data
  let h ← h.compileEntries
  h.getEntries (int64Query [v])

def optimizedRestored (option : RangeHolderOption) (field : BEField) (bv : BoolValues) (eid : EntryID) (v : Int64) :
    Go EntriesCursors := do
  let (_, data) ← (newOptimizedRangeHolder option).buildFieldIndexingData field bv
  let data ← recoded data
  let h ← (newOptimizedRangeHolder option).commitFieldIndexingData eid data
  let h ← h.compileEntries
  h.getEntries (int64Query [v])

def SameAnswer (direct restored : Go EntriesCursors) : Prop :=
  ∃ cs cs', direct = .ok cs ∧ restored = .ok cs' ∧ cs'.ids = cs.ids

/-- The values of `[left, right)` that a `RangeIdx` tiling `[min, max)` answers. -/
def Visible (min max left right v : Int64) : Prop := v < max ∧ min ≤ left ∧ left ≤ v ∧ v < right

section

variable {option : RangeHolderOption} {field : BEField} {bv : BoolValues} {data : RangeTxData}

omit [FloatOps] in
/-- `encoding/json` gives back the exported fields, so of a range only that there was one. -/
theorem recoded_ok {bytes : Bytes} (marshal : Codec.jsonMarshal data.toJSON = .ok bytes)
    (unmarshal : Codec.jsonUnmarshal bytes = .ok data.toJSON) :
    recoded data = .ok { data with rgValue := data.rgValue.map fun _ => zeroRange } := by
  rw [recoded, RangeTxData.encode, marshal]
  change RangeTxData.decode bytes = _
  rw [RangeTxData.decode, unmarshal]
  cases data with
  | mk operator rgValue eqValues => cases rgValue <;> rfl

omit [Codec] in
theorem commit_answer (bounds : option.rangeMin < option.rangeMax) (eid : EntryID)
    (shape : (∃ vs, data = ⟨.eq, none, vs⟩) ∨ ∃ rg, data = ⟨.between, some rg, []⟩) (v : Int64) :
    ∃ cs, (do
        let h ← newNumberExtendRangeHolder option
        let h ← h.commitFieldIndexingData eid data
        h.compileEntries.getEntries (int64Query [v])) = .ok cs ∧
      ∀ e, e ∈ cs.ids ↔ e = eid ∧ data.Covers option.rangeMin option.rangeMax v := by
  obtain ⟨h₀, made, _, fresh, min, max, none⟩ := newRangeHolder_ok bounds
  obtain ⟨h, committed⟩ := h₀.commit_runs eid shape
  obtain ⟨cs, asked, ids_iff⟩ := RangeHolder.answer_ids (h := h) [v]
  refine ⟨cs, ?_, fun e => ?_⟩
  · rw [made]
    change (h₀.commitFieldIndexingData eid data >>= _) = _
    rw [committed]
    exact asked
  · rw [ids_iff]
    simp only [List.mem_singleton, exists_eq_left, RangeHolder.commit_covers fresh committed, none, false_or, min, max]

omit [FloatOps] [Codec] in
theorem commit_points_holds (option : RangeHolderOption) (eid : EntryID) (vs : List Int64) :
    ∃ h, (newOptimizedRangeHolder option).commitFieldIndexingData eid ⟨.eq, none, vs⟩ = .ok h ∧
      h.Holds [(eid, ⟨.eq, none, vs⟩)] := by
  obtain ⟨h, run, _, _, coords, pending⟩ :=
    OptimizedRangeHolder.commitPoints_ok eid vs.dedup (newOptimizedRangeHolder option) rfl
  refine ⟨h, run, fun c => ?_, fun pr => ?_⟩
  · rw [coords]
    simp [newOptimizedRangeHolder, newCoordinateCompressor, RangeTxData.Coordinate]
  · rw [pending]
    obtain ⟨l, r, e⟩ := pr
    simp only [newOptimizedRangeHolder, List.nil_append, List.mem_map, List.mem_dedup, List.mem_singleton,
      exists_eq_left, RangeTxData.Leaves, PendingRange.mk.injEq]
    constructor
    · rintro ⟨v, hv, rfl, rfl, rfl⟩
      exact ⟨hv, rfl, rfl⟩
    · rintro ⟨hv, rfl, rfl⟩
      exact ⟨_, hv, rfl, rfl, rfl⟩

theorem rangeRestored_iff (bounds : option.rangeMin < option.rangeMax)
    (accepted : RangeHolder.buildFieldIndexingData option field bv = .ok data) {data' : RangeTxData}
    (read : recoded data = .ok data')
    (shape : (∃ vs, data' = ⟨.eq, none, vs⟩) ∨ ∃ rg, data' = ⟨.between, some rg, []⟩) (eid : EntryID) (v : Int64) :
    SameAnswer (rangeDirect option field bv eid v) (rangeRestored option field bv eid v) ↔
      (data.Covers option.rangeMin option.rangeMax v ↔ data'.Covers option.rangeMin option.rangeMax v) := by
  obtain ⟨cs, direct, ids_iff⟩ := commit_answer bounds eid (RangeHolder.build_shape accepted) v
  obtain ⟨cs', restored, ids_iff'⟩ := commit_answer bounds eid shape v
  have direct' : rangeDirect option field bv eid v = .ok cs := by
    rw [rangeDirect, accepted]
    exact direct
  have restored' : rangeRestored option field bv eid v = .ok cs' := by
    rw [rangeRestored, accepted]
    change (recoded data >>= _) = _
    rw [read]
    exact restored
  rw [SameAnswer, direct', restored']
  constructor
  · rintro ⟨ds, ds', first, second, same⟩
    obtain rfl := Except.ok.inj first
    obtain rfl := Except.ok.inj second
    have := Set.ext_iff.mp same eid
    rw [ids_iff, ids_iff'] at this
    simpa using this.symm
  · intro same
    refine ⟨cs, cs', rfl, rfl, ?_⟩
    ext e
    rw [ids_iff, ids_iff', same]

theorem optimizedRestored_points {vs : List Int64}
    (accepted : RangeHolder.buildFieldIndexingData option field bv = .ok ⟨.eq, none, vs⟩)
    (read : recoded ⟨.eq, none, vs⟩ = .ok ⟨.eq, none, vs⟩) (eid : EntryID) (v : Int64) :
    SameAnswer (optimizedDirect option field bv eid v) (optimizedRestored option field bv eid v) := by
  obtain ⟨cc, built, _, _⟩ := OptimizedRangeHolder.build_same (newOptimizedRangeHolder option) rfl accepted
  obtain ⟨h, run, _, _, coords, pending⟩ :=
    OptimizedRangeHolder.expr_ok eid (newOptimizedRangeHolder option) rfl accepted
  have holds : h.Holds [(eid, ⟨.eq, none, vs⟩)] := by
    refine ⟨fun c => ?_, fun pr => ?_⟩
    · rw [coords]
      simp [newOptimizedRangeHolder, newCoordinateCompressor]
    · rw [pending]
      simp [newOptimizedRangeHolder]
  obtain ⟨h', cs, compiled, asked, ids_iff⟩ := OptimizedRangeHolder.answer_ids holds [v]
  obtain ⟨g, restored, gHolds⟩ := commit_points_holds option eid vs
  obtain ⟨g', cs', gCompiled, gAsked, ids_iff'⟩ := OptimizedRangeHolder.answer_ids gHolds [v]
  refine ⟨cs, cs', ?_, ?_, ?_⟩
  · rw [built] at run
    have committed : OptimizedRangeHolder.commitFieldIndexingData
        { newOptimizedRangeHolder option with compressor := cc } eid ⟨.eq, none, vs⟩ = .ok h := run
    rw [optimizedDirect, built]
    change (OptimizedRangeHolder.commitFieldIndexingData _ _ _ >>= _) = _
    rw [committed]
    change (h.compileEntries >>= _) = _
    rw [compiled]
    exact asked
  · rw [optimizedRestored, built]
    change (recoded _ >>= _) = _
    rw [read]
    change (OptimizedRangeHolder.commitFieldIndexingData _ _ _ >>= _) = _
    rw [restored]
    change (g.compileEntries >>= _) = _
    rw [gCompiled]
    exact gAsked
  · ext e
    rw [ids_iff, ids_iff']

/-- A kept interval read back has no coordinate, and compiling it panics. -/
theorem optimizedRestored_interval {rg : Range}
    (accepted : RangeHolder.buildFieldIndexingData option field bv = .ok ⟨.between, some rg, []⟩)
    (read : recoded ⟨.between, some rg, []⟩ = .ok ⟨.between, some zeroRange, []⟩) (eid : EntryID) (v : Int64) :
    optimizedRestored option field bv eid v = panicf "invalid memory address or nil pointer dereference" [] := by
  obtain ⟨cc, built, _, _⟩ := OptimizedRangeHolder.build_same (newOptimizedRangeHolder option) rfl accepted
  rw [optimizedRestored, built]
  change (recoded _ >>= _) = _
  rw [read]
  rfl

/-- Encoded range data survives in `RangeHolder` exactly when the expression is not kept as an interval,
or as one that answers what `[0, 1)` answers, and in `OptimizedRangeHolder` exactly when it is not
kept as an interval. -/
theorem encodedRange_survives_iff {bytes : Bytes} (bounds : option.rangeMin < option.rangeMax)
    (accepted : RangeHolder.buildFieldIndexingData option field bv = .ok data)
    (marshal : Codec.jsonMarshal data.toJSON = .ok bytes) (unmarshal : Codec.jsonUnmarshal bytes = .ok data.toJSON)
    (eid : EntryID) :
    ((∀ v, SameAnswer (rangeDirect option field bv eid v) (rangeRestored option field bv eid v)) ↔
      ∀ rg, KeepsInterval option bv rg → ∀ v, Visible option.rangeMin option.rangeMax rg.left rg.right v ↔
        Visible option.rangeMin option.rangeMax 0 1 v) ∧
    ((∀ v, SameAnswer (optimizedDirect option field bv eid v) (optimizedRestored option field bv eid v)) ↔
      ∀ rg, ¬ KeepsInterval option bv rg) := by
  have read := recoded_ok marshal unmarshal
  rcases RangeHolder.build_kept accepted with ⟨vs, rfl, never⟩ | ⟨rg, rfl, kept⟩
  · constructor
    · refine ⟨fun _ rg keeps => absurd keeps (never rg), fun _ v => ?_⟩
      exact (rangeRestored_iff bounds accepted read (Or.inl ⟨vs, rfl⟩) eid v).mpr Iff.rfl
    · exact ⟨fun _ => never, fun _ v => optimizedRestored_points accepted read eid v⟩
  · have isKept := (kept rg).mpr rfl
    constructor
    · have covers : ∀ v, (RangeTxData.mk .between (some rg) []).Covers option.rangeMin option.rangeMax v ↔
          Visible option.rangeMin option.rangeMax rg.left rg.right v := by
        intro v
        rw [Visible, ← parseRange_bump isKept.1]
        rfl
      have zero : ∀ v, (RangeTxData.mk .between (some zeroRange) []).Covers option.rangeMin option.rangeMax v ↔
          Visible option.rangeMin option.rangeMax 0 1 v := fun v => Iff.rfl
      simp only [rangeRestored_iff bounds accepted read (Or.inr ⟨zeroRange, rfl⟩) eid]
      constructor
      · intro same rg' keeps v
        obtain rfl := (kept rg').mp keeps
        rw [← covers, ← zero]
        exact same v
      · intro same v
        rw [covers, same rg isKept v, ← zero]
        rfl
    · constructor
      · intro same
        obtain ⟨_, _, _, restored, _⟩ := same 0
        rw [optimizedRestored_interval accepted read eid 0] at restored
        cases restored
      · intro never
        exact absurd isKept (never rg)

omit [FloatOps] [Codec] in
theorem encodedRange_survives_for_values :
    letI := FloatOps.noFloats
    letI := Codec.single [] [] ⟨.eq, false, [5]⟩ (str "\x7b\"operator\":0,\"eq_values\":[5]\x7d")
    (∀ v, SameAnswer (rangeDirect newRangeHolderOption (str "age") ⟨true, .ints .int64 (some [5]), .eq⟩ 17 v)
      (rangeRestored newRangeHolderOption (str "age") ⟨true, .ints .int64 (some [5]), .eq⟩ 17 v)) ∧
    (∀ v, SameAnswer (optimizedDirect newRangeHolderOption (str "age") ⟨true, .ints .int64 (some [5]), .eq⟩ 17 v)
      (optimizedRestored newRangeHolderOption (str "age") ⟨true, .ints .int64 (some [5]), .eq⟩ 17 v)) := by
  let _ := FloatOps.noFloats
  let _ := Codec.single [] [] ⟨.eq, false, [5]⟩ (str "\x7b\"operator\":0,\"eq_values\":[5]\x7d")
  obtain ⟨range, optimized⟩ := @encodedRange_survives_iff _ _ newRangeHolderOption (str "age")
    ⟨true, .ints .int64 (some [5]), .eq⟩ ⟨.eq, none, [5]⟩ (str "\x7b\"operator\":0,\"eq_values\":[5]\x7d")
    (by decide) rfl (by rfl) (by rfl) 17
  have never : ∀ rg, ¬ KeepsInterval newRangeHolderOption ⟨true, .ints .int64 (some [5]), .eq⟩ rg := by
    rintro rg ⟨parsed, _⟩
    cases parsed
  exact ⟨range.mpr fun rg kept => absurd kept (never rg), optimized.mpr never⟩

omit [FloatOps] [Codec] in
/-- `[0, 1000)` contains 5 when it is committed directly; read back, `RangeHolder` loses 5 and
`OptimizedRangeHolder` panics. -/
theorem encodedRange_lost :
    letI := FloatOps.noFloats
    letI := Codec.single [] [] ⟨.between, true, []⟩ (str "\x7b\"operator\":3,\"range\":\x7b\x7d\x7d")
    ¬ SameAnswer (rangeDirect newRangeHolderOption (str "age") ⟨true, .int64Pair 0 1000, .between⟩ 17 5)
      (rangeRestored newRangeHolderOption (str "age") ⟨true, .int64Pair 0 1000, .between⟩ 17 5) ∧
    optimizedRestored newRangeHolderOption (str "age") ⟨true, .int64Pair 0 1000, .between⟩ 17 5 =
      panicf "invalid memory address or nil pointer dereference" [] := by
  let _ := FloatOps.noFloats
  let _ := Codec.single [] [] ⟨.between, true, []⟩ (str "\x7b\"operator\":3,\"range\":\x7b\x7d\x7d")
  have accepted : RangeHolder.buildFieldIndexingData newRangeHolderOption (str "age")
      ⟨true, .int64Pair 0 1000, .between⟩ = .ok ⟨.between, some (newRange 0 1000 (by decide)), []⟩ := rfl
  have read : recoded ⟨.between, some (newRange 0 1000 (by decide)), []⟩ = .ok ⟨.between, some zeroRange, []⟩ := rfl
  refine ⟨?_, optimizedRestored_interval accepted read 17 5⟩
  rw [rangeRestored_iff (by decide) accepted read (Or.inr ⟨zeroRange, rfl⟩)]
  change ¬ (((5 : Int64) < Int64.maxValue ∧ Int64.minValue ≤ 0 ∧ (0 : Int64) ≤ 5 ∧ 5 < bumpEqual 0 (bumpEqual 0 1000)) ↔
    ((5 : Int64) < Int64.maxValue ∧ Int64.minValue ≤ 0 ∧ (0 : Int64) ≤ 5 ∧ 5 < bumpEqual 0 0))
  decide

end

end BeIndexer
