import BeIndexer.Holder.RangeCompare
import Mathlib.Data.Rat.Cast.Order

/-!
# What a range expression means

`GT` and `LT` become half-open intervals of `int64`, and an interval is expanded into its values or
kept. Which of the two is chosen shows only where an interval leaves the bounds of the index; where
the intervals of `GT` and `LT` differ from the comparison of integers is said exactly.
-/

namespace BeIndexer

/-! ### Sizes -/

/-- Rounding does not leave the binade: an integer of at most `2^63` stays at most `2^63`. -/
theorem roundF64_natAbs_le {n : Int} (small : n.natAbs ≤ 2 ^ 63) : (roundF64 n).natAbs ≤ 2 ^ 63 := by
  by_cases top : n.natAbs = 2 ^ 63
  · rcases Int.natAbs_eq n with pos | neg
    · rw [pos, top]
      decide
    · rw [neg, top]
      decide
  · simp only [roundF64]
    generalize shifted : n.natAbs.log2 + 1 - 53 = shift
    have below : n.natAbs < 2 ^ 63 := by omega
    have shift_le : shift ≤ 63 := by
      have bits : n.natAbs.log2 ≤ 63 := by
        by_cases zero : n.natAbs = 0
        · simp [zero]
        · exact le_of_lt ((Nat.log2_lt zero).mpr below)
      omega
    have whole : 2 ^ (63 - shift) * 2 ^ shift = 2 ^ 63 := by
      rw [← Nat.pow_add, Nat.sub_add_cancel shift_le]
    have quotient : n.natAbs / 2 ^ shift + 1 ≤ 2 ^ (63 - shift) := by
      refine (Nat.div_lt_iff_lt_mul (Nat.two_pow_pos shift)).mpr ?_
      rw [whole]
      exact below
    have rounded : ∀ q, q ≤ n.natAbs / 2 ^ shift + 1 → q * 2 ^ shift ≤ 2 ^ 63 := fun q le =>
      whole ▸ Nat.mul_le_mul_right _ (le.trans quotient)
    rw [Int.natAbs_mul, Int.natAbs_natCast]
    refine le_trans (Nat.mul_le_mul_right _ (m := 1) ?_) ?_
    · rcases lt_trichotomy n 0 with neg | zero | pos
      · simp [Int.sign_eq_neg_one_of_neg neg]
      · simp [zero]
      · simp [Int.sign_eq_one_of_pos pos]
    · rw [Nat.one_mul]
      refine rounded _ ?_
      split
      · exact le_refl _
      · exact Nat.le_succ _

theorem roundF64_nonneg {n : Int} (nonneg : 0 ≤ n) : 0 ≤ roundF64 n :=
  Int.mul_nonneg (Int.sign_nonneg_iff.mpr nonneg) (Int.natCast_nonneg _)

theorem roundF64_toInt (x : Int64) : -2 ^ 63 ≤ roundF64 x.toInt ∧ roundF64 x.toInt ≤ 2 ^ 63 := by
  have lo := x.le_toInt
  have hi := x.toInt_lt
  have bound := roundF64_natAbs_le (n := x.toInt) (by omega)
  omega

/-- An interval up to the largest word or from the smallest one has a size that `make` accepts. -/
theorem Range.size_nonneg {rg : Range} (unbounded : rg.right = Int64.maxValue ∨ rg.left = Int64.minValue) :
    0 ≤ rg.size := by
  refine roundF64_nonneg ?_
  rcases unbounded with right | left
  · rw [right, show roundF64 Int64.maxValue.toInt = 2 ^ 63 by decide]
    have le := (roundF64_toInt rg.left).2
    omega
  · rw [left, show roundF64 Int64.minValue.toInt = -2 ^ 63 by decide]
    have ge := (roundF64_toInt rg.right).1
    omega

/-! ### Expanded or kept -/

/-- What `BuildFieldIndexingData` can make of a parsed range: its values, or the interval itself. -/
def Range.Decided (rg : Range) (data : RangeTxData) : Prop :=
  data = ⟨.eq, none, rg.values⟩ ∨ data = ⟨.between, some rg, []⟩

theorem Range.Decided.shape {rg : Range} {data : RangeTxData} (decided : rg.Decided data) :
    (∃ vs, data = ⟨.eq, none, vs⟩) ∨ ∃ rg, data = ⟨.between, some rg, []⟩ :=
  decided.imp (fun expanded => ⟨_, expanded⟩) (fun kept => ⟨_, kept⟩)

theorem Range.Decided.covers {rg : Range} {data : RangeTxData} {min max : Int64} (decided : rg.Decided data)
    (ordered : rg.left < rg.right) (inside : min ≤ rg.left ∧ rg.right ≤ max) (v : Int64) :
    data.Covers min max v ↔ rg.left ≤ v ∧ v < rg.right := by
  rcases decided with rfl | rfl
  · exact Range.mem_values
  · simp only [RangeTxData.Covers, bumpEqual, if_neg (ne_of_lt ordered), inside.1, true_and]
    exact ⟨fun covers => covers.2, fun within => ⟨lt_of_lt_of_le within.2 inside.2, within⟩⟩

variable [FloatOps]

theorem RangeHolder.build_decided {option : RangeHolderOption} {field : BEField} {bv : BoolValues} {rg : Range}
    {data : RangeTxData} (isRange : bv.operator ≠ .eq)
    (parsed : parseRange bv.operator bv.value option.enableFloat2Int = .ok rg)
    (built : RangeHolder.buildFieldIndexingData option field bv = .ok data) : rg.Decided data := by
  unfold buildFieldIndexingData at built
  split at built
  · rename_i isEq
    exact absurd isEq isRange
  · cases built
  · rw [parsed] at built
    obtain ⟨_, same, rest⟩ := bind_eq_ok.mp built
    obtain rfl := Except.ok.inj same
    split at rest
    · obtain ⟨vs, sliced, done⟩ := bind_eq_ok.mp rest
      obtain ⟨_, _, values⟩ := bind_eq_ok.mp sliced
      obtain rfl := Except.ok.inj values
      exact Or.inl (Except.ok.inj done).symm
    · exact Or.inr (Except.ok.inj rest).symm

theorem RangeHolder.build_runs (field : BEField) {bv : BoolValues} {rg : Range}
    (isRange : bv.operator = .gt ∨ bv.operator = .lt ∨ bv.operator = .between)
    (parsed : parseRange bv.operator bv.value newRangeHolderOption.enableFloat2Int = .ok rg) (nonneg : 0 ≤ rg.size) :
    ∃ data, RangeHolder.buildFieldIndexingData newRangeHolderOption field bv = .ok data := by
  have sliced : newRangeHolderOption.rangeCvtValuesSize.admits rg.size = true → makeSlice rg.size = .ok () := by
    intro small
    have below : rg.size < 256 := by
      have lt : (rg.size : Rat) < (256 : Int) := of_decide_eq_true small
      exact_mod_cast lt
    rw [makeSlice, panicIf_eq_ok]
    simp only [Bool.or_eq_false_iff, decide_eq_false_iff_not]
    omega
  have rest : ∃ data, (if newRangeHolderOption.rangeCvtValuesSize.admits rg.size then do
      let vs ← rg.toSlice
      return { operator := .eq, rgValue := none, eqValues := vs }
    else return { operator := .between, rgValue := some rg, eqValues := [] } : Go RangeTxData) = .ok data := by
    split
    · rename_i small
      rw [Range.toSlice, sliced small]
      exact ⟨_, rfl⟩
    · exact ⟨_, rfl⟩
  rcases isRange with op | op | op
  all_goals
    rw [op] at parsed
    simp only [buildFieldIndexingData, op, parsed]
    exact rest

/-! ### The threshold -/

section Threshold

variable {option : RangeHolderOption} {exprs : List (EntryID × Range)}

/-- The prepared data of a list of ranges, each of them expanded or kept. -/
def Decisions (exprs : List (EntryID × Range)) (log : List (EntryID × RangeTxData)) : Prop :=
  List.Forall₂ (fun x y => y.1 = x.1 ∧ x.2.Decided y.2) exprs log

/-- A new container with the prepared data, compiled and asked. -/
def decidedAnswer (option : RangeHolderOption) (log : List (EntryID × RangeTxData)) (ids : List Int64) :
    Go EntriesCursors := do
  let h ← newNumberExtendRangeHolder option
  let h ← h.commitAll log
  h.compileEntries.getEntries (int64Query ids)

theorem decidedAnswer_ids (option : RangeHolderOption) {log : List (EntryID × RangeTxData)}
    (bounds : option.rangeMin < option.rangeMax) (decisions : Decisions exprs log) (ids : List Int64) :
    ∃ cs, decidedAnswer option log ids = .ok cs ∧ cs.New ∧ ∀ e, e ∈ cs.ids ↔
      ∃ v ∈ ids, ∃ x ∈ log, x.1 = e ∧ x.2.Covers option.rangeMin option.rangeMax v := by
  obtain ⟨h₀, made, rfl, fresh, min, max, none⟩ := newRangeHolder_ok bounds
  have shapes : ∀ x ∈ log, (∃ vs, x.2 = ⟨.eq, Option.none, vs⟩) ∨ ∃ rg, x.2 = ⟨.between, some rg, []⟩ := by
    intro x mem
    obtain ⟨_, _, _, decided⟩ := forall₂_right decisions mem
    exact decided.shape
  obtain ⟨h, run, _, covers⟩ := h₀.commitAll_covers fresh shapes
  obtain ⟨cs, asked, ids_iff⟩ := RangeHolder.answer_ids (h := h) ids
  refine ⟨cs, ?_, RangeHolder.getEntries_new asked, fun e => ?_⟩
  · rw [decidedAnswer, made]
    change (RangeHolder.commitAll _ log >>= _) = _
    rw [run]
    exact asked
  · simp only [ids_iff, covers, none, min, max, false_or]

omit [FloatOps] in
theorem decided_covers_iff {log : List (EntryID × RangeTxData)} {min max v : Int64} {e : EntryID}
    (decisions : Decisions exprs log) (ordered : ∀ x ∈ exprs, x.2.left < x.2.right)
    (inside : ∀ x ∈ exprs, min ≤ x.2.left ∧ x.2.right ≤ max) :
    (∃ y ∈ log, y.1 = e ∧ y.2.Covers min max v) ↔ ∃ x ∈ exprs, x.1 = e ∧ x.2.left ≤ v ∧ v < x.2.right := by
  constructor
  · rintro ⟨y, mem, rfl, covers⟩
    obtain ⟨x, mem', same, decided⟩ := forall₂_right decisions mem
    exact ⟨x, mem', same.symm, (decided.covers (ordered x mem') (inside x mem') v).mp covers⟩
  · rintro ⟨x, mem, rfl, within⟩
    obtain ⟨y, mem', same, decided⟩ := forall₂_left decisions mem
    exact ⟨y, mem', same, (decided.covers (ordered x mem) (inside x mem) v).mpr within⟩

omit [FloatOps] in
theorem exists_last {l r : Int64} (lt : l < r) : ∃ v, l ≤ v ∧ v < r ∧ ∀ max, v < max → r ≤ max := by
  have lt' := Int64.lt_iff_toInt_lt.mp lt
  have lo := l.le_toInt
  have hi := r.toInt_lt
  have value : (Int64.ofInt (r.toInt - 1)).toInt = r.toInt - 1 := Int64.toInt_ofInt_of_le (by omega) (by omega)
  refine ⟨Int64.ofInt (r.toInt - 1), ?_, ?_, fun max below => ?_⟩
  · rw [Int64.le_iff_toInt_le, value]
    omega
  · rw [Int64.lt_iff_toInt_lt, value]
    omega
  · rw [Int64.lt_iff_toInt_lt, value] at below
    rw [Int64.le_iff_toInt_le]
    omega

def expandAll (exprs : List (EntryID × Range)) : List (EntryID × RangeTxData) :=
  exprs.map fun x => (x.1, ⟨.eq, none, x.2.values⟩)

def keepAll (exprs : List (EntryID × Range)) : List (EntryID × RangeTxData) :=
  exprs.map fun x => (x.1, ⟨.between, some x.2, []⟩)

omit [FloatOps] in
theorem decisions_expandAll (exprs : List (EntryID × Range)) : Decisions exprs (expandAll exprs) :=
  List.forall₂_map_right_iff.mpr (List.forall₂_same.mpr fun _ _ => ⟨rfl, Or.inl rfl⟩)

omit [FloatOps] in
theorem decisions_keepAll (exprs : List (EntryID × Range)) : Decisions exprs (keepAll exprs) :=
  List.forall₂_map_right_iff.mpr (List.forall₂_same.mpr fun _ _ => ⟨rfl, Or.inr rfl⟩)

omit [FloatOps] in
theorem keepAll_bounds {min max v : Int64} {e : EntryID}
    (covers : ∃ y ∈ keepAll exprs, y.1 = e ∧ y.2.Covers min max v) : min ≤ v ∧ v < max := by
  obtain ⟨y, mem, _, covers⟩ := covers
  obtain ⟨x, _, rfl⟩ := List.mem_map.mp mem
  obtain ⟨below, ge, le, _⟩ := covers
  exact ⟨ge.trans le, below⟩

/-- If expanding and keeping answer alike, a value of an interval lies within the bounds. -/
theorem value_inside {x : EntryID × Range} {v : Int64} (bounds : option.rangeMin < option.rangeMax) (mem : x ∈ exprs)
    (within : x.2.left ≤ v ∧ v < x.2.right)
    (alike : ∃ cs₁ cs₂, decidedAnswer option (expandAll exprs) [v] = .ok cs₁ ∧
      decidedAnswer option (keepAll exprs) [v] = .ok cs₂ ∧ cs₁.ids = cs₂.ids) :
    option.rangeMin ≤ v ∧ v < option.rangeMax := by
  obtain ⟨cs₁, cs₂, ran₁, ran₂, same⟩ := alike
  obtain ⟨cs₁', ran₁', _, expanded⟩ := decidedAnswer_ids option bounds (decisions_expandAll exprs) [v]
  obtain ⟨cs₂', ran₂', _, kept⟩ := decidedAnswer_ids option bounds (decisions_keepAll exprs) [v]
  obtain rfl := Except.ok.inj (ran₁.symm.trans ran₁')
  obtain rfl := Except.ok.inj (ran₂.symm.trans ran₂')
  have found : x.1 ∈ cs₁.ids :=
    (expanded x.1).mpr ⟨v, List.mem_singleton_self v, _, List.mem_map_of_mem mem, rfl, Range.mem_values.mpr within⟩
  rw [same] at found
  obtain ⟨v', only, covers⟩ := (kept x.1).mp found
  obtain rfl := List.mem_singleton.mp only
  exact keepAll_bounds covers

def Parses (enableF2I : Bool) (bvs : List (EntryID × BoolValues)) (exprs : List (EntryID × Range)) : Prop :=
  List.Forall₂ (fun bv x => bv.1 = x.1 ∧ bv.2.operator ≠ .eq ∧
    parseRange bv.2.operator bv.2.value enableF2I = .ok x.2) bvs exprs

theorem prepareAll_decisions (option : RangeHolderOption) {field : BEField} {bvs : List (EntryID × BoolValues)}
    {log : List (EntryID × RangeTxData)} (parses : Parses option.enableFloat2Int bvs exprs)
    (prepared : prepareAll option field bvs = .ok log) : Decisions exprs log := by
  induction parses generalizing log with
  | nil =>
    obtain rfl : log = [] := (Except.ok.inj prepared).symm
    exact .nil
  | @cons bv x bvs exprs one _ ih =>
    cases mapM_eq_ok.mp prepared with
    | cons first rest =>
      obtain ⟨data, built, same⟩ := bind_eq_ok.mp first
      obtain rfl := Except.ok.inj same
      exact .cons ⟨one.1, RangeHolder.build_decided one.2.1 one.2.2 built⟩ (ih (mapM_eq_ok.mpr rest))

theorem rangeAnswer_decided (option : RangeHolderOption) {field : BEField} {bvs : List (EntryID × BoolValues)}
    {log : List (EntryID × RangeTxData)} (bounds : option.rangeMin < option.rangeMax)
    (prepared : prepareAll option field bvs = .ok log) (ids : List Int64) :
    rangeAnswer option field bvs ids = decidedAnswer option log ids := by
  obtain ⟨h, made, rfl, _⟩ := newRangeHolder_ok bounds
  rw [rangeAnswer, decidedAnswer, made]
  change (h.load field bvs >>= _) = (h.commitAll log >>= _)
  rw [h.load_prepared prepared]

/-- Whether ranges are expanded or kept does not show in the answers exactly if every one of them lies
within the bounds of the index. Every threshold is such a choice. -/
theorem rangeCvtValuesSize_invisible_iff (bounds : option.rangeMin < option.rangeMax)
    (ordered : ∀ x ∈ exprs, x.2.left < x.2.right) :
    ((∀ (t₁ t₂ : SizeBound) (log₁ log₂ : List (EntryID × RangeTxData)) (ids : List Int64),
        Decisions exprs log₁ → Decisions exprs log₂ →
        ∃ cs₁ cs₂, decidedAnswer { option with rangeCvtValuesSize := t₁ } log₁ ids = .ok cs₁ ∧
          decidedAnswer { option with rangeCvtValuesSize := t₂ } log₂ ids = .ok cs₂ ∧
          cs₁.ids = cs₂.ids ∧ ∀ c, c ∈ cs₁ ∨ c ∈ cs₂ → c.entries.Pairwise (· ≤ ·)) ↔
      ∀ x ∈ exprs, option.rangeMin ≤ x.2.left ∧ x.2.right ≤ option.rangeMax) ∧
    ∀ (t : SizeBound) (field : BEField) (bvs : List (EntryID × BoolValues)) (log : List (EntryID × RangeTxData)),
      Parses option.enableFloat2Int bvs exprs →
      prepareAll { option with rangeCvtValuesSize := t } field bvs = .ok log →
      Decisions exprs log ∧ ∀ ids, rangeAnswer { option with rangeCvtValuesSize := t } field bvs ids =
        decidedAnswer { option with rangeCvtValuesSize := t } log ids := by
  refine ⟨⟨fun alike x mem => ?_, fun inside t₁ t₂ log₁ log₂ ids decisions₁ decisions₂ => ?_⟩,
    fun t field bvs log parses prepared => ?_⟩
  · have inside : ∀ v, x.2.left ≤ v ∧ v < x.2.right → option.rangeMin ≤ v ∧ v < option.rangeMax := by
      intro v within
      obtain ⟨cs₁, cs₂, ran₁, ran₂, same, _⟩ := alike option.rangeCvtValuesSize option.rangeCvtValuesSize
        (expandAll exprs) (keepAll exprs) [v] (decisions_expandAll _) (decisions_keepAll _)
      exact value_inside bounds mem within ⟨cs₁, cs₂, ran₁, ran₂, same⟩
    obtain ⟨last, ge, lt, least⟩ := exists_last (ordered x mem)
    exact ⟨(inside _ ⟨le_refl _, ordered x mem⟩).1, least _ (inside _ ⟨ge, lt⟩).2⟩
  · obtain ⟨cs₁, ran₁, new₁, ids₁⟩ :=
      decidedAnswer_ids { option with rangeCvtValuesSize := t₁ } bounds decisions₁ ids
    obtain ⟨cs₂, ran₂, new₂, ids₂⟩ :=
      decidedAnswer_ids { option with rangeCvtValuesSize := t₂ } bounds decisions₂ ids
    refine ⟨cs₁, cs₂, ran₁, ran₂, Set.ext fun e => ?_, ?_⟩
    · rw [ids₁, ids₂]
      simp only [decided_covers_iff decisions₁ ordered inside, decided_covers_iff decisions₂ ordered inside]
    · rintro c (mem | mem)
      · obtain ⟨entries, rfl, _, sorted⟩ := new₁ c mem
        exact sorted
      · obtain ⟨entries, rfl, _, sorted⟩ := new₂ c mem
        exact sorted
  · exact ⟨prepareAll_decisions { option with rangeCvtValuesSize := t } parses prepared,
      rangeAnswer_decided { option with rangeCvtValuesSize := t } bounds prepared⟩

omit [FloatOps] in
/-- `[0, 10)` in a container with the default bounds. -/
theorem rangeCvtValuesSize_invisible_default :
    letI := FloatOps.noFloats
    ∃ cs₁ cs₂,
      decidedAnswer newRangeHolderOption (expandAll [(newEntryID 1 true, newRange 0 10 (by decide))]) [5] = .ok cs₁ ∧
      decidedAnswer newRangeHolderOption (keepAll [(newEntryID 1 true, newRange 0 10 (by decide))]) [5] = .ok cs₂ ∧
      cs₁.ids = cs₂.ids ∧ ∀ c, c ∈ cs₁ ∨ c ∈ cs₂ → c.entries.Pairwise (· ≤ ·) :=
  (@rangeCvtValuesSize_invisible_iff FloatOps.noFloats newRangeHolderOption
    [(newEntryID 1 true, newRange 0 10 (by decide))] (by decide) (by decide)).1.mpr (by decide)
    (.below 256) (.below 256) _ _ [5] (decisions_expandAll _) (decisions_keepAll _)

omit [FloatOps] in
/-- In a container for `[0, 100)` the range `[-5, 5)` answers 3 if it is expanded. Kept, it is dropped:
no cell contains its left end. -/
theorem rangeCvtValuesSize_drops_range :
    letI := FloatOps.noFloats
    ∃ cs₁ cs₂,
      rangeAnswer { newRangeHolderOption with rangeMin := 0, rangeMax := 100, rangeCvtValuesSize := .below 256 }
        (str "age") [(newEntryID 1 true, ⟨true, .int64Pair (-5) 5, .between⟩)] [3] = .ok cs₁ ∧
      rangeAnswer { newRangeHolderOption with rangeMin := 0, rangeMax := 100, rangeCvtValuesSize := .below 0 }
        (str "age") [(newEntryID 1 true, ⟨true, .int64Pair (-5) 5, .between⟩)] [3] = .ok cs₂ ∧
      newEntryID 1 true ∈ cs₁.ids ∧ newEntryID 1 true ∉ cs₂.ids := by
  let _ := FloatOps.noFloats
  let rg := newRange (-5) 5 (by decide)
  have expanded : prepareAll
      { newRangeHolderOption with rangeMin := 0, rangeMax := 100, rangeCvtValuesSize := .below 256 } (str "age")
      [(newEntryID 1 true, ⟨true, .int64Pair (-5) 5, .between⟩)] =
        .ok [(newEntryID 1 true, ⟨.eq, none, rg.values⟩)] := rfl
  have kept : prepareAll
      { newRangeHolderOption with rangeMin := 0, rangeMax := 100, rangeCvtValuesSize := .below 0 } (str "age")
      [(newEntryID 1 true, ⟨true, .int64Pair (-5) 5, .between⟩)] =
        .ok [(newEntryID 1 true, ⟨.between, some rg, []⟩)] := rfl
  obtain ⟨cs₁, asked₁, ids₁⟩ := rangeAnswer_ids (by decide) expanded [3]
  obtain ⟨cs₂, asked₂, ids₂⟩ := rangeAnswer_ids (by decide) kept [3]
  refine ⟨cs₁, cs₂, asked₁, asked₂, ?_, ?_⟩
  · rw [ids₁]
    refine ⟨3, List.mem_singleton_self _, _, List.mem_singleton_self _, rfl, ?_⟩
    exact Range.mem_values.mpr (by decide)
  · rw [ids₂]
    rintro ⟨v, _, x, mem, _, covers⟩
    obtain rfl := List.mem_singleton.mp mem
    exact absurd covers.2.1 (by decide)

end Threshold

/-! ### The comparisons -/

/-- The values of a Go integer type; `int` and `uint` have 64 bits. -/
def IntKind.Fits : IntKind → Int → Prop
  | .int, n | .int64, n => -2 ^ 63 ≤ n ∧ n < 2 ^ 63
  | .int8, n => -2 ^ 7 ≤ n ∧ n < 2 ^ 7
  | .int16, n => -2 ^ 15 ≤ n ∧ n < 2 ^ 15
  | .int32, n => -2 ^ 31 ≤ n ∧ n < 2 ^ 31
  | .uint, n | .uint64, n => 0 ≤ n ∧ n < 2 ^ 64
  | .uint8, n => 0 ≤ n ∧ n < 2 ^ 8
  | .uint16, n => 0 ≤ n ∧ n < 2 ^ 16
  | .uint32, n => 0 ≤ n ∧ n < 2 ^ 32

omit [FloatOps] in
theorem IntKind.Fits.bounds {kind : IntKind} {n : Int} (fits : kind.Fits n) : -2 ^ 63 ≤ n ∧ n < 2 ^ 64 := by
  cases kind
  all_goals
    simp only [IntKind.Fits] at fits
    omega

omit [FloatOps] in
/-- Reading a query value as an `int64` reinterprets the upper half of the unsigned words. -/
theorem toInt_query {n : Int} (lo : -2 ^ 63 ≤ n) (hi : n < 2 ^ 64) :
    (Int64.ofInt n).toInt = if n < 2 ^ 63 then n else n - 2 ^ 64 := by
  split
  · exact Int64.toInt_ofInt_of_le (by omega) (by omega)
  · rw [Int64.toInt_ofInt, Int.bmod_def]
    simp only [Int.reducePow, Int64.size] at *
    omega

namespace RangeHolder

/-- A container with the default options that is still open and has no entry of `eid`. -/
structure Awaits (h : RangeHolder) (eid : EntryID) : Prop where
  option : h.option = newRangeHolderOption
  opened : h.rangeIdx.compiled = false
  min : h.rangeIdx.valueMin = Int64.minValue
  max : h.rangeIdx.valueMax = Int64.maxValue
  unused : ∀ v, ¬ h.Covers v eid

/-- Building and committing the expression does not fail, and the compiled container returns its
entry id for the query exactly if `expected`. -/
def AnswersAs (h : RangeHolder) (field : BEField) (eid : EntryID) (bv : BoolValues) (query : Value) (expected : Prop) :
    Prop :=
  ∃ data h' cs, buildFieldIndexingData h.option field bv = .ok data ∧ h.commitFieldIndexingData eid data = .ok h' ∧
    h'.compileEntries.getEntries query = .ok cs ∧ (eid ∈ cs.ids ↔ expected)

variable {h : RangeHolder} {eid : EntryID} {field : BEField}

theorem answersAs_iff {rg : Range} (field : BEField) (bv : BoolValues) (awaits : h.Awaits eid)
    (isRange : bv.operator = .gt ∨ bv.operator = .lt ∨ bv.operator = .between)
    (parsed : parseRange bv.operator bv.value newRangeHolderOption.enableFloat2Int = .ok rg) (nonneg : 0 ≤ rg.size)
    (ordered : rg.left < rg.right) (kind : IntKind) (n : Int) (expected : Prop) :
    h.AnswersAs field eid bv (.scalar (.int kind n)) expected ↔
      ((rg.left ≤ Int64.ofInt n ∧ Int64.ofInt n < rg.right) ↔ expected) := by
  have asks : ∀ h' data, buildFieldIndexingData h.option field bv = .ok data →
      h.commitFieldIndexingData eid data = .ok h' →
      ∃ cs, h'.compileEntries.getEntries (.scalar (.int kind n)) = .ok cs ∧
        (eid ∈ cs.ids ↔ rg.left ≤ Int64.ofInt n ∧ Int64.ofInt n < rg.right) := by
    intro h' data built committed
    have decided : rg.Decided data := by
      refine build_decided ?_ (awaits.option ▸ parsed) built
      rcases isRange with op | op | op <;> simp [op]
    have reads : parseIntegers (.scalar (.int kind n)) h'.option.enableFloat2Int = .ok [Int64.ofInt n] := rfl
    obtain ⟨cs, asked⟩ := getEntries_runs (h := h'.compileEntries) reads
    refine ⟨cs, asked, ?_⟩
    have inside : h.rangeIdx.valueMin ≤ rg.left ∧ rg.right ≤ h.rangeIdx.valueMax :=
      ⟨awaits.min ▸ Int64.minValue_le _, awaits.max ▸ Int64.le_maxValue _⟩
    simp only [getEntries_ids reads asked, List.mem_singleton, exists_eq_left, commit_covers awaits.opened committed,
      awaits.unused, false_or, true_and, decided.covers ordered inside]
  constructor
  · rintro ⟨data, h', cs, built, committed, asked, iff⟩
    obtain ⟨cs', asked', found⟩ := asks h' data built committed
    obtain rfl := Except.ok.inj (asked.symm.trans asked')
    exact found.symm.trans iff
  · intro iff
    obtain ⟨data, built⟩ := build_runs field isRange parsed nonneg
    rw [← awaits.option] at built
    obtain ⟨h', committed⟩ := h.commit_runs eid (build_shape built)
    obtain ⟨cs, asked, found⟩ := asks h' data built committed
    exact ⟨data, h', cs, built, committed, asked, found.trans iff⟩

theorem parseRange_gt (x : Int64) (f2i : Bool) :
    parseRange .gt (int64Value x) f2i = .ok (newRange (x + 1) Int64.maxValue (Int64.le_maxValue _)) := by
  simp [parseRange, int64Value, parseIntegerValue, parseIntegerNumber, wrapErr, bind, Except.bind, pure, Except.pure]

theorem parseRange_lt (x : Int64) (f2i : Bool) :
    parseRange .lt (int64Value x) f2i = .ok (newRange Int64.minValue x (Int64.minValue_le _)) := by
  simp [parseRange, int64Value, parseIntegerValue, parseIntegerNumber, wrapErr, bind, Except.bind, pure, Except.pure]

/-- Where `GT x` means `x < n`. The largest `int64` is never found, `x + 1` wraps for it, one below it
the interval is empty and its size negative; from `2^63` on a query value is read as a negative one. -/
def GtMeans (x : Int64) (n : Int) : Prop :=
  x ≠ Int64.maxValue - 1 ∧
    if n < 2 ^ 63 then (x = Int64.maxValue ↔ n = Int64.maxValue.toInt)
    else x = Int64.maxValue ∨ x.toInt < n - 2 ^ 64

/-- Where `LT x` means `n < x`. The empty interval below the smallest `int64` is widened by one. -/
def LtMeans (x : Int64) (n : Int) : Prop :=
  if n < 2 ^ 63 then x ≠ Int64.minValue ∨ n ≠ Int64.minValue.toInt
  else x.toInt ≤ n - 2 ^ 64 ∧ (x ≠ Int64.minValue ∨ n ≠ 2 ^ 63)

theorem gt_panics (expected : Prop) (query : Value) (option : h.option = newRangeHolderOption) (incl : Bool) :
    ¬ h.AnswersAs field eid ⟨incl, int64Value (Int64.maxValue - 1), .gt⟩ query expected := by
  rintro ⟨data, _, _, built, _⟩
  rw [option] at built
  simp only [buildFieldIndexingData, parseRange_gt] at built
  cases built

omit [FloatOps] in
theorem toInt_maxValue_sub_one : (Int64.maxValue - 1).toInt = 2 ^ 63 - 2 := by decide

theorem gt_iff {kind : IntKind} {n : Int} (awaits : h.Awaits eid) (fits : kind.Fits n) (incl : Bool) (x : Int64) :
    h.AnswersAs field eid ⟨incl, int64Value x, .gt⟩ (.scalar (.int kind n)) (x.toInt < n) ↔ GtMeans x n := by
  by_cases last : x = Int64.maxValue - 1
  · subst last
    exact ⟨fun answers => (gt_panics _ _ awaits.option _ answers).elim, fun means => absurd rfl means.1⟩
  · have xlo := x.le_toInt
    have xhi := x.toInt_lt
    have top : Int64.maxValue.toInt = 2 ^ 63 - 1 := rfl
    have next : (x + 1).toInt = if x.toInt = 2 ^ 63 - 1 then -2 ^ 63 else x.toInt + 1 := by
      split
      · rename_i isMax
        obtain rfl : x = Int64.maxValue := Int64.toInt_inj.mp isMax
        decide
      · rename_i notMax
        exact toInt_succ (lt_maxValue fun same => notMax (same ▸ rfl))
    have notLast : x.toInt ≠ 2 ^ 63 - 2 :=
      fun same => last (Int64.toInt_inj.mp (same.trans toInt_maxValue_sub_one.symm))
    have ordered : x + 1 < Int64.maxValue := by
      rw [Int64.lt_iff_toInt_lt, next, top]
      split <;> omega
    have right : (newRange (x + 1) Int64.maxValue (Int64.le_maxValue _)).right = Int64.maxValue :=
      if_neg (ne_of_lt ordered)
    obtain ⟨lo, hi⟩ := fits.bounds
    rw [answersAs_iff field ⟨incl, int64Value x, .gt⟩ awaits (Or.inl rfl) (parseRange_gt x _)
      (Range.size_nonneg (Or.inl right)) (lt_of_lt_of_eq ordered right.symm), right, GtMeans, and_iff_right last]
    change (x + 1 ≤ Int64.ofInt n ∧ Int64.ofInt n < Int64.maxValue ↔ x.toInt < n) ↔ _
    rw [Int64.le_iff_toInt_le, Int64.lt_iff_toInt_lt, next, top, toInt_query lo hi, ← Int64.toInt_inj, top]
    split <;> split <;> omega

theorem lt_iff {kind : IntKind} {n : Int} (awaits : h.Awaits eid) (fits : kind.Fits n) (incl : Bool) (x : Int64) :
    h.AnswersAs field eid ⟨incl, int64Value x, .lt⟩ (.scalar (.int kind n)) (n < x.toInt) ↔ LtMeans x n := by
  have xlo := x.le_toInt
  have xhi := x.toInt_lt
  have bottom : Int64.minValue.toInt = -2 ^ 63 := rfl
  have right : (bumpEqual Int64.minValue x).toInt = if x.toInt = -2 ^ 63 then -2 ^ 63 + 1 else x.toInt := by
    unfold bumpEqual
    split
    · rename_i isMin
      subst isMin
      decide
    · rename_i notMin
      rw [if_neg fun same => notMin (Int64.toInt_inj.mp (bottom.trans same.symm))]
  have ordered : Int64.minValue < bumpEqual Int64.minValue x := by
    rw [Int64.lt_iff_toInt_lt, right, bottom]
    split <;> omega
  obtain ⟨lo, hi⟩ := fits.bounds
  rw [answersAs_iff field ⟨incl, int64Value x, .lt⟩ awaits (Or.inr (Or.inl rfl)) (parseRange_lt x _)
    (Range.size_nonneg (Or.inr rfl)) ordered, LtMeans]
  change (Int64.minValue ≤ Int64.ofInt n ∧ Int64.ofInt n < bumpEqual Int64.minValue x ↔ n < x.toInt) ↔ _
  rw [Int64.le_iff_toInt_le, Int64.lt_iff_toInt_lt, right, toInt_query lo hi, ne_eq, ← Int64.toInt_inj, bottom]
  split <;> split <;> omega

/-- `GT` and `LT` mean the comparison of integers exactly outside the ends of the words. -/
theorem comparison_means_iff {kind : IntKind} {n : Int} (awaits : h.Awaits eid) (fits : kind.Fits n) (incl : Bool)
    (x : Int64) :
    (h.AnswersAs field eid ⟨incl, int64Value x, .gt⟩ (.scalar (.int kind n)) (x.toInt < n) ↔ GtMeans x n) ∧
    (h.AnswersAs field eid ⟨incl, int64Value x, .lt⟩ (.scalar (.int kind n)) (n < x.toInt) ↔ LtMeans x n) :=
  ⟨gt_iff awaits fits incl x, lt_iff awaits fits incl x⟩

omit [FloatOps] in
theorem new_awaits (eid : EntryID) :
    ∃ h, newNumberExtendRangeHolder newRangeHolderOption = .ok h ∧ h.Awaits eid := by
  have bounds : newRangeHolderOption.rangeMin < newRangeHolderOption.rangeMax := by decide
  obtain ⟨h, made, option, opened, min, max, none⟩ := newRangeHolder_ok bounds
  exact ⟨h, made, option, opened, min, max, fun v => none v eid⟩

omit [FloatOps] in
/-- `GT 5` finds the `uint8` 7. -/
theorem comparison_means_small :
    letI := FloatOps.noFloats
    ∃ h, newNumberExtendRangeHolder newRangeHolderOption = .ok h ∧
      h.AnswersAs (str "age") (newEntryID 1 true) ⟨true, int64Value 5, .gt⟩ (.scalar (.int .uint8 7))
        ((5 : Int64).toInt < 7) := by
  let _ := FloatOps.noFloats
  obtain ⟨h, made, awaits⟩ := new_awaits (newEntryID 1 true)
  have fits : IntKind.Fits .uint8 7 := ⟨by decide, by decide⟩
  exact ⟨h, made, (comparison_means_iff awaits fits true 5).1.mpr ⟨by decide, by decide⟩⟩

omit [FloatOps] in
/-- One below the largest `int64` `GT` panics; for the largest one it finds 0; the `uint64` `2^63` is not
found by `GT 5`; and below the smallest `int64` `LT` finds the smallest one. -/
theorem comparison_fails_at_ends :
    letI := FloatOps.noFloats
    buildFieldIndexingData newRangeHolderOption (str "age") ⟨true, int64Value (Int64.maxValue - 1), .gt⟩ =
      panicf "makeslice: cap out of range" [] ∧
    ∃ h, newNumberExtendRangeHolder newRangeHolderOption = .ok h ∧
      ¬ h.AnswersAs (str "age") (newEntryID 1 true) ⟨true, int64Value Int64.maxValue, .gt⟩ (.scalar (.int .int64 0))
        (Int64.maxValue.toInt < 0) ∧
      ¬ h.AnswersAs (str "age") (newEntryID 1 true) ⟨true, int64Value 5, .gt⟩ (.scalar (.int .uint64 (2 ^ 63)))
        ((5 : Int64).toInt < 2 ^ 63) ∧
      ¬ h.AnswersAs (str "age") (newEntryID 1 true) ⟨true, int64Value Int64.minValue, .lt⟩
        (.scalar (.int .int64 (-2 ^ 63))) (-2 ^ 63 < Int64.minValue.toInt) := by
  let _ := FloatOps.noFloats
  obtain ⟨h, made, awaits⟩ := new_awaits (newEntryID 1 true)
  have zero : IntKind.Fits .int64 0 := ⟨by decide, by decide⟩
  have large : IntKind.Fits .uint64 (2 ^ 63) := ⟨by decide, by decide⟩
  have least : IntKind.Fits .int64 (-2 ^ 63) := ⟨by decide, by decide⟩
  refine ⟨?_, h, made, ?_, ?_, ?_⟩
  · simp only [buildFieldIndexingData, parseRange_gt]
    rfl
  · rw [gt_iff awaits zero, GtMeans]
    decide
  · rw [gt_iff awaits large, GtMeans]
    decide
  · rw [lt_iff awaits least, LtMeans]
    decide

end RangeHolder

end BeIndexer
