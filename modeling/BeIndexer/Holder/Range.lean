import BeIndexer.Document
import BeIndexer.Holder.RangeIdx
import BeIndexer.Parser
import BeIndexer.Scanner
import Mathlib.Data.List.Dedup
import Mathlib.Data.Rat.Init

/-!
# The range container (`term_ext_range_holder.go`)

`RangeHolder` keeps points in a map and intervals in a `RangeIdx`. A range expression that is small
enough is expanded into points when it is prepared.
-/

namespace BeIndexer

open Tiling

/-! ### Sizes as `float64` -/

/-- `float64(n)`, whose value is an integer: 53 bits, ties to even. -/
def roundF64 (n : Int) : Int :=
  let m := n.natAbs
  let shift := m.log2 + 1 - 53
  let q := m / 2 ^ shift
  let r := m % 2 ^ shift
  let q := if 2 * r > 2 ^ shift || (2 * r == 2 ^ shift && q % 2 == 1) then q + 1 else q
  n.sign * (q * 2 ^ shift : Nat)

def Range.size (rg : Range) : Int := roundF64 (roundF64 rg.right.toInt - roundF64 rg.left.toInt)

/-- The `float64` that a size is compared with. Neither NaN nor -Inf is above any size. -/
inductive SizeBound where
  | nothing
  | below (bound : Rat)
  | anything
  deriving DecidableEq

def SizeBound.admits (size : Int) : SizeBound → Bool
  | .nothing => false
  | .below bound => decide ((size : Rat) < bound)
  | .anything => true

structure RangeHolderOption where
  enableFloat2Int : Bool
  rangeCvtValuesSize : SizeBound
  rangeMax : Int64
  rangeMin : Int64

def newRangeHolderOption : RangeHolderOption where
  enableFloat2Int := true
  rangeCvtValuesSize := .below 256
  rangeMax := Int64.maxValue
  rangeMin := Int64.minValue

/-- `make([]int64, 0, int(size))`: a negative capacity panics, and so does one past the address space. -/
def makeSlice (size : Int) : Go Unit :=
  panicIf (decide (size < 0) || decide (size * 8 > 2 ^ 48)) "makeslice: cap out of range" []

/-- The values `i` of `for i := rg.left; i < rg.right; i++`. -/
def Range.values (rg : Range) : List Int64 :=
  (List.range (rg.right.toInt - rg.left.toInt).toNat).map fun i : Nat => Int64.ofInt (rg.left.toInt + i)

/-- `ToSlice`, and the same loop in `RangeHolder.BuildFieldIndexingData`. -/
def Range.toSlice (rg : Range) : Go (List Int64) := do
  makeSlice rg.size
  return rg.values

theorem Range.mem_values {rg : Range} {v : Int64} : v ∈ rg.values ↔ rg.left ≤ v ∧ v < rg.right := by
  have lo := rg.left.le_toInt
  have hi := rg.right.toInt_lt
  have vlo := v.le_toInt
  have vhi := v.toInt_lt
  simp only [Range.values, List.mem_map, List.mem_range, Int64.le_iff_toInt_le, Int64.lt_iff_toInt_lt]
  constructor
  · rintro ⟨i, lt, rfl⟩
    rw [Int64.toInt_ofInt_of_le (by omega) (by omega)]
    omega
  · rintro ⟨ge, lt⟩
    refine ⟨(v.toInt - rg.left.toInt).toNat, by omega, ?_⟩
    rw [show rg.left.toInt + ((v.toInt - rg.left.toInt).toNat : Int) = v.toInt by omega, Int64.ofInt_toInt]

/-! ### Parsing a range expression -/

variable [FloatOps]

/-- The bounds of `ParseBetween`'s type switch. Other types fall through with both bounds zero. -/
def betweenBounds (value : Value) : Go (Int64 × Int64) :=
  match value with
  | .int64Pair l r => .ok (l, r)
  | .ints .int64 ns =>
    match ns.elems with
    | [l, r] => .ok (Int64.ofInt l, Int64.ofInt r)
    | ns => errorf "operator Between need two, input lenght:%d" [.int ns.length]
  | .scalar (.string s) =>
    match newRangeDesc s with
    | some rgDesc => .ok (rgDesc.values.1, rgDesc.values.2.1)
    | none => errorf "not a valid range description, need x:y input:%s" [.str s]
  | _ => .ok (0, 0)

def parseBetween (value : Value) : Go Range := do
  let (left, right) ← betweenBounds value
  if h : left > right then errorf "%d > %d, bad range" [.int left.toInt, .int right.toInt]
  else return newRange left right (not_lt.mp h)

/-- `ParseIntegerNumber` of an `interface{}`. -/
def parseIntegerValue (value : Value) (floatToInt : Bool) : Go Int64 :=
  match value with
  | .scalar s => parseIntegerNumber floatToInt s
  | v => errorf "not supported number type:%+v" [.val v]

def parseRange (opt : ValueOpt) (value : Value) (enableF2I : Bool) : Go Range :=
  match opt with
  | .between => parseBetween value
  | .gt => do
    let number ← wrapErr "lt/gt operator need interger, parse:%v err:%v" [.val value]
      (parseIntegerValue value enableF2I)
    return newRange (number + 1) Int64.maxValue (Int64.le_maxValue _)
  | .lt => do
    let number ← wrapErr "lt/gt operator need interger, parse:%v err:%v" [.val value]
      (parseIntegerValue value enableF2I)
    return newRange Int64.minValue number (Int64.minValue_le _)
  | .eq => errorf "not supported operator:%d" [.int 0]
  | .other n => errorf "not supported operator:%d" [.int n]

omit [FloatOps] in
theorem newRange_cases {l r : Int64} (le : l ≤ r) :
    (newRange l r le).left < (newRange l r le).right ∨ (newRange l r le).size = -2 ^ 64 := by
  rcases bumpEqual_proper (Or.inl le) with ordered | ⟨top, wrapped⟩
  · exact Or.inl ordered
  · refine Or.inr ?_
    have left : (newRange l r le).left = Int64.maxValue := top
    have right : (newRange l r le).right = Int64.minValue := wrapped
    rw [Range.size, left, right]
    decide

theorem parseRange_new {op : ValueOpt} {value : Value} {f2i : Bool} {rg : Range}
    (parsed : parseRange op value f2i = .ok rg) : ∃ l r le, rg = newRange l r le := by
  cases op with
  | eq => cases parsed
  | other k => cases parsed
  | gt =>
    obtain ⟨x, _, done⟩ := bind_eq_ok.mp parsed
    exact ⟨_, _, _, (Except.ok.inj done).symm⟩
  | lt =>
    obtain ⟨x, _, done⟩ := bind_eq_ok.mp parsed
    exact ⟨_, _, _, (Except.ok.inj done).symm⟩
  | between =>
    obtain ⟨_, _, rest⟩ := bind_eq_ok.mp parsed
    dsimp only at rest
    split at rest
    · cases rest
    · exact ⟨_, _, _, (Except.ok.inj rest).symm⟩

theorem parseRange_bump {op : ValueOpt} {value : Value} {f2i : Bool} {rg : Range}
    (parsed : parseRange op value f2i = .ok rg) : bumpEqual rg.left rg.right = rg.right := by
  obtain ⟨l, r, le, rfl⟩ := parseRange_new parsed
  refine bumpEqual_ne ?_
  rcases bumpEqual_proper (Or.inl le) with lt | ⟨top, bottom⟩
  · exact ne_of_lt lt
  · change l ≠ bumpEqual l r
    rw [bottom, top]
    decide

/-! ### Indexing data -/

structure RangeTxData where
  operator : ValueOpt
  rgValue : Option Range
  eqValues : List Int64
  deriving DecidableEq

structure RangeHolder where
  option : RangeHolderOption
  rangeIdx : RangeIdx
  plEntries : Int64 → Entries

def newNumberExtendRangeHolder (option : RangeHolderOption) : Go RangeHolder := do
  let rangeIdx ← newRangeIdx option.rangeMin option.rangeMax
  return { option := option, rangeIdx := rangeIdx, plEntries := fun _ => [] }

omit [FloatOps] in
theorem newNumberExtendRangeHolder_ok (option : RangeHolderOption) (bounds : option.rangeMin < option.rangeMax) :
    newNumberExtendRangeHolder option =
      .ok { option := option, rangeIdx := freshRangeIdx _ _ bounds, plEntries := fun _ => [] } := by
  rw [newNumberExtendRangeHolder, newRangeIdx, dif_neg (not_le.mpr bounds)]
  rfl

/-- The expression is a range too large to be expanded into values, and is kept as an interval. -/
def KeepsInterval (option : RangeHolderOption) (bv : BoolValues) (rg : Range) : Prop :=
  parseRange bv.operator bv.value option.enableFloat2Int = .ok rg ∧ option.rangeCvtValuesSize.admits rg.size = false

namespace RangeHolder

/-- `BuildFieldIndexingData` reads the options only. -/
def buildFieldIndexingData (option : RangeHolderOption) (field : BEField) (values : BoolValues) : Go RangeTxData :=
  match values.operator with
  | .eq => do
    let ids ← wrapErr "field:%s value:%+v parse fail, err:%v" [.str field, .val values.value]
      (parseIntegers values.value option.enableFloat2Int)
    return { operator := .eq, rgValue := none, eqValues := ids }
  | .other n => errorf "unsupport Operator:%d" [.int n]
  | op => do
    let rg ← parseRange op values.value option.enableFloat2Int
    if option.rangeCvtValuesSize.admits rg.size then do
      let vs ← rg.toSlice
      return { operator := .eq, rgValue := none, eqValues := vs }
    else return { operator := .between, rgValue := some rg, eqValues := [] }

def KeepsInterval (option : RangeHolderOption) (values : BoolValues) : Prop :=
  ∃ rg, BeIndexer.KeepsInterval option values rg

theorem build_kept {option : RangeHolderOption} {field : BEField} {bv : BoolValues} {data : RangeTxData}
    (built : buildFieldIndexingData option field bv = .ok data) :
    (∃ vs, data = ⟨.eq, none, vs⟩ ∧ ∀ rg, ¬ BeIndexer.KeepsInterval option bv rg) ∨
      ∃ rg, data = ⟨.between, some rg, []⟩ ∧ ∀ rg', BeIndexer.KeepsInterval option bv rg' ↔ rg' = rg := by
  unfold buildFieldIndexingData at built
  split at built
  · rename_i op
    obtain ⟨ids, _, done⟩ := bind_eq_ok.mp built
    refine Or.inl ⟨ids, (Except.ok.inj done).symm, fun rg kept => ?_⟩
    have parsed := kept.1
    rw [op] at parsed
    cases parsed
  · cases built
  · obtain ⟨rg, parsed, rest⟩ := bind_eq_ok.mp built
    have unique : ∀ rg', BeIndexer.KeepsInterval option bv rg' → rg' = rg :=
      fun rg' kept => Except.ok.inj (kept.1.symm.trans parsed)
    split at rest
    · rename_i small
      obtain ⟨vs, _, done⟩ := bind_eq_ok.mp rest
      refine Or.inl ⟨vs, (Except.ok.inj done).symm, fun rg' kept => ?_⟩
      obtain rfl := unique rg' kept
      rw [kept.2] at small
      cases small
    · rename_i large
      refine Or.inr ⟨rg, (Except.ok.inj rest).symm, fun rg' => ⟨unique rg', ?_⟩⟩
      rintro rfl
      exact ⟨parsed, by simpa using large⟩

theorem build_shape {option : RangeHolderOption} {field : BEField} {bv : BoolValues} {data : RangeTxData}
    (built : buildFieldIndexingData option field bv = .ok data) :
    (∃ vs, data = ⟨.eq, none, vs⟩) ∨ ∃ rg, data = ⟨.between, some rg, []⟩ := by
  rcases build_kept built with ⟨vs, same, _⟩ | ⟨rg, same, _⟩
  · exact Or.inl ⟨vs, same⟩
  · exact Or.inr ⟨rg, same⟩

theorem buildFieldIndexingData_kept {option : RangeHolderOption} {field : BEField} {values : BoolValues}
    {data : RangeTxData} (run : buildFieldIndexingData option field values = .ok data) (kept : data.operator ≠ .eq) :
    KeepsInterval option values := by
  rcases build_kept run with ⟨vs, rfl, _⟩ | ⟨rg, rfl, keeps⟩
  · exact absurd rfl kept
  · exact ⟨rg, (keeps rg).mpr rfl⟩

/-- An expression that was prepared has an interval with something in it: the one that wraps panics. -/
theorem build_ordered {field : BEField} {bv : BoolValues} {data : RangeTxData} (isRange : bv.operator ≠ .eq)
    (built : buildFieldIndexingData newRangeHolderOption field bv = .ok data) :
    ∃ rg, parseRange bv.operator bv.value newRangeHolderOption.enableFloat2Int = .ok rg ∧ rg.left < rg.right := by
  unfold buildFieldIndexingData at built
  split at built
  · rename_i isEq
    exact absurd isEq isRange
  · cases built
  · obtain ⟨rg, parsed, rest⟩ := bind_eq_ok.mp built
    refine ⟨rg, parsed, ?_⟩
    obtain ⟨l, r, le, rfl⟩ := parseRange_new parsed
    refine (newRange_cases le).resolve_right fun wrapped => ?_
    rw [wrapped, if_pos (by decide)] at rest
    obtain ⟨vs, sliced, _⟩ := bind_eq_ok.mp rest
    rw [Range.toSlice, wrapped] at sliced
    cases sliced

/-- `CommitFieldIndexingData`. Each distinct value gets the entry id once, in whatever order the
values are visited. -/
def commitFieldIndexingData (h : RangeHolder) (eid : EntryID) (data : RangeTxData) : Go RangeHolder :=
  match data.operator with
  | .eq => .ok { h with plEntries := fun v => if v ∈ data.eqValues then h.plEntries v ++ [eid] else h.plEntries v }
  | .other _ => errorf "what happened" []
  | _ =>
    match data.rgValue with
    | none => panicf "invalid memory address or nil pointer dereference" []
    | some rg => do
      let rangeIdx ← h.rangeIdx.indexingRange rg eid
      return { h with rangeIdx := rangeIdx }

def compileEntries (h : RangeHolder) : RangeHolder where
  option := h.option
  rangeIdx := h.rangeIdx.compile
  plEntries := fun v => sortEntries (h.plEntries v)

/-- The cells found for the query values, each once. -/
def rangeResults (h : RangeHolder) (ids : List Int64) : List (Fin h.rangeIdx.rgEntries.length) :=
  ((ids.filterMap h.rangeIdx.retrieve).filter fun i => !h.rangeIdx.rgEntries[i].entries.isEmpty).dedup

def getEntries (h : RangeHolder) (assigns : Value) : Go EntriesCursors := do
  let ids ← parseIntegers assigns h.option.enableFloat2Int
  if ids.isEmpty then return []
  return (ids.filter fun id => !(h.plEntries id).isEmpty).map (fun id => newEntriesCursor (h.plEntries id)) ++
    (h.rangeResults ids).map (fun i => newEntriesCursor h.rangeIdx.rgEntries[i].entries)

end RangeHolder

/-! ### What the container answers -/

/-- The entry ids under a list of cursors. -/
def EntriesCursors.ids (cs : EntriesCursors) : Set EntryID := {e | ∃ c ∈ cs, e ∈ c.entries}

/-- Cursors just made over nonempty sorted lists. -/
def EntriesCursors.New (cs : EntriesCursors) : Prop :=
  ∀ c ∈ cs, ∃ entries, c = newEntriesCursor entries ∧ entries ≠ [] ∧ entries.Pairwise (· ≤ ·)

/-- The values an expression stands for, in an index whose cells tile `[min, max)`. A kept interval
that starts below `min` stands for none. -/
def RangeTxData.Covers (min max : Int64) (data : RangeTxData) (v : Int64) : Prop :=
  match data.operator, data.rgValue with
  | .eq, _ => v ∈ data.eqValues
  | .other _, _ => False
  | _, some rg => v < max ∧ min ≤ rg.left ∧ rg.left ≤ v ∧ v < bumpEqual rg.left rg.right
  | _, none => False

namespace RangeHolder

/-- The entry ids recorded for a value. -/
def Covers (h : RangeHolder) (v : Int64) (e : EntryID) : Prop := e ∈ h.plEntries v ∨ h.rangeIdx.Covers v e

omit [FloatOps] in
theorem commit_cases {h h' : RangeHolder} {eid : EntryID} {data : RangeTxData}
    (run : h.commitFieldIndexingData eid data = .ok h') :
    (data.operator = .eq ∧ h' = { h with
      plEntries := fun v => if v ∈ data.eqValues then h.plEntries v ++ [eid] else h.plEntries v }) ∨
    (data.operator ≠ .eq ∧ (∀ n, data.operator ≠ .other n) ∧ ∃ rg rix, data.rgValue = some rg ∧
      h.rangeIdx.indexingRange rg eid = .ok rix ∧ h' = { h with rangeIdx := rix }) := by
  unfold commitFieldIndexingData at run
  split at run
  · rename_i isEq
    exact Or.inl ⟨isEq, (Except.ok.inj run).symm⟩
  · cases run
  · rename_i notEq notOther
    split at run
    · cases run
    · rename_i rg some
      obtain ⟨rix, placed, done⟩ := bind_eq_ok.mp run
      exact Or.inr ⟨notEq, notOther, rg, rix, some, placed, (Except.ok.inj done).symm⟩

omit [FloatOps] in
theorem commit_frame {h h' : RangeHolder} {eid : EntryID} {data : RangeTxData}
    (run : h.commitFieldIndexingData eid data = .ok h') :
    h'.option = h.option ∧ h'.rangeIdx.compiled = h.rangeIdx.compiled ∧
      h'.rangeIdx.valueMin = h.rangeIdx.valueMin ∧ h'.rangeIdx.valueMax = h.rangeIdx.valueMax := by
  rcases commit_cases run with ⟨_, rfl⟩ | ⟨_, _, _, _, _, placed, rfl⟩
  · exact ⟨rfl, rfl, rfl, rfl⟩
  · obtain ⟨same, min, max, _⟩ := RangeIdx.indexingRange_frame placed
    exact ⟨rfl, same, min, max⟩

omit [FloatOps] in
/-- A commit records the entry id for exactly the values of the expression. Only a range that comes after
`Compile` finds no cells to be placed in. -/
theorem commit_covers_iff {h h' : RangeHolder} {eid e : EntryID} {data : RangeTxData} {v : Int64}
    (placeable : h.rangeIdx.compiled = true → data.operator = .eq) (run : h.commitFieldIndexingData eid data = .ok h') :
    h'.Covers v e ↔ h.Covers v e ∨ (e = eid ∧ data.Covers h.rangeIdx.valueMin h.rangeIdx.valueMax v) := by
  unfold RangeTxData.Covers
  rcases commit_cases run with ⟨isEq, rfl⟩ | ⟨notEq, notOther, rg, rix, some, placed, rfl⟩
  · simp only [isEq, Covers]
    by_cases mem : v ∈ data.eqValues
    · rw [if_pos mem, List.mem_append, List.mem_singleton]
      simp only [mem, and_true, or_assoc, or_comm (a := e = eid)]
    · rw [if_neg mem]
      simp only [mem, and_false, or_false]
  · have fresh : h.rangeIdx.compiled = false := by
      rw [← Bool.not_eq_true]
      exact fun compiled => notEq (placeable compiled)
    have range := RangeIdx.indexingRange_covers (v := v) (e := e) fresh placed
    cases op : data.operator with
    | eq => exact absurd op notEq
    | other n => exact absurd op (notOther n)
    | gt | lt | between => simp only [some, Covers, range, or_assoc]

omit [FloatOps] in
theorem commit_covers {h h' : RangeHolder} {eid e : EntryID} {data : RangeTxData} {v : Int64}
    (fresh : h.rangeIdx.compiled = false) (run : h.commitFieldIndexingData eid data = .ok h') :
    h'.Covers v e ↔ h.Covers v e ∨ (e = eid ∧ data.Covers h.rangeIdx.valueMin h.rangeIdx.valueMax v) :=
  commit_covers_iff (fun compiled => by rw [fresh] at compiled; cases compiled) run

omit [FloatOps] in
theorem commit_adds {h h' : RangeHolder} {eid e : EntryID} {data : RangeTxData} {v : Int64}
    (run : h.commitFieldIndexingData eid data = .ok h') (covers : h'.Covers v e) : h.Covers v e ∨ e = eid := by
  cases compiled : h.rangeIdx.compiled with
  | false => exact ((commit_covers compiled run).mp covers).imp_right And.left
  | true =>
    rcases commit_cases run with ⟨_, rfl⟩ | ⟨_, _, rg, rix, _, placed, rfl⟩
    · rcases covers with point | interval
      · by_cases mem : v ∈ data.eqValues
        · simp only [if_pos mem, List.mem_append, List.mem_singleton] at point
          exact point.imp_left Or.inl
        · simp only [if_neg mem] at point
          exact Or.inl (Or.inl point)
      · exact Or.inl (Or.inr interval)
    · obtain rfl := Except.ok.inj ((RangeIdx.indexingRange_compiled rg eid compiled).symm.trans placed)
      exact Or.inl covers

omit [FloatOps] in
/-- Compiling records nothing: the ranges are then in `rgEntries`, out of reach of another compile. -/
theorem compile_covers {h : RangeHolder} {e : EntryID} {v : Int64} (covers : h.compileEntries.Covers v e) :
    e ∈ h.plEntries v := by
  rcases covers with point | interval
  · exact mem_sortEntries.mp point
  · cases interval

theorem getEntries_ids {h : RangeHolder} {assigns : Value} {cs : EntriesCursors} {ids : List Int64}
    (parsed : parseIntegers assigns h.option.enableFloat2Int = .ok ids)
    (run : h.compileEntries.getEntries assigns = .ok cs) (e : EntryID) :
    e ∈ cs.ids ↔ ∃ v ∈ ids, h.Covers v e := by
  have parsed' : parseIntegers assigns h.compileEntries.option.enableFloat2Int = .ok ids := parsed
  rw [getEntries, parsed'] at run
  change (if ids.isEmpty then .ok [] else _) = Except.ok cs at run
  split at run
  · rename_i empty
    obtain rfl := Except.ok.inj run
    simp [EntriesCursors.ids, List.isEmpty_iff.mp empty]
  · obtain rfl := Except.ok.inj run
    have points : (∃ c ∈ (ids.filter fun id => !(h.compileEntries.plEntries id).isEmpty).map
        (fun id => newEntriesCursor (h.compileEntries.plEntries id)), e ∈ c.entries) ↔
        ∃ v ∈ ids, e ∈ h.plEntries v := by
      simp only [List.mem_map, List.mem_filter]
      constructor
      · rintro ⟨_, ⟨v, ⟨hv, _⟩, rfl⟩, he⟩
        exact ⟨v, hv, mem_sortEntries.mp he⟩
      · rintro ⟨v, hv, he⟩
        have he' : e ∈ h.compileEntries.plEntries v := mem_sortEntries.mpr he
        exact ⟨_, ⟨v, ⟨hv, by simp [List.ne_nil_of_mem he']⟩, rfl⟩, he'⟩
    have ranges : (∃ c ∈ (h.compileEntries.rangeResults ids).map
        (fun i => newEntriesCursor h.compileEntries.rangeIdx.rgEntries[i].entries), e ∈ c.entries) ↔
        ∃ v ∈ ids, h.rangeIdx.Covers v e := by
      simp only [← RangeIdx.compile_answers, RangeIdx.Answers, List.mem_map, rangeResults, List.mem_dedup,
        List.mem_filter, List.mem_filterMap]
      constructor
      · rintro ⟨_, ⟨i, ⟨⟨v, hv, found⟩, _⟩, rfl⟩, he⟩
        exact ⟨v, hv, i, found, he⟩
      · rintro ⟨v, hv, i, found, he⟩
        refine ⟨_, ⟨i, ⟨⟨v, hv, found⟩, ?_⟩, rfl⟩, he⟩
        rw [Bool.not_eq_true', List.isEmpty_eq_false_iff]
        exact List.ne_nil_of_mem he
    simp only [EntriesCursors.ids, Set.mem_ofPred_eq, List.mem_append, or_and_right, exists_or, points, ranges]
    simp only [Covers, and_or_left, exists_or]

theorem getEntries_new {h : RangeHolder} {v : Value} {cs : EntriesCursors}
    (run : h.compileEntries.getEntries v = .ok cs) : cs.New := by
  obtain ⟨ids, _, rest⟩ := bind_eq_ok.mp run
  split at rest
  · obtain rfl := Except.ok.inj rest
    intro c mem
    cases mem
  · obtain rfl := Except.ok.inj rest
    intro c mem
    rcases List.mem_append.mp mem with point | interval
    · obtain ⟨id, found, rfl⟩ := List.mem_map.mp point
      have nonempty := (List.mem_filter.mp found).2
      rw [Bool.not_eq_true', List.isEmpty_eq_false_iff] at nonempty
      exact ⟨_, rfl, nonempty, sortEntries_sorted _⟩
    · obtain ⟨i, found, rfl⟩ := List.mem_map.mp interval
      have nonempty := (List.mem_filter.mp (List.mem_dedup.mp found)).2
      rw [Bool.not_eq_true', List.isEmpty_eq_false_iff] at nonempty
      exact ⟨_, rfl, nonempty, RangeIdx.compile_cell_sorted i⟩

end RangeHolder

end BeIndexer
