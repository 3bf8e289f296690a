import BeIndexer.Lib.MachineInt
import BeIndexer.Roaring.Parsers
import Mathlib.Tactic.Ring

/-!
# What the parsers make of a value

Each parser of the roaring index reads values twice, for expressions (`ParseValue`) and for queries
(`ParseAssign`). A value that is indexed is found again when the two give the same numbers.
-/

namespace BeIndexer

variable [FloatOps] [GeoOps]

/-! ### CommonStrParser -/

def Value.elements : Value → Option (List Scalar)
  | .ints kind ns => some (ns.elems.map (.int kind))
  | .floats kind xs => some (xs.elems.map (.float kind))
  | .strings ss => some (ss.elems.map .string)
  | .jsonNumbers ss => some (ss.elems.map .jsonNumber)
  | .ifaces vs => some vs.elems
  | _ => none

def Scalar.Supported : Scalar → Prop
  | .int _ _ | .float _ _ | .string _ | .jsonNumber _ => True
  | _ => False

/-- A number or a string, or a slice of them. -/
def Value.Supported : Value → Prop
  | .scalar s => s.Supported
  | .ifaces vs => ∀ s ∈ vs.elems, s.Supported
  | .int64Pair _ _ | .float64Pair _ _ => False
  | _ => True

omit [FloatOps] [GeoOps] in
theorem Value.Supported.elements {v : Value} {elems : List Scalar} (supported : v.Supported)
    (h : v.elements = some elems) : ∀ s ∈ elems, s.Supported := by
  cases v with
  | scalar | int64Pair | float64Pair => cases h
  | ifaces vs =>
    obtain rfl := Option.some.inj h
    exact supported
  | _ =>
    obtain rfl := Option.some.inj h
    intro s mem
    obtain ⟨x, _, rfl⟩ := List.mem_map.mp mem
    trivial

namespace CommonStrParser

/-- A parser returns for a slice what it returns for the elements, one after the other. -/
def Concatenates (parse : Value → Go (List UInt64)) (v : Value) (elems : List Scalar) : Prop :=
  ∃ ids parts, parse v = .ok ids ∧ elems.mapM (fun s => parse (.scalar s)) = .ok parts ∧ ids = parts.flatten

/-- The value is indexed under the numbers that a query for it asks for. -/
def Agrees (p : CommonStrParser) (v : Value) : Prop :=
  (∀ ids qs, p.parseValue v = .ok ids → p.parseAssign v = .ok qs → ids = qs) ∧
  ∀ elems, v.elements = some elems → Concatenates p.parseValue v elems ∧ Concatenates p.parseAssign v elems

def render : Scalar → GoString
  | .string s | .jsonNumber s => s
  | .int _ n => sprintInt n
  | .float _ x => sprintUint x
  | _ => []

section Hashed

variable (hashFn : GoString → UInt64)

abbrev hashed : CommonStrParser := ⟨true, newHashAllocator hashFn⟩

theorem parseValue_scalar {s : Scalar} (supported : s.Supported) :
    (hashed hashFn).parseValue (.scalar s) = .ok [hashFn (render s)] := by
  cases s with
  | nil | other => cases supported
  | _ => rfl

omit [FloatOps] in
theorem parseAssign_scalar {s : Scalar} (supported : s.Supported) :
    (hashed hashFn).parseAssign (.scalar s) = .ok [hashFn (render s)] := by
  cases s with
  | nil | other => cases supported
  | _ => rfl

omit [FloatOps] in
theorem parseAssign_slice {v : Value} {elems : List Scalar} (supported : v.Supported) (h : v.elements = some elems) :
    (hashed hashFn).parseAssign v = .ok (elems.map fun s => hashFn (render s)) := by
  cases v with
  | scalar | int64Pair | float64Pair => cases h
  | ifaces vs =>
    obtain rfl := Option.some.inj h
    have found : vs.elems.mapM (hashed hashFn).findInterfaceID =
        .ok (vs.elems.map fun s => some (hashFn (render s))) := by
      refine mapM_pure fun s mem => ?_
      have := supported s mem
      cases s with
      | nil | other => cases this
      | _ => rfl
    cases vs with
    | none => rfl
    | some vs =>
      change (vs.mapM (hashed hashFn).findInterfaceID >>= fun ids => .ok ids.reduceOption) = _
      rw [show vs.mapM _ = _ from found]
      change Except.ok (List.filterMap id _) = _
      simp [List.filterMap_map, Slice.elems]
  | ints kind xs | floats kind xs | strings xs | jsonNumbers xs =>
    obtain rfl := Option.some.inj h
    cases xs with
    | none => rfl
    | some xs =>
      refine congrArg Except.ok ?_
      simp [Slice.elems, render, newHashAllocator, Function.comp_def]

theorem parseValue_slice {v : Value} {elems : List Scalar} (supported : v.Supported) (h : v.elements = some elems)
    (noFloats : ∀ kind xs, v ≠ .floats kind xs) :
    (hashed hashFn).parseValue v = .ok (elems.map fun s => hashFn (render s)) := by
  cases v with
  | scalar | int64Pair | float64Pair => cases h
  | floats kind xs => exact absurd rfl (noFloats kind xs)
  | ifaces vs =>
    obtain rfl := Option.some.inj h
    refine mapM_pure fun s mem => ?_
    have := supported s mem
    cases s with
    | nil | other => cases this
    | _ => rfl
  | ints kind xs | strings xs | jsonNumbers xs =>
    obtain rfl := Option.some.inj h
    refine congrArg Except.ok ?_
    simp [render, newHashAllocator, Function.comp_def]

omit [FloatOps] in
theorem concatenates {parse : Value → Go (List UInt64)} {v : Value} {elems : List Scalar} (supported : v.Supported)
    (h : v.elements = some elems) (slice : parse v = .ok (elems.map fun s => hashFn (render s)))
    (scalar : ∀ {s : Scalar}, s.Supported → parse (.scalar s) = .ok [hashFn (render s)]) :
    Concatenates parse v elems := by
  refine ⟨_, _, slice, mapM_pure fun s mem => scalar (supported.elements h s mem), ?_⟩
  rw [← List.flatMap_def, List.map_eq_flatMap]

/-- Values and queries agree save on lists of floating point numbers: a list is indexed as its elements
are printed, while a single number and every query are truncated to `uint64` first. -/
theorem parse_agrees_iff {v : Value} (supported : v.Supported) :
    Agrees (hashed hashFn) v ↔
      ∀ kind xs, v = .floats kind xs → ∀ x ∈ xs.elems, hashFn (FloatOps.sprintV kind x) = hashFn (sprintUint x) := by
  have assigns : ∀ elems, v.elements = some elems → Concatenates (hashed hashFn).parseAssign v elems := fun elems h =>
    concatenates hashFn supported h (parseAssign_slice hashFn supported h) (parseAssign_scalar hashFn)
  have slices : (∀ elems, v.elements = some elems →
      (hashed hashFn).parseValue v = .ok (elems.map fun s => hashFn (render s))) → v.elements.isSome = true →
      Agrees (hashed hashFn) v := by
    intro values isSlice
    obtain ⟨elems, h⟩ := Option.isSome_iff_exists.mp isSlice
    refine ⟨fun ids qs value assign => ?_, fun elems h => ⟨?_, assigns elems h⟩⟩
    · rw [values elems h] at value
      rw [parseAssign_slice hashFn supported h] at assign
      exact Except.ok.inj (value.symm.trans assign)
    · exact concatenates hashFn supported h (values elems h) (parseValue_scalar hashFn)
  cases v with
  | int64Pair | float64Pair => cases supported
  | scalar s =>
    refine iff_of_true ⟨fun ids qs value assign => ?_, fun elems h => nomatch h⟩ (by simp)
    rw [parseValue_scalar hashFn supported] at value
    rw [parseAssign_scalar hashFn supported] at assign
    exact Except.ok.inj (value.symm.trans assign)
  | floats kind xs =>
    constructor
    · intro agrees kind' xs' same
      cases same
      have ids := agrees.1 _ _ rfl (parseAssign_slice hashFn supported rfl)
      rw [List.map_map] at ids
      exact fun x mem => List.map_inj_left.mp ids x mem
    · intro same
      refine slices (fun elems h => ?_) rfl
      obtain rfl := Option.some.inj h
      refine congrArg Except.ok ?_
      rw [List.map_map]
      exact List.map_inj_left.mpr fun x mem => same kind xs rfl x mem
  | _ =>
    refine iff_of_true (slices (fun elems h => ?_) rfl) (by simp)
    exact parseValue_slice hashFn supported h (by simp)

end Hashed

omit [FloatOps] [GeoOps] in
/-- Lists of integers agree. -/
theorem parse_agrees_ints :
    let _ := FloatOps.noFloats
    let _ := GeoOps.nowhere
    Value.Supported (.ints .int (some [3, -7])) ∧ newCommonParser.Agrees (.ints .int (some [3, -7])) := by
  intro _ _
  refine ⟨trivial, ?_⟩
  exact (parse_agrees_iff fnvHashString (v := .ints .int (some [3, -7])) trivial).mpr fun _ _ other => nomatch other

omit [FloatOps] [GeoOps] in
/-- The list `[0.5]` is indexed as `0.5` and looked up as `0`. -/
theorem parse_disagrees_half :
    let _ : FloatOps := { FloatOps.noFloats with sprintV := fun _ _ => str "0.5" }
    let _ := GeoOps.nowhere
    newCommonParser.parseValue (.floats .float64 (some [⟨0x3FE0000000000000⟩])) = .ok [fnvHashString (str "0.5")] ∧
    newCommonParser.parseAssign (.floats .float64 (some [⟨0x3FE0000000000000⟩])) = .ok [fnvHashString (str "0")] ∧
    fnvHashString (str "0.5") ≠ fnvHashString (str "0") := by
  refine ⟨rfl, rfl, by decide⟩

end CommonStrParser

/-! ### NumberRangeParser -/

namespace NumberRangeParser

omit [FloatOps] [GeoOps]

def turn (start step : Int64) (i : Nat) : Int64 := Int64.ofInt (start.toInt + i * step.toInt)

theorem turn_zero (start step : Int64) : turn start step 0 = start := by simp [turn]

theorem turn_succ (start step : Int64) (i : Nat) : turn (start + step) step i = turn start step (i + 1) := by
  have next : start.toInt + ((i + 1 : Nat) : Int) * step.toInt = start.toInt + step.toInt + i * step.toInt := by
    push_cast
    ring
  rw [turn, turn, next, Int64.ofInt_add, Int64.ofInt_add (start.toInt + step.toInt), Int64.ofInt_add start.toInt]
  simp only [Int64.ofInt_toInt]

theorem turn_toInt {start step : Int64} {i : Nat} (lo : -2 ^ 63 ≤ start.toInt + i * step.toInt)
    (hi : start.toInt + i * step.toInt < 2 ^ 63) : (turn start step i).toInt = start.toInt + i * step.toInt :=
  Int64.toInt_ofInt_of_le lo hi

/-- The first `k` turns, as they are appended to the result. -/
def turns (start step : Int64) (k : Nat) : List UInt64 := (List.range k).map fun i => (turn start step i).toUInt64

theorem turns_succ (start step : Int64) (k : Nat) :
    turns start step (k + 1) = start.toUInt64 :: turns (start + step) step k := by
  rw [turns, List.range_succ_eq_map, List.map_cons, List.map_map, turn_zero, turns]
  congr 1
  exact List.map_congr_left fun i _ => by rw [turn_succ]; rfl

variable {end_ step : Int64}

theorem rangeLoop_ok {fuel : Nat} {start : Int64} {ids : List UInt64} (run : rangeLoop end_ step fuel start = .ok ids) :
    ids = turns start step ids.length ∧ (∀ i < ids.length, turn start step i ≤ end_) ∧
      end_ < turn start step ids.length := by
  induction fuel generalizing start ids with
  | zero => cases run
  | succ fuel ih =>
    rw [rangeLoop] at run
    split at run
    · rename_i inside
      obtain ⟨rest, later, same⟩ := bind_eq_ok.mp run
      obtain rfl := Except.ok.inj same
      obtain ⟨list, before, past⟩ := ih later
      refine ⟨?_, fun i lt => ?_, ?_⟩
      · rw [List.length_cons, turns_succ, ← list]
      · cases i with
        | zero => rwa [turn_zero]
        | succ i =>
          rw [← turn_succ]
          exact before i (Nat.lt_of_succ_lt_succ lt)
      · rwa [List.length_cons, ← turn_succ]
    · rename_i outside
      obtain rfl := Except.ok.inj run
      refine ⟨rfl, fun i lt => absurd lt (Nat.not_lt_zero i), ?_⟩
      rw [List.length_nil, turn_zero]
      exact not_le.mp outside

theorem rangeLoop_runs {fuel k : Nat} {start : Int64} (enough : k < fuel) (before : ∀ i < k, turn start step i ≤ end_)
    (past : end_ < turn start step k) : rangeLoop end_ step fuel start = .ok (turns start step k) := by
  induction k generalizing start fuel with
  | zero =>
    obtain ⟨fuel, rfl⟩ := Nat.exists_eq_succ_of_ne_zero (Nat.ne_of_gt enough)
    rw [turn_zero] at past
    rw [rangeLoop, if_neg (not_le.mpr past)]
    rfl
  | succ k ih =>
    obtain ⟨fuel, rfl⟩ := Nat.exists_eq_succ_of_ne_zero (Nat.ne_of_gt (Nat.lt_of_le_of_lt (Nat.zero_le _) enough))
    have first := before 0 (Nat.succ_pos k)
    rw [turn_zero] at first
    have rest : rangeLoop end_ step fuel (start + step) = .ok (turns (start + step) step k) := by
      refine ih (Nat.lt_of_succ_lt_succ enough) (fun i lt => ?_) ?_
      · rw [turn_succ]
        exact before (i + 1) (Nat.succ_lt_succ lt)
      · rwa [turn_succ]
    rw [rangeLoop, if_pos first, rest, turns_succ]
    rfl

theorem rangeLoop_no_error {fuel : Nat} {start : Int64} {e : GoError} :
    rangeLoop end_ step fuel start ≠ .error (.err e) := by
  induction fuel generalizing start with
  | zero => exact fun h => nomatch h
  | succ fuel ih =>
    rw [rangeLoop]
    split
    · intro failed
      cases later : rangeLoop end_ step fuel (start + step) with
      | ok rest =>
        rw [later] at failed
        cases failed
      | error fault =>
        rw [later] at failed
        obtain rfl := Except.error.inj failed
        exact ih later
    · exact fun h => nomatch h

/-- The description is expanded as documented: an error, or the numbers from `start` in steps of `step`
up to `end`, none of which wraps around. -/
def Expands (d : RangeDesc) (result : Go (List UInt64)) : Prop :=
  (∃ e, result = .error (.err e)) ∨
  ∃ k : Nat, result = .ok ((List.range k).map fun i : Nat =>
    (Int64.ofInt (d.start.toInt + i * d.step.toInt)).toUInt64) ∧
    ∀ i : Nat, i < k ↔ d.start.toInt + i * d.step.toInt ≤ d.end_.toInt

/-- The first number past the end is an `int64`, or there is none at all. -/
def RangeFits (d : RangeDesc) : Prop :=
  d.step = 0 ∧ d.end_ < d.start ∨
  0 < d.step ∧ d.start.toInt + ((d.end_.toInt - d.start.toInt) / d.step.toInt + 1) * d.step.toInt < 2 ^ 63

instance (d : RangeDesc) : Decidable (RangeFits d) := inferInstanceAs (Decidable (_ ∨ _))

section Numbers

variable {d : RangeDesc}

/-- With a positive step the numbers up to the end are the first few. -/
theorem number_le_end_iff (positive : 0 < d.step.toInt) (i : Nat) :
    d.start.toInt + i * d.step.toInt ≤ d.end_.toInt ↔
      (i : Int) < (d.end_.toInt - d.start.toInt) / d.step.toInt + 1 := by
  rw [Int.lt_add_one_iff, Int.le_ediv_iff_mul_le positive]
  omega

theorem start_le_number (positive : 0 < d.step.toInt) (i : Nat) : d.start.toInt ≤ d.start.toInt + i * d.step.toInt := by
  have := Int.mul_nonneg (Int.natCast_nonneg i) positive.le
  omega

theorem expands_of_fits (fits : RangeFits d) : Expands d (rangeLoop d.end_ d.step (2 ^ 64 + 1) d.start) := by
  have startLo := d.start.le_toInt
  have startHi := d.start.toInt_lt
  have endHi := d.end_.toInt_lt
  refine Or.inr ?_
  rcases fits with ⟨none, empty⟩ | ⟨positive, fits⟩
  · refine ⟨0, rangeLoop_runs (by decide) (fun i lt => absurd lt (Nat.not_lt_zero i)) ?_, fun i => ?_⟩
    · rwa [turn_zero]
    · rw [Int64.lt_iff_toInt_lt] at empty
      simp [none, empty]
  · have positive : 0 < d.step.toInt := Int64.lt_iff_toInt_lt.mp positive
    set last := (d.end_.toInt - d.start.toInt) / d.step.toInt with hlast
    have counts : ∀ i : Nat, i < (last + 1).toNat ↔ d.start.toInt + i * d.step.toInt ≤ d.end_.toInt := by
      intro i
      rw [number_le_end_iff positive]
      omega
    have pastHi : d.start.toInt + ((last + 1).toNat : Int) * d.step.toInt < 2 ^ 63 := by
      rcases Int.lt_or_le (last + 1) 0 with none | some
      · simp [Int.toNat_of_nonpos none.le]
        omega
      · rwa [Int.toNat_of_nonneg some]
    have few : (last + 1).toNat < 2 ^ 64 + 1 := by
      have : ((last + 1).toNat : Int) * 1 ≤ ((last + 1).toNat : Int) * d.step.toInt :=
        Int.mul_le_mul_of_nonneg_left (by omega) (Int.natCast_nonneg _)
      omega
    refine ⟨(last + 1).toNat, rangeLoop_runs few (fun i lt => ?_) ?_, counts⟩
    · have le := (counts i).mp lt
      have ge := start_le_number positive i
      rw [Int64.le_iff_toInt_le, turn_toInt (by omega) (by omega)]
      exact le
    · have gt := (counts (last + 1).toNat).not.mp (Nat.lt_irrefl _)
      have ge := start_le_number positive (last + 1).toNat
      rw [Int64.lt_iff_toInt_lt, turn_toInt (by omega) pastHi]
      omega

/-- Past the largest `int64` the sum comes out below the end, so the loop goes on. -/
theorem fits_of_expands (expands : Expands d (rangeLoop d.end_ d.step (2 ^ 64 + 1) d.start)) : RangeFits d := by
  have startLo := d.start.le_toInt
  have startHi := d.start.toInt_lt
  have endLo := d.end_.le_toInt
  have endHi := d.end_.toInt_lt
  have stepHi := d.step.toInt_lt
  obtain ⟨e, failed⟩ | ⟨k, run, counts⟩ := expands
  · exact absurd failed rangeLoop_no_error
  obtain ⟨_, _, past⟩ := rangeLoop_ok run
  rw [List.length_map, List.length_range, Int64.lt_iff_toInt_lt] at past
  have above := (counts k).not.mp (Nat.lt_irrefl _)
  rcases Int.lt_trichotomy d.step.toInt 0 with negative | zero | positive
  · -- the numbers decrease, so sooner or later all of them are below the end
    have far : d.start.toInt + ((k + (d.start.toInt - d.end_.toInt).toNat : Nat) : Int) * d.step.toInt ≤
        d.end_.toInt := by
      have : ((k + (d.start.toInt - d.end_.toInt).toNat : Nat) : Int) * d.step.toInt ≤
          ((k + (d.start.toInt - d.end_.toInt).toNat : Nat) : Int) * (-1) :=
        Int.mul_le_mul_of_nonneg_left (by omega) (Int.natCast_nonneg _)
      omega
    have := (counts _).mpr far
    omega
  · refine Or.inl ⟨Int64.toInt_inj.mp zero, ?_⟩
    rw [Int64.lt_iff_toInt_lt]
    rw [zero] at above
    omega
  · refine Or.inr ⟨Int64.lt_iff_toInt_lt.mpr positive, ?_⟩
    rw [number_le_end_iff positive] at above
    have next : d.start.toInt + ((d.end_.toInt - d.start.toInt) / d.step.toInt + 1) * d.step.toInt ≤
        d.start.toInt + k * d.step.toInt := by
      have := Int.mul_le_mul_of_nonneg_right (show (d.end_.toInt - d.start.toInt) / d.step.toInt + 1 ≤ k by omega)
        positive.le
      omega
    cases k with
    | zero => simp at next; omega
    | succ k =>
      have before := (counts k).mp (Nat.lt_succ_self k)
      have step : d.start.toInt + ((k + 1 : Nat) : Int) * d.step.toInt =
          d.start.toInt + k * d.step.toInt + d.step.toInt := by
        push_cast
        ring
      by_contra beyond
      have wrapped : (turn d.start d.step (k + 1)).toInt =
          d.start.toInt + ((k + 1 : Nat) : Int) * d.step.toInt - 2 ^ 64 := by
        rw [turn, Int64.toInt_ofInt, Int.bmod_def]
        simp only [Int64.size]
        split <;> omega
      omega

end Numbers

theorem parseValue_desc {s : GoString} {v : Value}
    (one : v = .scalar (.string s) ∨ v = .strings (some [s]) ∨ v = .ifaces (some [.string s])) :
    parseValue v = parseDesc s := by
  have single : (do let ids ← (do let ids ← parseDesc s; pure [ids]); pure ids.flatten) = parseDesc s := by
    cases parseDesc s with
    | ok ids => exact congrArg Except.ok (List.append_nil ids)
    | error fault => rfl
  rcases one with rfl | rfl | rfl
  · rfl
  · exact single
  · exact single

/-- The expansion of a description is right exactly if the first number past its end is an `int64`: the
loop advances by a step that nobody checked, in arithmetic that wraps around. -/
theorem parseValue_expands_iff {s : GoString} {d : RangeDesc} {v : Value} (accepted : newRangeDesc s = some d)
    (one : v = .scalar (.string s) ∨ v = .strings (some [s]) ∨ v = .ifaces (some [.string s])) :
    Expands d (parseValue v) ↔ RangeFits d := by
  rw [parseValue_desc one, parseDesc, accepted]
  exact ⟨fits_of_expands, expands_of_fits⟩

theorem parseValue_expands_three :
    newRangeDesc (str "1:7:3") = some ⟨1, 7, 3⟩ ∧ Expands ⟨1, 7, 3⟩ (parseValue (.scalar (.string (str "1:7:3")))) :=
  ⟨by decide, (parseValue_expands_iff (s := str "1:7:3") (by decide) (Or.inl rfl)).mpr (by decide)⟩

theorem rangeLoop_stuck {start : Int64} (inside : start ≤ end_) (fuel : Nat) :
    rangeLoop end_ 0 fuel start = .error .hang := by
  induction fuel with
  | zero => rfl
  | succ fuel ih =>
    rw [rangeLoop, if_pos inside, Int64.add_zero, ih]
    rfl

/-- `3:3:0` is accepted, and never returns. -/
theorem parseValue_never_returns :
    newRangeDesc (str "3:3:0") = some ⟨3, 3, 0⟩ ∧ parseValue (.scalar (.string (str "3:3:0"))) = .error .hang := by
  have accepted : newRangeDesc (str "3:3:0") = some ⟨3, 3, 0⟩ := by decide
  refine ⟨accepted, ?_⟩
  change parseDesc (str "3:3:0") = _
  rw [parseDesc, accepted]
  exact rangeLoop_stuck (by decide) _

inductive IntegerQuery : Value → List Int → Prop where
  | one (kind : IntKind) (n : Int) : IntegerQuery (.scalar (.int kind n)) [n]
  | many (kind : IntKind) (n : Int) (ns : List Int) : IntegerQuery (.ints kind (some (n :: ns))) (n :: ns)

/-- The query succeeds, and shares a number with the range exactly if one of its integers lies on it. -/
def Hits (d : RangeDesc) (value query : Go (List UInt64)) (ns : List Int) : Prop :=
  ∃ ids qs, value = .ok ids ∧ query = .ok qs ∧
    ((∃ id ∈ ids, id ∈ qs) ↔ ∃ q ∈ ns, d.start.toInt ≤ q ∧ q ≤ d.end_.toInt ∧ d.step.toInt ∣ q - d.start.toInt)

variable [FloatOps]

theorem parseAssign_int (kind : IntKind) (n : Int) :
    parseAssign (.scalar (.int kind n)) = .ok [(Int64.ofInt n).toUInt64] := rfl

theorem parseAssign_ints (kind : IntKind) (ns : List Int) (qs : List UInt64) :
    parseAssign (.ints kind (some ns)) ≠ .ok qs := by
  intro run
  change ((ns.map (Scalar.int kind)).mapM _ >>= fun _ => errorf _ _) = _ at run
  obtain ⟨_, _, failed⟩ := bind_eq_ok.mp run
  cases failed

omit [FloatOps] in
theorem mem_progression {d : RangeDesc} {k : Nat} {n : Int} (positive : 0 < d.step.toInt)
    (counts : ∀ i : Nat, i < k ↔ d.start.toInt + i * d.step.toInt ≤ d.end_.toInt) (lo : -2 ^ 63 ≤ n) (hi : n < 2 ^ 63) :
    (Int64.ofInt n).toUInt64 ∈ ((List.range k).map fun i : Nat =>
      (Int64.ofInt (d.start.toInt + i * d.step.toInt)).toUInt64) ↔
      d.start.toInt ≤ n ∧ n ≤ d.end_.toInt ∧ d.step.toInt ∣ n - d.start.toInt := by
  have startLo := d.start.le_toInt
  have endHi := d.end_.toInt_lt
  simp only [List.mem_map, List.mem_range]
  constructor
  · intro ⟨i, lt, same⟩
    have le := (counts i).mp lt
    have ge := start_le_number positive i
    have ints := congrArg (fun u => (UInt64.toInt64 u).toInt) same
    simp only [Int64.toInt64_toUInt64] at ints
    rw [Int64.toInt_ofInt_of_le (by omega) (by omega), Int64.toInt_ofInt_of_le lo hi] at ints
    refine ⟨by omega, by omega, i, ?_⟩
    rw [← ints, Int.mul_comm]
    omega
  · intro ⟨ge, le, i, multiple⟩
    have nonneg : 0 ≤ i := by
      by_contra negative
      have := Int.mul_neg_of_pos_of_neg positive (not_le.mp negative)
      omega
    have number : d.start.toInt + (i.toNat : Int) * d.step.toInt = n := by
      rw [Int.toNat_of_nonneg nonneg, Int.mul_comm]
      omega
    exact ⟨i.toNat, (counts _).mpr (by omega), by rw [number]⟩

/-- A query hits the range exactly if it lies on it, provided that it is no slice: the numbers of a
slice are read one by one, and then the query is refused. -/
theorem parseAssign_hits_iff {s : GoString} {d : RangeDesc} {v : Value} {ns : List Int}
    (accepted : newRangeDesc s = some d) (positive : 0 < d.step) (fits : RangeFits d) (query : IntegerQuery v ns)
    (within : ∀ n ∈ ns, -2 ^ 63 ≤ n ∧ n < 2 ^ 63) :
    Hits d (parseValue (.scalar (.string s))) (parseAssign v) ns ↔ ∃ kind n, v = .scalar (.int kind n) := by
  cases query with
  | one kind n =>
    refine iff_of_true ?_ ⟨kind, n, rfl⟩
    have loop : parseValue (.scalar (.string s)) = rangeLoop d.end_ d.step (2 ^ 64 + 1) d.start := by
      change parseDesc s = _
      rw [parseDesc, accepted]
    obtain ⟨e, failed⟩ | ⟨k, run, counts⟩ := expands_of_fits fits
    · exact absurd failed rangeLoop_no_error
    obtain ⟨lo, hi⟩ := within n (List.mem_singleton_self n)
    refine ⟨_, _, loop.trans run, parseAssign_int kind n, ?_⟩
    simp only [List.mem_singleton, exists_eq_right, exists_eq_left]
    exact mem_progression (Int64.lt_iff_toInt_lt.mp positive) counts lo hi
  | many kind n ns =>
    refine iff_of_false ?_ (by simp)
    intro ⟨_, qs, _, run, _⟩
    exact parseAssign_ints kind (n :: ns) qs run

omit [FloatOps] in
theorem parseAssign_hits_four :
    let _ := FloatOps.noFloats
    ∃ ids qs, parseValue (.scalar (.string (str "-2:7:3"))) = .ok ids ∧ parseAssign (.scalar (.int .uint8 4)) = .ok qs ∧
      ∃ id ∈ ids, id ∈ qs := by
  intro _
  obtain ⟨ids, qs, value, query, hit⟩ :=
    (parseAssign_hits_iff (s := str "-2:7:3") (d := ⟨-2, 7, 3⟩) (by decide) (by decide)
    (by decide) (.one .uint8 4) (by decide)).mpr ⟨_, _, rfl⟩
  exact ⟨ids, qs, value, query, hit.mpr ⟨4, by simp, by decide⟩⟩

omit [FloatOps] in
/-- The slice `[4]` is refused where `4` is found. -/
theorem parseAssign_refuses_slice :
    let _ := FloatOps.noFloats
    parseAssign (.ints .int (some [4])) =
      errorf "not suppoted type:%+v" [.val (.ints .int (some [4]))] := rfl

end NumberRangeParser

end BeIndexer
