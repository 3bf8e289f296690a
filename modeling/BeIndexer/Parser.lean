import BeIndexer.Go

/-!
# Value parsers

`tokenizer.go` turns a value into the strings of the default container, `types.go` into the
integers of the range containers, and `range_parser.go` reads `start:end:step` descriptions.
-/

namespace BeIndexer

variable [FloatOps]

/-! ### tokenizer.go -/

def valueToString : Scalar → Go GoString
  | .string s => .ok s
  | .jsonNumber s => .ok s
  | .int _ n => .ok (sprintInt n)
  | .float kind x => .ok (FloatOps.sprintV kind x)
  | v => errorf "unsupported value type: %T" [.val (.scalar v)]

def valuesToStrings : Value → Go (List GoString)
  | .scalar .nil => .ok []
  | .scalar s => (valueToString s).map fun t => [t]
  | .strings ss => .ok ss.elems
  | .jsonNumbers ss => .ok ss.elems
  | .ints _ ns => .ok (ns.elems.map sprintInt)
  | .floats kind xs => .ok (xs.elems.map (FloatOps.sprintV kind))
  | .ifaces vs => vs.elems.mapM valueToString
  | v => errorf "unsupported value type: %T" [.val v]

def tokenizeValue (v : Value) : Go (List GoString) := valuesToStrings v

def tokenizeAssign (v : Value) : Go (List GoString) := valuesToStrings v

theorem valueToString_returns (s : Scalar) : Returns (valueToString s) := by
  cases s with
  | nil | other kind isNil => exact Or.inr ⟨_, rfl⟩
  | _ => exact Or.inl ⟨_, rfl⟩

theorem tokenizeAssign_returns (v : Value) : Returns (tokenizeAssign v) := by
  cases v with
  | scalar s =>
    cases s with
    | nil => exact Or.inl ⟨_, rfl⟩
    | other kind isNil => exact Or.inr ⟨_, rfl⟩
    | _ => exact Or.inl ⟨_, rfl⟩
  | ifaces vs => exact Returns.mapM fun s _ => valueToString_returns s
  | int64Pair l r | float64Pair x y => exact Or.inr ⟨_, rfl⟩
  | _ => exact Or.inl ⟨_, rfl⟩

/-! ### types.go -/

def parseIntegerNumber (floatToInt : Bool) : Scalar → Go Int64
  | .int _ n => .ok (Int64.ofInt n)
  | .string s | .jsonNumber s =>
    match parseInt s with
    | some n => .ok n
    | none =>
      if floatToInt then
        match FloatOps.parseFloat s with
        | some x => .ok (FloatOps.toInt64 x)
        | none => errorf "invalid number:%s" [.str s]
      else errorf "invalid number:%s" [.str s]
  | .float kind x =>
    if floatToInt then .ok (FloatOps.toInt64 x)
    else errorf "not supported number type:%+v" [.val (.scalar (.float kind x))]
  | v => errorf "not supported number type:%+v" [.val (.scalar v)]

/-- The type switch of `ParseIntegers`, reached when the value is not nil. -/
def parseIntegersOf (floatToInt : Bool) (v : Value) : Go (List Int64) :=
  match v with
  | .scalar s =>
    match parseIntegerNumber floatToInt s with
    | .ok n => .ok [n]
    | .error _ => errorf "value type [%s] not support" [.val v]
  | .ints kind ns => ns.elems.mapM fun n => parseIntegerNumber floatToInt (.int kind n)
  | .floats kind xs => xs.elems.mapM fun x => parseIntegerNumber floatToInt (.float kind x)
  | .strings ss => ss.elems.mapM fun s => parseIntegerNumber floatToInt (.string s)
  | .jsonNumbers ss => ss.elems.mapM fun s => parseIntegerNumber floatToInt (.jsonNumber s)
  | .ifaces vs => vs.elems.mapM fun iv =>
      match parseIntegerNumber floatToInt iv with
      | .ok n => .ok n
      | .error _ => errorf "value:%v not a number value" [.val (.scalar iv)]
  | v => errorf "value type [%s] not support" [.val v]

def parseIntegers (v : Value) (floatToInt : Bool) : Go (List Int64) := do
  if ← nilInterface v then return []
  parseIntegersOf floatToInt v

theorem parseIntegers_int64s (vs : List Int64) (floatToInt : Bool) :
    parseIntegers (.ints .int64 (some (vs.map Int64.toInt))) floatToInt = .ok vs := by
  have each : (vs.map Int64.toInt).mapM (fun n => parseIntegerNumber floatToInt (.int .int64 n)) =
      (.ok vs : Go (List Int64)) := by
    induction vs with
    | nil => rfl
    | cons v vs ih =>
      rw [List.map_cons, List.mapM_cons, ih, parseIntegerNumber, Int64.ofInt_toInt]
      rfl
  simpa [parseIntegers, nilInterface, parseIntegersOf, Slice.elems, bind, Except.bind] using each

theorem parseIntegerNumber_returns (floatToInt : Bool) (s : Scalar) : Returns (parseIntegerNumber floatToInt s) := by
  unfold parseIntegerNumber
  repeat' split
  all_goals first | exact Or.inl ⟨_, rfl⟩ | exact Or.inr ⟨_, rfl⟩

theorem parseIntegersOf_returns (floatToInt : Bool) (v : Value) : Returns (parseIntegersOf floatToInt v) := by
  cases v with
  | scalar s =>
    unfold parseIntegersOf
    dsimp only
    split
    · exact Or.inl ⟨_, rfl⟩
    · exact Or.inr ⟨_, rfl⟩
  | ifaces vs =>
    refine Returns.mapM fun s _ => ?_
    split
    · exact Or.inl ⟨_, rfl⟩
    · exact Or.inr ⟨_, rfl⟩
  | int64Pair l r | float64Pair x y => exact Or.inr ⟨_, rfl⟩
  | _ => exact Returns.mapM fun _ _ => parseIntegerNumber_returns _ _

/-- `NilInterface` is the only call of `ParseIntegers` that can panic. -/
theorem parseIntegers_returns_iff (v : Value) (floatToInt : Bool) :
    Returns (parseIntegers v floatToInt) ↔ v.isArray = false := by
  rw [parseIntegers, nilInterface_eq]
  cases array : v.isArray with
  | true => exact iff_of_false (not_returns_panic rfl) (by simp)
  | false =>
    refine iff_of_true ?_ rfl
    refine Returns.bind (Or.inl ⟨_, rfl⟩) fun isNil _ => ?_
    split
    · exact Or.inl ⟨_, rfl⟩
    · exact parseIntegersOf_returns _ _

/-! ### range_parser.go -/

structure RangeDesc where
  start : Int64
  end_ : Int64
  step : Int64
  deriving DecidableEq, Repr

/-- `strings.Split(v, ":")`. -/
def splitColon (s : GoString) : List GoString := s.splitOn 58

def newRangeDesc (v : GoString) : Option RangeDesc :=
  match splitColon v with
  | start :: end_ :: rest => do
    let last ← parseInt end_
    let first ← parseInt start
    match rest with
    | [] => some ⟨first, last, 1⟩
    | step :: _ => do
      let step ← parseInt step
      some ⟨first, last, step⟩
  | _ => none

/-- `RangeDesc.Values`, whose third result is the start again. -/
def RangeDesc.values (d : RangeDesc) : Int64 × Int64 × Int64 := (d.start, d.end_, d.start)

example : newRangeDesc (str "3:-7:2") = some ⟨3, -7, 2⟩ := by decide
example : newRangeDesc (str "3") = none := by decide

end BeIndexer
