import BeIndexer.Parser
import Mathlib.Data.List.Dedup

/-!
# Value parsers of the roaring index (`common_parser.go`, `number_parser.go`, `range_parser.go`,
`str_parser_hash.go`, `geohash_parser.go`)

These turn a value into numbers, once for expressions and once for queries. The geohash libraries and
the conversion of a floating point number to `uint64` are parameters.
-/

namespace BeIndexer

/-- The conversion and the geohash libraries that the parsers call. -/
class GeoOps where
  /-- `uint64(x)`. -/
  toUInt64 : GoFloat → UInt64
  /-- `proximityhash.CreateGeohash` and `CompressGeoHash` of a point, a radius and the three precisions. -/
  regionCodes : GoFloat → GoFloat → GoFloat → Int → Int → Int → List GoString
  /-- `geohash.Encode`, which gives a code of twelve characters. -/
  encode : GoFloat → GoFloat → GoString
  encode_length : ∀ lat lon, (encode lat lon).length = 12
  /-- `geohash.ConvertStringToInt`; the parser ignores its error. -/
  convertStringToInt : GoString → UInt64

/-- Operations for inputs in which neither floating point numbers nor places occur. -/
@[reducible]
def GeoOps.nowhere : GeoOps where
  toUInt64 _ := 0
  regionCodes _ _ _ _ _ _ := []
  encode _ _ := List.replicate 12 48
  encode_length _ _ := rfl
  convertStringToInt _ := 0

structure ValueIDGenerator where
  parseAssign : Value → Go (List UInt64)
  parseValue : Value → Go (List UInt64)

/-! ### Allocators -/

/-- `parser.IDAllocator`, by the ids it gives to strings. -/
structure IDAllocator where
  allocStringID : GoString → UInt64
  findStringID : GoString → Option UInt64

/-- `fnv.New64`, FNV-1. -/
def fnvHashString (s : GoString) : UInt64 :=
  s.foldl (fun h b => (h * 1099511628211) ^^^ b.toUInt64) 14695981039346656037

example : fnvHashString (str "a") = 0xaf63bd4c8601b7be := by decide

def newHashAllocator (hashFn : GoString → UInt64) : IDAllocator where
  allocStringID := hashFn
  findStringID s := some (hashFn s)

section

variable [FloatOps] [GeoOps]

/-! ### CommonStrParser -/

structure CommonStrParser where
  enableFloat2Int : Bool
  strIDAllocator : IDAllocator

def newCommonParser : CommonStrParser where
  enableFloat2Int := true
  strIDAllocator := newHashAllocator fnvHashString

namespace CommonStrParser

/-- `fmt.Sprintf("%v", uint64(x))`. -/
def sprintUint (x : GoFloat) : GoString := sprintInt (GeoOps.toUInt64 x).toNat

/-- `findInterfaceID`. A nil element has no type whose name could be printed. -/
def findInterfaceID (p : CommonStrParser) : Scalar → Go (Option UInt64)
  | .string s => .ok (p.strIDAllocator.findStringID s)
  | .jsonNumber s => .ok (p.strIDAllocator.findStringID s)
  | .int _ n => .ok (p.strIDAllocator.findStringID (sprintInt n))
  | .float _ x => .ok (if p.enableFloat2Int then p.strIDAllocator.findStringID (sprintUint x) else none)
  | .nil => panicf "invalid memory address or nil pointer dereference" []
  | .other _ _ => .ok none

def parseAssign (p : CommonStrParser) (v : Value) : Go (List UInt64) := do
  if ← nilInterface v then return []
  let find (s : GoString) : Option UInt64 := p.strIDAllocator.findStringID s
  match v with
  | .scalar (.string s) => return (find s).toList
  | .scalar (.jsonNumber s) => return (find s).toList
  | .scalar (.int _ n) => return (find (sprintInt n)).toList
  | .scalar (.float kind x) =>
    if p.enableFloat2Int then return (find (sprintUint x)).toList
    else errorf "value type [%s] not support" [.val (.scalar (.float kind x))]
  | .floats kind xs =>
    if p.enableFloat2Int then return xs.elems.filterMap fun x => find (sprintUint x)
    else errorf "value type [%s] not support" [.val (.floats kind xs)]
  | .ints _ ns => return ns.elems.filterMap fun n => find (sprintInt n)
  | .jsonNumbers ss => return ss.elems.filterMap find
  | .strings ss => return ss.elems.filterMap find
  | .ifaces vs => return (← vs.elems.mapM p.findInterfaceID).reduceOption
  | v => errorf "value type [%s] not support" [.val v]

def allocInterfaceID (p : CommonStrParser) : Scalar → Go UInt64
  | .string s => .ok (p.strIDAllocator.allocStringID s)
  | .jsonNumber s => .ok (p.strIDAllocator.allocStringID s)
  | .int _ n => .ok (p.strIDAllocator.allocStringID (sprintInt n))
  | .float _ x =>
    if p.enableFloat2Int then .ok (p.strIDAllocator.allocStringID (sprintUint x))
    else errorf "type float not supported" []
  | _ => errorf "need string type" []

/-- `ParseValue`. A list of floating point numbers is printed as it is, a single one as a `uint64`. -/
def parseValue (p : CommonStrParser) (v : Value) : Go (List UInt64) :=
  let alloc (s : GoString) : UInt64 := p.strIDAllocator.allocStringID s
  match v with
  | .scalar (.int _ n) => .ok [alloc (sprintInt n)]
  | .scalar (.string s) => .ok [alloc s]
  | .scalar (.jsonNumber s) => .ok [alloc s]
  | .scalar (.float _ x) =>
    if p.enableFloat2Int then .ok [alloc (sprintUint x)] else errorf "type float not supported" []
  | .floats kind xs =>
    if p.enableFloat2Int then .ok (xs.elems.map fun x => alloc (FloatOps.sprintV kind x))
    else errorf "type []float not supported" []
  | .ints _ ns => .ok (ns.elems.map fun n => alloc (sprintInt n))
  | .strings ss => .ok (ss.elems.map alloc)
  | .jsonNumbers ss => .ok (ss.elems.map alloc)
  | .ifaces vs => vs.elems.mapM p.allocInterfaceID
  | .scalar .nil => panicf "invalid memory address or nil pointer dereference" []
  | v => errorf "type [%s] not supported" [.val v]

def generator (p : CommonStrParser) : ValueIDGenerator := ⟨p.parseAssign, p.parseValue⟩

end CommonStrParser

/-! ### NumberParser -/

structure NumberParser where
  floatAsInt : Bool

namespace NumberParser

def parseOne (p : NumberParser) (s : Scalar) : Go UInt64 := (parseIntegerNumber p.floatAsInt s).map Int64.toUInt64

def parseValue (p : NumberParser) (v : Value) : Go (List UInt64) :=
  match v with
  | .scalar .nil => panicf "invalid memory address or nil pointer dereference" []
  | .scalar s =>
    match p.parseOne s with
    | .ok num => .ok [num]
    | .error _ => errorf "value type [%s] not support" [.val v]
  | .ints kind ns => ns.elems.mapM fun n => p.parseOne (.int kind n)
  | .floats kind xs => xs.elems.mapM fun x => p.parseOne (.float kind x)
  | .strings ss => ss.elems.mapM fun s => p.parseOne (.string s)
  | .jsonNumbers ss => ss.elems.mapM fun s => p.parseOne (.jsonNumber s)
  | .ifaces vs => vs.elems.mapM fun iv =>
      match p.parseOne iv with
      | .ok num => .ok num
      | .error _ => errorf "value:%v not a interger-able value" [.val (.scalar iv)]
  | v => errorf "value type [%s] not support" [.val v]

def parseAssign (p : NumberParser) (v : Value) : Go (List UInt64) := do
  if ← nilInterface v then return []
  p.parseValue v

def generator (p : NumberParser) : ValueIDGenerator := ⟨p.parseAssign, p.parseValue⟩

end NumberParser

/-! ### NumberRangeParser -/

namespace NumberRangeParser

/-- `for s := start; s <= end; s += step`. The sum wraps around, and after `2^64` turns it has been
everywhere it will ever be. -/
def rangeLoop (end_ step : Int64) : Nat → Int64 → Go (List UInt64)
  | 0, _ => .error .hang
  | turns + 1, s =>
    if s ≤ end_ then do
      let rest ← rangeLoop end_ step turns (s + step)
      return s.toUInt64 :: rest
    else .ok []

def parseDesc (s : GoString) : Go (List UInt64) :=
  match newRangeDesc s with
  | none => errorf "NumberRangeParser need:'start:end:step'" []
  | some opt => rangeLoop opt.end_ opt.step (2 ^ 64 + 1) opt.start

def parseValue (v : Value) : Go (List UInt64) :=
  match v with
  | .scalar (.string s) => parseDesc s
  | .strings ss => do return (← ss.elems.mapM parseDesc).flatten
  | .ifaces vs => do
    return (← vs.elems.mapM fun
      | .string s => parseDesc s
      | _ => errorf "NumberRangeParser need:'start:end:step'" []).flatten
  | _ => errorf "NumberRangeParser need:'start:end:step'" []

/-- `ParseAssign`. The numbers of a slice are read and then dropped. -/
def parseAssign (v : Value) : Go (List UInt64) := do
  if ← nilInterface v then return []
  let one (s : Scalar) : Go UInt64 := (parseIntegerNumber true s).map Int64.toUInt64
  let slice (elems : List Scalar) : Go (List UInt64) := do
    let _ ← elems.mapM one
    errorf "not suppoted type:%+v" [.val v]
  match v with
  | .scalar (.int kind n) => return [← one (.int kind n)]
  | .scalar (.float kind x) => return [← one (.float kind x)]
  | .scalar (.jsonNumber s) => return [← one (.jsonNumber s)]
  | .ints kind ns => slice (ns.elems.map (.int kind ·))
  | .floats kind xs => slice (xs.elems.map (.float kind ·))
  | .strings ss => slice (ss.elems.map .string)
  | .jsonNumbers ss => slice (ss.elems.map .jsonNumber)
  | .ifaces vs => slice vs.elems
  | v => errorf "not suppoted type:%+v" [.val v]

def generator : ValueIDGenerator := ⟨parseAssign, parseValue⟩

example : rangeLoop 7 3 5 (-1) = .ok [0xFFFFFFFFFFFFFFFF, 2, 5] := by decide

end NumberRangeParser

/-! ### StrHashParser -/

namespace StrHashParser

def parseValue (v : Value) : Go (List UInt64) :=
  match v with
  | .scalar (.string s) => .ok [fnvHashString s]
  | .strings ss => .ok (ss.elems.map fnvHashString)
  | .ifaces vs => vs.elems.mapM fun
      | .string s => .ok (fnvHashString s)
      | _ => errorf "v:%+v not a string" [.val v]
  | v => errorf "v:%+v not a string" [.val v]

def parseAssign (v : Value) : Go (List UInt64) := do
  if ← nilInterface v then return []
  parseValue v

def generator : ValueIDGenerator := ⟨parseAssign, parseValue⟩

end StrHashParser

/-! ### GeoHashParser -/

structure GeoOption where
  precision : Int
  compressPrecisionMin : Int
  compressPrecisionCutoff : Int

def GeoOption.initDefault (p : GeoOption) : GeoOption :=
  let precision := if p.precision = 0 then 6 else p.precision
  let cutoff := if p.compressPrecisionCutoff = 0 then 6 else p.compressPrecisionCutoff
  { precision := precision
    compressPrecisionMin := if p.compressPrecisionMin = 0 then 4 else p.compressPrecisionMin
    compressPrecisionCutoff := min cutoff precision }

structure GeoHashParser where
  option : GeoOption

def defaultGeoHashOption : GeoOption := ⟨6, 3, 6⟩

/-- `NewGeoHashParser`; no option means the default one. -/
def newGeoHashParser (option : Option GeoOption) : GeoHashParser := ⟨(option.getD defaultGeoHashOption).initDefault⟩

namespace GeoHashParser

def parseLatLonRadius (s : GoString) : Go (GoFloat × GoFloat × GoFloat) :=
  match splitColon s with
  | [lat, lon, r] =>
    match FloatOps.parseFloat lat, FloatOps.parseFloat lon, FloatOps.parseFloat r with
    | some lat, some lon, some r => .ok (lat, lon, r)
    | _, _, _ => errorf "strconv.ParseFloat: invalid syntax" []
  | _ => errorf "fmt error, need lat:lon:radius" []

def genGeoHash (p : GeoHashParser) (v : GoString) : Go (List GoString) := do
  let (lat, lon, r) ← parseLatLonRadius v
  return GeoOps.regionCodes lat lon r p.option.precision p.option.compressPrecisionMin p.option.compressPrecisionCutoff

/-- The lengths `i` of `for i := p.CompressPrecisionMin; i <= p.Precision; i++`. -/
def lengths (p : GeoHashParser) : List Int :=
  (List.range (p.option.precision + 1 - p.option.compressPrecisionMin).toNat).map fun i : Nat =>
    p.option.compressPrecisionMin + i

/-- `geohashCode[:i]`. -/
def takeCode (code : GoString) (i : Int) : Go GoString :=
  if i < 0 ∨ i > code.length then panicf "slice bounds out of range" [] else .ok (code.take i.toNat)

def genQueryAssignGeoHash (p : GeoHashParser) (lat lon : GoFloat) : Go (List GoString) := do
  panicIf (decide (p.option.precision < 0)) "makeslice: cap out of range" []
  p.lengths.mapM (takeCode (GeoOps.encode lat lon))

def tokenizeAssign (p : GeoHashParser) (v : Value) : Go (List GoString) :=
  match v with
  | .float64Pair lat lon => p.genQueryAssignGeoHash lat lon
  | .floats .float64 xs =>
    match xs.elems with
    | [lat, lon] => p.genQueryAssignGeoHash lat lon
    | _ => errorf "need lat/lon value" []
  | _ => errorf "bad query assign fmt, need [lat, lon]" []

def tokenizeValue (p : GeoHashParser) (v : Value) : Go (List GoString) :=
  match v with
  | .scalar (.string s) => p.genGeoHash s
  | .strings ss => do return (← ss.elems.mapM p.genGeoHash).flatten.dedup
  | .ifaces vs => do
    return (← vs.elems.mapM fun
      | .string s => p.genGeoHash s
      | _ => errorf "need format like lat:lon:radius" []).flatten.dedup
  | _ => errorf "unsupported geohash type" []

def generator (p : GeoHashParser) : ValueIDGenerator where
  parseAssign v := do return (← p.tokenizeAssign v).map GeoOps.convertStringToInt
  parseValue v := do return (← p.tokenizeValue v).map GeoOps.convertStringToInt

end GeoHashParser

end

end BeIndexer
