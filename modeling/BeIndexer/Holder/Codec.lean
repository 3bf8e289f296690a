import BeIndexer.Holder.Range

/-!
# Encoded indexing data

Protobuf and JSON are parameters: `Codec` says what the two libraries do with the messages of this
repository. `encoding/json` sees exported fields only, and those of `Range` are not exported, so a
range is written as an empty object.
-/

namespace BeIndexer

abbrev Bytes := List UInt8

/-- The exported part of `RangeTxData` and of `OptimizedRangeTxData`: whether there is a range, not which. -/
structure RangeTxJSON where
  operator : ValueOpt
  range : Bool
  eqValues : List Int64
  deriving DecidableEq

def RangeTxData.toJSON (data : RangeTxData) : RangeTxJSON where
  operator := data.operator
  range := data.rgValue.isSome
  eqValues := data.eqValues

/-- `&Range{}`, which an empty object is read into. -/
def zeroRange : Range := ⟨0, 0, Or.inl le_rfl⟩

def RangeTxData.ofJSON (json : RangeTxJSON) : RangeTxData where
  operator := json.operator
  rgValue := if json.range then some zeroRange else none
  eqValues := json.eqValues

/-- `proto.Marshal` and `proto.Unmarshal` of a `StrListValues`, `json.Marshal` and `json.Unmarshal` of
the range data. -/
class Codec where
  protoMarshal : List GoString → Except GoError Bytes
  protoUnmarshal : Bytes → Except GoError (List GoString)
  jsonMarshal : RangeTxJSON → Except GoError Bytes
  jsonUnmarshal : Bytes → Except GoError RangeTxJSON

def returned {α : Type} (r : Except GoError α) : Go α := r.mapError Fault.err

theorem returned_eq_ok {α : Type} {r : Except GoError α} {a : α} : returned r = .ok a ↔ r = .ok a := by
  cases r <;> simp [returned, Except.mapError]

/-- The two libraries on one message each. -/
@[reducible]
def Codec.single (strings : List GoString) (wire : Bytes) (json : RangeTxJSON) (text : Bytes) : Codec where
  protoMarshal s := if s = strings then .ok wire else .error (.errorf "proto: field contains invalid UTF-8" [])
  protoUnmarshal b :=
    if b = wire then .ok strings else .error (.errorf "proto: cannot parse invalid wire-format data" [])
  jsonMarshal j := if j = json then .ok text else .error (.errorf "json: unsupported value" [])
  jsonUnmarshal b := if b = text then .ok json else .error (.errorf "invalid character" [])

variable [Codec]

/-- `Encode` of the data of either range container. -/
def RangeTxData.encode (data : RangeTxData) : Go Bytes := returned (Codec.jsonMarshal data.toJSON)

/-- `DecodeFieldIndexingData` of either range container. -/
def RangeTxData.decode (bytes : Bytes) : Go RangeTxData :=
  returned ((Codec.jsonUnmarshal bytes).map RangeTxData.ofJSON)

end BeIndexer
