import BeIndexer.Holder.Codec
import BeIndexer.Holder.Keyword
import BeIndexer.Holder.OptimizedRange

/-!
# Containers of posting lists (`entries_holder.go`, `entries_holder_factory.go`)

The four registered holders behind the `EntriesHolder` interface. Preparing an expression, committing
what was prepared, compiling and querying are dispatched on the holder; indexing data of another
holder's type makes the type assertion of a commit fail.
-/

namespace BeIndexer

/-- A field with the id and the container that the builder gave it. -/
structure FieldDesc where
  id : Nat
  field : BEField
  container : GoString
  deriving DecidableEq

structure Term where
  fieldID : Nat
  value : GoString
  deriving DecidableEq

inductive IndexingData where
  | strTokens (values : List GoString)
  | range (data : RangeTxData)
  | optimizedRange (data : OptimizedRangeTxData)
  | acKeys (keys : List GoString)
  deriving DecidableEq

/-! ### The default container -/

/-- Every field has the default tokenizer: the per-field ones of `RegisterFieldTokenizer`, which `GetTokenizer`
would look up first, are left out. -/
structure DefaultEntriesHolder where
  plEntries : Term → Entries

def newDefaultEntriesHolder : DefaultEntriesHolder := ⟨fun _ => []⟩

namespace DefaultEntriesHolder

variable [FloatOps]

def buildFieldIndexingData (field : FieldDesc) (bv : BoolValues) : Go (List GoString) := do
  panicIf (bv.operator != .eq) "default container support EQ operator only" []
  wrapErr "field:%s value:%+v parse fail, err:%s" [.str field.field, .val bv.value] (tokenizeValue bv.value)

/-- `CommitFieldIndexingData`: each distinct token gets the entry id once. -/
def commitFieldIndexingData (h : DefaultEntriesHolder) (field : FieldDesc) (eid : EntryID) (values : List GoString) :
    DefaultEntriesHolder where
  plEntries := fun t => if t.fieldID = field.id ∧ t.value ∈ values then h.plEntries t ++ [eid] else h.plEntries t

/-- `makeEntriesSorted`. -/
def compileEntries (h : DefaultEntriesHolder) : DefaultEntriesHolder := ⟨fun t => sortEntries (h.plEntries t)⟩

def getEntries (h : DefaultEntriesHolder) (field : FieldDesc) (assigns : Value) : Go EntriesCursors := do
  let values ← tokenizeAssign assigns
  return (values.filter fun value => !(h.plEntries ⟨field.id, value⟩).isEmpty).map
    fun value => newEntriesCursor (h.plEntries ⟨field.id, value⟩)

end DefaultEntriesHolder

/-! ### All holders -/

inductive EntriesHolder where
  | default (h : DefaultEntriesHolder)
  | range (h : RangeHolder)
  | optimizedRange (h : OptimizedRangeHolder)
  | acMatcher (h : ACEntriesHolder)

def HolderNameDefault : GoString := str "default"
def HolderNameACMatcher : GoString := str "ac_matcher"
def HolderNameExtendRange : GoString := str "ext_range"
def HolderNameOptimizedRange : GoString := str "optimized_range"

/-- The range holder that the factory makes. -/
def extRangeHolder : RangeHolder where
  option := newRangeHolderOption
  rangeIdx := freshRangeIdx Int64.minValue Int64.maxValue (by decide)
  plEntries := fun _ => []

example : newNumberExtendRangeHolder newRangeHolderOption = .ok extRangeHolder := rfl

/-- `NewEntriesHolder`; a name that is not registered has none. -/
def newEntriesHolder (name : GoString) : Option EntriesHolder :=
  if name = HolderNameDefault then some (.default newDefaultEntriesHolder)
  else if name = HolderNameExtendRange then some (.range extRangeHolder)
  else if name = HolderNameOptimizedRange then some (.optimizedRange (newOptimizedRangeHolder newRangeHolderOption))
  else if name = HolderNameACMatcher then some (.acMatcher (newACEntriesHolder (str " ")))
  else none

namespace EntriesHolder

variable [FloatOps]

def buildFieldIndexingData (h : EntriesHolder) (field : FieldDesc) (bv : BoolValues) :
    Go (EntriesHolder × IndexingData) :=
  match h with
  | .default h => do
    let values ← DefaultEntriesHolder.buildFieldIndexingData field bv
    return (.default h, .strTokens values)
  | .range h => do
    let data ← RangeHolder.buildFieldIndexingData h.option field.field bv
    return (.range h, .range data)
  | .optimizedRange h => do
    let (h, data) ← h.buildFieldIndexingData field.field bv
    return (.optimizedRange h, .optimizedRange data)
  | .acMatcher h => do
    let keys ← ACEntriesHolder.buildFieldIndexingData bv
    return (.acMatcher h, .acKeys keys)

def commitFieldIndexingData (h : EntriesHolder) (field : FieldDesc) (eid : EntryID) (data : IndexingData) :
    Go EntriesHolder :=
  match h, data with
  | .default h, .strTokens values => .ok (.default (h.commitFieldIndexingData field eid values))
  | .default _, _ => panicf "bad TxData need *StringTxData, oops" []
  | .range h, .range data => (h.commitFieldIndexingData eid data).map .range
  | .range _, _ => panicf "interface conversion: not *RangeTxData" []
  | .optimizedRange h, .optimizedRange data => (h.commitFieldIndexingData eid data).map .optimizedRange
  | .optimizedRange _, _ => panicf "interface conversion: not *OptimizedRangeTxData" []
  | .acMatcher h, .acKeys keys => .ok (.acMatcher (h.commitFieldIndexingData eid keys))
  | .acMatcher _, _ => errorf "invalid Tx.Data type" []

variable [AhoMachine]

def compileEntries : EntriesHolder → Go EntriesHolder
  | .default h => .ok (.default h.compileEntries)
  | .range h => .ok (.range h.compileEntries)
  | .optimizedRange h => h.compileEntries.map .optimizedRange
  | .acMatcher h => h.compileEntries.map .acMatcher

def getEntries (h : EntriesHolder) (field : FieldDesc) (assigns : Value) : Go EntriesCursors :=
  match h with
  | .default h => h.getEntries field assigns
  | .range h => h.getEntries assigns
  | .optimizedRange h => h.getEntries assigns
  | .acMatcher h => h.getEntries assigns

variable [Codec]

/-- An empty byte string stands for an empty list, without a call to `proto.Unmarshal`. -/
def decodeStrings (bytes : Bytes) : Go (List GoString) :=
  if bytes.isEmpty then .ok [] else returned (Codec.protoUnmarshal bytes)

def decodeFieldIndexingData (h : EntriesHolder) (bytes : Bytes) : Go IndexingData :=
  match h with
  | .default _ => (decodeStrings bytes).map .strTokens
  | .range _ => (RangeTxData.decode bytes).map .range
  | .optimizedRange _ => (RangeTxData.decode bytes).map .optimizedRange
  | .acMatcher _ => (decodeStrings bytes).map .acKeys

end EntriesHolder

def IndexingData.encode [Codec] : IndexingData → Go Bytes
  | .strTokens values => returned (Codec.protoMarshal values)
  | .range data => data.encode
  | .optimizedRange data => data.encode
  | .acKeys keys => returned (Codec.protoMarshal keys)

end BeIndexer
