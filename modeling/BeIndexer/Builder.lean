import BeIndexer.Index
import BeIndexer.Lib.Calls

/-!
# The builder (`index_builder.go`, `doc_idx_cache.go`)

A document is indexed in two phases: every conjunction is prepared, which may create fields,
containers and holders, and only then are all of them committed. With a document-level cache the
committed data is also stored, and a later document with the same id and version is restored from it.

A returned error keeps what the call did to the builder before, so a call that can return one is a
`Calls.Outcome`. A panic ends the program.
-/

namespace BeIndexer

open Calls

/-- The result of a call that does not change the state. -/
def settle {σ α : Type} (s : σ) : Go α → Go (σ × Except GoError α)
  | .ok a => .ok (s, .ok a)
  | .error (.err e) => .ok (s, .error e)
  | .error fault => .error fault

/-! ### Document-level cache -/

structure DocCacheKey where
  docID : DocID
  version : UInt64
  deriving DecidableEq

structure IdxCacheEntry where
  eid : EntryID
  dataBytes : Bytes
  deriving DecidableEq

structure FieldIndexes where
  field : BEField
  entries : List IdxCacheEntry
  deriving DecidableEq

structure ConjIdxCache where
  conjIdx : Int
  conjSize : Int
  wildcardEID : EntryID
  fieldCacheIdx : List FieldIndexes
  deriving DecidableEq

structure DocIdxCache where
  docID : DocID
  version : UInt64
  schemaHash : UInt64
  conjIdxCaches : List ConjIdxCache
  deriving DecidableEq

/-- The cache is supplied by the user; it is a map. -/
abbrev DocLevelCache := DocCacheKey → Option DocIdxCache

def DocLevelCache.clear : DocLevelCache := fun _ => none

def DocLevelCache.set (cache : DocLevelCache) (key : DocCacheKey) (entry : DocIdxCache) : DocLevelCache :=
  Function.update cache key (some entry)

/-! ### Builder state -/

inductive IndexerType where
  | default | compact
  | other (n : Int)
  deriving DecidableEq

/-- `ErrorBadConj`, `SkipBadConj` and `PanicBadConj`; any other number is treated as the last. -/
inductive BadConjBehavior where
  | error | skip | panic
  deriving DecidableEq

structure BuilderOption where
  indexerType : IndexerType
  badConjBehavior : BadConjBehavior
  docLevelCache : Option DocLevelCache

structure IndexerBuilder extends BuilderOption where
  indexer : BEIndex
  fieldsData : FieldTable
  schemaHash : UInt64

/-- The data of one expression. It is committed to the holder of `field` in the container for size `k`. -/
structure FieldIndexingData where
  field : FieldDesc
  k : Nat
  eid : EntryID
  data : IndexingData
  deriving DecidableEq

structure ConjIndexingData where
  idx : Nat
  incSize : Nat
  conjID : ConjID
  fieldData : List FieldIndexingData
  deriving DecidableEq

/-- The order in which a loop visits a map, given the map's entries in some fixed order. -/
structure MapOrder (α : Type) where
  visit : List α → List α
  perm : ∀ entries, (visit entries).Perm entries

def MapOrder.id {α : Type} : MapOrder α := ⟨fun entries => entries, fun _ => .refl _⟩

/-- How the loops of one call go over the field table and over the fields of a captured conjunction. -/
structure MapLoops where
  fields : MapOrder FieldDesc
  captured : MapOrder FieldIndexes

def MapLoops.id : MapLoops := ⟨MapOrder.id, MapOrder.id⟩

def initIndexer : IndexerType → Go BEIndex
  | .default => .ok (.kgroups newKGroupsBEIndex)
  | .compact => .ok (.compact newCompactedBEIndex)
  | .other n => panicf "type:%d not supported" [.int n]

def newIndexerBuilder (option : BuilderOption) : Go IndexerBuilder := do
  let indexer ← initIndexer option.indexerType
  return { option with indexer := indexer, fieldsData := .empty, schemaHash := 0 }

/-! ### Schema hash -/

/-- FNV-1a, 64 bits. -/
def fnvSum (bytes : Bytes) : UInt64 :=
  bytes.foldl (fun h b => (h ^^^ b.toUInt64) * 1099511628211) 14695981039346656037

/-- The bytes that `updateSchemaHash` writes. -/
def schemaBytes (descs : List FieldDesc) : Bytes := descs.flatMap fun desc => desc.field ++ desc.container

example : fnvSum (str "a") = 0xaf63dc4c8601ec8c := by decide

def ConjID.string (id : ConjID) : GoString :=
  str "<" ++ sprintInt id.docID.toInt ++ str "," ++ sprintInt id.index ++ str "," ++ sprintInt id.size ++ str ">"

namespace IndexerBuilder

def reset (b : IndexerBuilder) : Go IndexerBuilder := do
  let indexer ← initIndexer b.indexerType
  return { b with indexer := indexer }

def setContainer (b : IndexerBuilder) (k : Nat) (c : EntriesContainer) : IndexerBuilder :=
  { b with indexer := b.indexer.setContainer k c }

/-! ### Fields -/

def updateSchemaHash (loops : MapLoops) (fieldsData : FieldTable) : UInt64 :=
  fnvSum (schemaBytes (loops.fields.visit fieldsData.descs))

/-- `configureField`: a new field changes the schema hash and clears the cache. -/
def configureField (loops : MapLoops) (b : IndexerBuilder) (field : BEField) (container : GoString) :
    Go (IndexerBuilder × FieldDesc) :=
  if fresh : b.fieldsData.find field = none then
    let container := if container.isEmpty then HolderNameDefault else container
    let fieldsData := b.fieldsData.add field container fresh
    .ok ({ b with
        fieldsData := fieldsData
        schemaHash := updateSchemaHash loops fieldsData
        docLevelCache := b.docLevelCache.map fun _ => DocLevelCache.clear },
      ⟨b.fieldsData.descs.length, field, container⟩)
  else errorf "can't configure field:%s twice" [.str field]

def configField (loops : MapLoops) (b : IndexerBuilder) (field : BEField) (container : GoString) :
    Go IndexerBuilder := do
  let (b, _) ← panicIfErr "config field:%s with option fail:%+v" [.str field, .str container]
    (b.configureField loops field container)
  return b

def createFieldData (loops : MapLoops) (b : IndexerBuilder) (field : BEField) : Go (IndexerBuilder × FieldDesc) :=
  match b.fieldsData.find field with
  | some desc => .ok (b, desc)
  | none => panicIfErr "this should not happened for default settings" []
      (b.configureField loops field HolderNameDefault)

/-! ### Preparing -/

section Prepare

variable [FloatOps]

/-- The body of the loop of `indexingConjunction`, for one expression on a field. -/
def indexingExpr (loops : MapLoops) (conjID : ConjID) (b : IndexerBuilder) (expr : BEField × BoolValues) :
    Go (IndexerBuilder × Except GoError FieldIndexingData) := do
  let k := conjID.size
  let (b, desc) ← b.createFieldData loops expr.1
  let (container, holder) ← (b.indexer.container k).createHolder desc
  let b := b.setContainer k container
  match holder.buildFieldIndexingData desc expr.2 with
  | .ok (holder, data) =>
    return (b.setContainer k (container.setHolder desc holder), .ok ⟨desc, k, newEntryID conjID expr.2.incl, data⟩)
  | .error (.err cause) => return (b, .error (.wrapf "indexing field:%s fail:%v" [.str expr.1] cause))
  | .error fault => .error fault

/-- The expressions of a conjunction, in the order in which its fields are visited. -/
def exprList (conj : Conjunction) : List (BEField × BoolValues) :=
  conj.expressions.entries.flatMap fun e => e.2.map fun expr => (e.1, expr)

def indexingConjunction (loops : MapLoops) (b : IndexerBuilder) (conjID : ConjID) (conj : Conjunction) :
    Go (IndexerBuilder × Except GoError (List FieldIndexingData)) :=
  mapCalls (indexingExpr loops conjID) { b with indexer := b.indexer.newContainer conjID.size } (exprList conj)

/-- One turn of `ConjLoop`; a conjunction that is skipped gives nothing. -/
def prepareConj (loops : MapLoops) (docID : DocID) (b : IndexerBuilder) (conj : Conjunction × Nat) :
    Go (IndexerBuilder × Except GoError (Option ConjIndexingData)) := do
  let incSize := conj.1.calcConjSize
  let conjID ← newConjID docID conj.2 incSize
  match ← b.indexingConjunction loops conjID conj.1 with
  | (b, .ok fieldData) => return (b, .ok (some ⟨conj.2, incSize, conjID, fieldData⟩))
  | (b, .error err) =>
    match b.badConjBehavior with
    | .skip => return (b, .ok none)
    | .error => return (b, .error (.wrapf "indexing conj:%s fail:%v" [.str conjID.string] err))
    | .panic => .error (.panic (.wrapf "indexing conj:%s fail:%v" [.str conjID.string] err))

end Prepare

/-! ### Committing -/

/-- `tx.holder.CommitFieldIndexingData(*tx)`; the holder was created when the data was prepared. -/
def commitFieldIndexingData (b : IndexerBuilder) (tx : FieldIndexingData) : Go IndexerBuilder := do
  let (container, holder) ← (b.indexer.container tx.k).createHolder tx.field
  let holder ← holder.commitFieldIndexingData tx.field tx.eid tx.data
  return b.setContainer tx.k (container.setHolder tx.field holder)

def commitConjIndexingData (b : IndexerBuilder) (cd : ConjIndexingData) : Go IndexerBuilder :=
  let b := if cd.incSize = 0 then { b with indexer := b.indexer.addWildcardEID (newEntryID cd.conjID true) } else b
  cd.fieldData.foldlM (fun b tx => panicIfErr "commit indexing data failed" [] (b.commitFieldIndexingData tx)) b

end IndexerBuilder

/-! ### Capturing and restoring -/

namespace ConjIndexingData

variable [Codec]

/-- The entries captured for a field. An expression that cannot be encoded is logged and passed over. -/
def capturedEntries (cd : ConjIndexingData) (field : BEField) : List IdxCacheEntry :=
  (cd.fieldData.filter fun tx => tx.field.field == field).filterMap fun tx =>
    match tx.data.encode with
    | .ok dataBytes => some ⟨tx.eid, dataBytes⟩
    | .error _ => none

def toCacheResult (loops : MapLoops) (cd : ConjIndexingData) : ConjIdxCache where
  conjIdx := cd.idx
  conjSize := cd.incSize
  wildcardEID := if cd.incSize = 0 then newEntryID cd.conjID true else 0
  fieldCacheIdx :=
    let fields := (cd.fieldData.map fun tx => tx.field.field).dedup
    (loops.captured.visit (fields.map fun field => ⟨field, cd.capturedEntries field⟩)).filter
      fun fieldTx => !fieldTx.entries.isEmpty

end ConjIndexingData

namespace IndexerBuilder

section Restore

variable [Codec]

/-- The body of the loop of `toConjIndexingData`, for one field. -/
def restoreField (k : Nat) (b : IndexerBuilder) (fieldTx : FieldIndexes) :
    Go (IndexerBuilder × Except GoError (List FieldIndexingData)) :=
  match b.fieldsData.find fieldTx.field with
  | none => .ok (b, .error (.errorf "field %s not configured" [.str fieldTx.field]))
  | some desc => do
    let (container, holder) ← (b.indexer.container k).createHolder desc
    settle (b.setContainer k container) (fieldTx.entries.mapM fun txCache => do
      let txData ← wrapErr "decode tx data failed for field %s: %v" [.str fieldTx.field]
        (holder.decodeFieldIndexingData txCache.dataBytes)
      return ⟨desc, k, txCache.eid, txData⟩)

def toConjIndexingData (b : IndexerBuilder) (docID : DocID) (conjResult : ConjIdxCache) :
    Go (IndexerBuilder × Except GoError ConjIndexingData) := do
  let conjID ← newConjID docID conjResult.conjIdx conjResult.conjSize
  -- `NewConjID` has rejected a negative index or size
  let k := conjResult.conjSize.toNat
  andThen (mapCalls (restoreField k) { b with indexer := b.indexer.newContainer k } conjResult.fieldCacheIdx)
    fun b fieldData => .ok (b, .ok ⟨conjResult.conjIdx.toNat, k, conjID, fieldData.flatten⟩)

/-- One turn of the loop of `AddDocIndexingData`. -/
def restoreConj (docID : DocID) (b : IndexerBuilder) (conjResult : ConjIdxCache) :
    Go (IndexerBuilder × Except GoError Unit) :=
  andThen (b.toConjIndexingData docID conjResult) fun b cd =>
    (b.commitConjIndexingData cd).map fun b => (b, .ok ())

def addDocIndexingData (b : IndexerBuilder) (cached : DocIdxCache) : Go (IndexerBuilder × Except GoError Unit) :=
  andThen (mapCalls (restoreConj cached.docID) b cached.conjIdxCaches) fun b _ => .ok (b, .ok ())

end Restore

/-! ### Adding documents -/

section AddDocument

variable [FloatOps] [Codec]

/-- The cache entry that a document is restored from. -/
def cachedEntry (b : IndexerBuilder) (doc : Document) : Option DocIdxCache :=
  match b.docLevelCache with
  | none => none
  | some cache =>
    if doc.version > 0 then
      match cache ⟨doc.id, doc.version⟩ with
      | some cached => if cached.schemaHash = b.schemaHash then some cached else none
      | none => none
    else none

/-- Stores what was committed for a document, unless nothing was. -/
def saveEntry (loops : MapLoops) (b : IndexerBuilder) (doc : Document) (schemaHash : UInt64)
    (allConjData : List ConjIndexingData) : IndexerBuilder :=
  let entry := ⟨doc.id, doc.version, schemaHash, allConjData.map (·.toCacheResult loops)⟩
  if doc.version > 0 ∧ allConjData ≠ [] then
    { b with docLevelCache := b.docLevelCache.map fun cache => cache.set ⟨doc.id, doc.version⟩ entry }
  else b

/-- The path of `buildDocEntries` without a cache hit. The schema hash that is stored was read before
the document's fields are created. -/
def buildEntries (loops : MapLoops) (b : IndexerBuilder) (doc : Document) (cons : List (Conjunction × Nat)) :
    Go (IndexerBuilder × Except GoError Unit) :=
  andThen (mapCalls (prepareConj loops doc.id) b cons) fun b' prepared =>
    let allConjData := prepared.reduceOption
    (allConjData.foldlM commitConjIndexingData b').map fun b' =>
      (b'.saveEntry loops doc b.schemaHash allConjData, .ok ())

def buildDocEntries (loops : MapLoops) (b : IndexerBuilder) (doc : Document) :
    Go (IndexerBuilder × Except GoError Unit) := do
  panicIf (doc.cons.length == 0) "no conjunctions in this document" []
  panicIf (doc.cons.length > 0xFF) "number of conjunction need less than 256" []
  match b.cachedEntry doc with
  | some cached => b.addDocIndexingData cached
  | none => b.buildEntries loops doc doc.cons.zipIdx

def validDocument (doc : Document) : Go Unit :=
  if doc.cons.length == 0 then errorf "no conjunctions in this document" []
  else if doc.cons.length > 0xFF then errorf "number of conjunction need less than 256" []
  else .ok ()

/-- `AddDocument` of one document. -/
def addOne (loops : MapLoops) (b : IndexerBuilder) (doc : Document) : Go (IndexerBuilder × Except GoError Unit) :=
  andThen (settle b (validDocument doc)) fun b _ => b.buildDocEntries loops doc

/-- `AddDocument`; documents after the first that fails are not looked at. -/
def addDocument (loops : MapLoops) (b : IndexerBuilder) (docs : List Document) :
    Go (IndexerBuilder × Except GoError Unit) :=
  andThen (mapCalls (addOne loops) b docs) fun b _ => .ok (b, .ok ())

end AddDocument

/-- `BuildIndex`; the index returned is the builder's own. -/
def buildIndex [AhoMachine] (b : IndexerBuilder) : Go IndexerBuilder := do
  let indexer ← panicIfErr "fail compile indexer data, err:%+v" []
    (b.indexer.setFieldDesc b.fieldsData).compileIndexer
  return { b with indexer := indexer }

end IndexerBuilder

end BeIndexer
