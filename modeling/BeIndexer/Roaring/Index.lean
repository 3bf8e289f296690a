import BeIndexer.Builder
import BeIndexer.Roaring.Parsers

/-!
# The roaring index (`roaringidx`)

Every configured field has a container of bitmaps over conjunction ids: one for the conjunctions that
accept any value, one for each included and one for each excluded value. A scan intersects what the
containers answer. A bitmap is a finite set.
-/

namespace BeIndexer.Roaring

open Calls

/-! ### Conjunction ids -/

abbrev ConjunctionID := UInt64

def MaxConjunctions : UInt64 := 0xFF
def MaxDocumentID : Int := 0x7FFFFFFFFFFFFF

def validRoaringIdxDocID (id : Int64) : Bool := id.toInt ≤ MaxDocumentID && id.toInt ≥ -MaxDocumentID

def newConjunctionID (idx : Int) (doc : Int64) : Go ConjunctionID :=
  if !validIdxOrSize idx || !validRoaringIdxDocID doc then
    errorf "id:%d,%d overflow, doc:[%d,%d] idx:[0,255] "
      [.int doc.toInt, .int idx, .int (-MaxDocumentID), .int MaxDocumentID]
  else .ok ((doc <<< 8).toUInt64 ||| idx.toNat.toUInt64)

def ConjunctionID.docID (id : ConjunctionID) : Int64 := id.toInt64 >>> 8

def ConjunctionID.idx (id : ConjunctionID) : UInt8 := (id &&& MaxConjunctions).toUInt8

theorem newConjunctionID_ok {idx : Nat} {doc : Int64} {id : ConjunctionID} (made : newConjunctionID idx doc = .ok id) :
    idx < 256 ∧ -MaxDocumentID ≤ doc.toInt ∧ doc.toInt ≤ MaxDocumentID ∧
      id = (doc <<< 8).toUInt64 ||| idx.toUInt64 := by
  unfold newConjunctionID at made
  split at made
  · cases made
  · rename_i valid
    simp only [Bool.or_eq_true, not_or, Bool.not_eq_true', Bool.not_eq_false, validIdxOrSize, validRoaringIdxDocID,
      Bool.and_eq_true, decide_eq_true_eq, ge_iff_le] at valid
    exact ⟨by omega, valid.2.2, valid.2.1, (Except.ok.inj made).symm⟩

/-- The value of the packed word: the document id in the upper bits, as it is negative or not. -/
theorem newConjunctionID_toNat {idx : Nat} {doc : Int64} {id : ConjunctionID}
    (made : newConjunctionID idx doc = .ok id) : (id.toNat : Int) = (doc.toInt * 256 + idx) % 2 ^ 64 := by
  obtain ⟨small, low, high, rfl⟩ := newConjunctionID_ok made
  have shifted : (doc <<< 8).toUInt64.toNat = doc.toUInt64.toNat % 2 ^ 56 * 2 ^ 8 := by
    have : (doc <<< 8).toUInt64.toNat = (doc.toUInt64.toNat <<< 8) % 2 ^ 64 := rfl
    rw [this, Nat.shiftLeft_eq]
    omega
  have value : doc.toInt = (doc.toUInt64.toNat : Int).bmod (2 ^ 64) := BitVec.toInt_eq_toNat_bmod doc.toBitVec
  have word : idx.toUInt64.toNat = idx := Nat.mod_eq_of_lt (by omega)
  rw [UInt64.toNat_or, shifted, word, or_eq_add (show idx < 2 ^ 8 by omega)]
  rw [Int.bmod_def] at value
  split at value <;> omega

theorem docID_newConjunctionID {idx : Nat} {doc : Int64} {id : ConjunctionID}
    (made : newConjunctionID idx doc = .ok id) : ConjunctionID.docID id = doc := by
  have packed := newConjunctionID_toNat made
  obtain ⟨small, low, high, _⟩ := newConjunctionID_ok made
  have bound := id.toNat_lt
  have value : id.toInt64.toInt = (id.toNat : Int).bmod (2 ^ 64) := BitVec.toInt_eq_toNat_bmod id.toBitVec
  have shifted : (ConjunctionID.docID id).toInt = id.toInt64.toInt >>> (8 : Nat) := BitVec.toInt_sshiftRight
  apply Int64.toInt_inj.mp
  rw [shifted, Int.shiftRight_eq_div_pow, value, Int.bmod_def]
  simp only [MaxDocumentID] at low high
  split <;> omega

theorem newConjunctionID_inj {idx idx' : Nat} {doc doc' : Int64} {id : ConjunctionID}
    (made : newConjunctionID idx doc = .ok id) (made' : newConjunctionID idx' doc' = .ok id) :
    doc = doc' ∧ idx = idx' := by
  obtain rfl := (docID_newConjunctionID made).symm.trans (docID_newConjunctionID made')
  have packed := newConjunctionID_toNat made
  have packed' := newConjunctionID_toNat made'
  obtain ⟨small, _⟩ := newConjunctionID_ok made
  obtain ⟨small', _⟩ := newConjunctionID_ok made'
  exact ⟨rfl, by omega⟩

/-! ### Containers -/

abbrev PostingList := Finset UInt64

/-- The bitmaps of a container, of which `κ` are the values. -/
structure Postings (κ : Type) where
  wc : PostingList
  inc : GoMap κ PostingList
  exc : GoMap κ PostingList

/-- The bitmap under a key, created when it is missing, gets an id. -/
def addTo {κ : Type} [DecidableEq κ] (m : GoMap κ PostingList) (key : κ) (id : ConjunctionID) : GoMap κ PostingList :=
  m.insert key (insert id ((m.lookup key).getD ∅))

namespace Postings

variable {κ : Type} [DecidableEq κ]

def empty : Postings κ := ⟨∅, ∅, ∅⟩

def addWildcard (p : Postings κ) (id : ConjunctionID) : Postings κ := { p with wc := insert id p.wc }

def addInclude (p : Postings κ) (value : κ) (id : ConjunctionID) : Postings κ := { p with inc := addTo p.inc value id }

def addExclude (p : Postings κ) (value : κ) (id : ConjunctionID) : Postings κ := { p with exc := addTo p.exc value id }

/-- The loop over the values of an expression. -/
def addValues (p : Postings κ) (incl : Bool) (values : List κ) (id : ConjunctionID) : Postings κ :=
  values.foldl (fun p value => if incl then p.addInclude value id else p.addExclude value id) p

end Postings

structure DefaultBEContainer where
  parser : ValueIDGenerator
  postings : Postings UInt64

/-- The machines hold the keywords they were built from. -/
structure ACBEContainer where
  querySep : GoString
  postings : Postings GoString
  inc : Option (List (List Rune))
  exc : Option (List (List Rune))

/-- What a scan uses of a container: `Retrieve`, which is passed a bitmap to work on. -/
structure BEContainer where
  retrieve : Value → PostingList → Go PostingList

namespace DefaultBEContainer

def retrieve (c : DefaultBEContainer) (values : Value) (inout : PostingList) : Go PostingList := do
  let inout := inout ∪ c.postings.wc
  if ← nilInterface values then return inout
  let ids ← c.parser.parseAssign values
  let inout := ids.foldl (fun inout id => match c.postings.inc.lookup id with
    | some incPl => inout ∪ incPl
    | none => inout) inout
  return ids.foldl (fun inout id => match c.postings.exc.lookup id with
    | some excPl => inout \ excPl
    | none => inout) inout

def encodeExpr (c : DefaultBEContainer) (id : ConjunctionID) (expr : BoolValues) : Go DefaultBEContainer := do
  panicIf (expr.operator != .eq) "default container support EQ operator only" []
  let valueIDs ← c.parser.parseValue expr.value
  return { c with postings := c.postings.addValues expr.incl valueIDs id }

end DefaultBEContainer

namespace ACBEContainer

section

variable [AhoMachine]

/-- The bitmap of a word that was found. A word that is no key has no bitmap. -/
def wordList (m : GoMap GoString PostingList) (word : List Rune) : Go PostingList :=
  match m.lookup (stringOfRunes word) with
  | some pl => .ok pl
  | none => panicf "invalid memory address or nil pointer dereference" []

def retrieve (c : ACBEContainer) (values : Value) (inout : PostingList) : Go PostingList := do
  let inout := inout ∪ c.postings.wc
  if ← nilInterface values then return inout
  let data ← buildAcMatchContent values c.querySep
  let inout ← match c.inc with
    | none => pure inout
    | some machine => (AhoMachine.multiPatternSearch machine data).foldlM (fun inout word => do
        let pl ← wordList c.postings.inc word
        return inout ∪ pl) inout
  match c.exc with
  | none => return inout
  | some machine => (AhoMachine.multiPatternSearch machine data).foldlM (fun inout word => do
      let pl ← wordList c.postings.exc word
      return inout \ pl) inout

/-- The machine over the keywords of a map, unless there are none. -/
def buildMachine (m : GoMap GoString PostingList) : Go (Option (List (List Rune))) :=
  let keys := m.entries.map fun e => runes e.1
  if keys.isEmpty then .ok none
  else do
    (AhoMachine.build keys).mapError Fault.err
    return some keys

def build (c : ACBEContainer) : Go ACBEContainer := do
  let inc ← buildMachine c.postings.inc
  let exc ← buildMachine c.postings.exc
  return { c with inc := inc, exc := exc }

end

/-- `EncodeExpr`. A nil value encodes nothing. -/
def encodeExpr (c : ACBEContainer) (id : ConjunctionID) (expr : BoolValues) : Go ACBEContainer := do
  if ← nilInterface expr.value then return c
  panicIf (expr.operator != .eq) "ac_match support EQ operator only" []
  let keys ← wrapErr "ac container need string type values, err:%v" [] (parseAcMatchDict expr.value)
  return { c with postings := c.postings.addValues expr.incl keys id }

end ACBEContainer

inductive BEContainerBuilder where
  | default (c : DefaultBEContainer)
  | ac (c : ACBEContainer)

namespace BEContainerBuilder

def encodeWildcard (id : ConjunctionID) : BEContainerBuilder → BEContainerBuilder
  | .default c => .default { c with postings := c.postings.addWildcard id }
  | .ac c => .ac { c with postings := c.postings.addWildcard id }

def encodeExpr (id : ConjunctionID) (expr : BoolValues) : BEContainerBuilder → Go BEContainerBuilder
  | .default c => (c.encodeExpr id expr).map .default
  | .ac c => (c.encodeExpr id expr).map .ac

def buildBEContainer [AhoMachine] : BEContainerBuilder → Go BEContainer
  | .default c => .ok ⟨c.retrieve⟩
  | .ac c => do
    let c ← c.build
    return ⟨c.retrieve⟩

end BEContainerBuilder

/-! ### Builder -/

/-- `FieldSetting`; the containers of the factory. -/
structure FieldSetting where
  parser : Option ValueIDGenerator
  container : GoString

def ContainerNameDefault : GoString := str "default"
def ContainerNameAcMatch : GoString := str "ac_matcher"

structure IvtBEIndexerBuilder where
  docMaxConjSize : Nat
  panicOnError : Bool
  containerBuilder : GoMap BEField BEContainerBuilder
  defaultParser : ValueIDGenerator

/-- The order in which one loop visits the keys of a map. -/
abbrev KeyOrder := MapOrder BEField

structure IvtBEIndexer where
  docMaxConjSize : Nat
  data : GoMap BEField BEContainer

namespace IvtBEIndexerBuilder

def newIndexerBuilder (defaultParser : ValueIDGenerator) : IvtBEIndexerBuilder := ⟨1, false, ∅, defaultParser⟩

def withErrPanic (b : IvtBEIndexerBuilder) (panics : Bool) : IvtBEIndexerBuilder := { b with panicOnError := panics }

def newContainerBuilder (container : GoString) (parser : ValueIDGenerator) : Option BEContainerBuilder :=
  if container = ContainerNameDefault then some (.default ⟨parser, .empty⟩)
  else if container = ContainerNameAcMatch then some (.ac ⟨str " ", .empty, none, none⟩)
  else none

/-- An error is returned, unless the builder is set to panic, with a text of its own. -/
def failure {σ α : Type} (panicOnError : Bool) (s : σ) (text e : GoError) : Go (σ × Except GoError α) :=
  if panicOnError then .error (.panic text) else .ok (s, .error e)

/-- `ConfigureField`; a field that is configured again starts with an empty container. -/
def configureField (b : IvtBEIndexerBuilder) (field : BEField) (option : FieldSetting) :
    Go (IvtBEIndexerBuilder × Except GoError Unit) :=
  match newContainerBuilder option.container (option.parser.getD b.defaultParser) with
  | none =>
    let e : GoError := .errorf "field:%s settings:%+v not supported" [.str field, .str option.container]
    failure b.panicOnError b e e
  | some c => .ok ({ b with containerBuilder := b.containerBuilder.insert field c }, .ok ())

/-- The loop over the expressions of a field. -/
def encodeExprs (panicOnError : Bool) (id : ConjunctionID) (c : BEContainerBuilder) (exprs : List BoolValues) :
    Go (BEContainerBuilder × Except GoError (List Unit)) :=
  mapCalls (fun c expr =>
    match c.encodeExpr id expr with
    | .ok c => .ok (c, .ok ())
    | .error (.err e) => failure panicOnError c (.wrapf "failed evaluate boolean expression:%+v" [] expr.string) e
    | .error fault => .error fault) c exprs

/-- What one conjunction does to the container of a field. -/
def encodeField (panicOnError : Bool) (id : ConjunctionID) (c : BEContainerBuilder) (exprs : List BoolValues) :
    Go (BEContainerBuilder × Except GoError Unit) :=
  andThen (encodeExprs panicOnError id c exprs) fun c _ =>
    .ok (if exprs.all (fun expr => !expr.incl) then c.encodeWildcard id else c, .ok ())

/-- One turn of the loop over the containers. -/
def addField (id : ConjunctionID) (conj : Conjunction) (b : IvtBEIndexerBuilder) (field : BEField) :
    Go (IvtBEIndexerBuilder × Except GoError Unit) :=
  match b.containerBuilder.lookup field with
  | none => .ok (b, .ok ())
  | some c => do
    let (c, r) ← encodeField b.panicOnError id c (conj.exprs field)
    return ({ b with containerBuilder := b.containerBuilder.insert field c }, r)

/-- The first field of a conjunction that is not configured. -/
def unconfigured (b : IvtBEIndexerBuilder) (conj : Conjunction) : Option BEField :=
  (conj.expressions.entries.map Sigma.fst).find? fun field => !(b.containerBuilder.lookup field).isSome

/-- One turn of the loop over the conjunctions; the containers are visited in the given order. -/
def addConj (order : Nat → List BEField) (docID : DocID) (b : IvtBEIndexerBuilder) (conj : Conjunction × Nat) :
    Go (IvtBEIndexerBuilder × Except GoError (List Unit)) :=
  match newConjunctionID conj.2 docID with
  | .error (.err e) => failure b.panicOnError b (.wrapf "gen conj id fail,%v" [] e) e
  | .error fault => .error fault
  | .ok id =>
    match b.unconfigured conj.1 with
    | some field =>
      let e : GoError := .errorf "document contains none-configured field:%s" [.str field]
      failure b.panicOnError b e e
    | none => mapCalls (addField id conj.1) b (order conj.2)

/-- `AddDocument`. The loops over the containers are made once for each conjunction, and no container is
added or removed meanwhile. -/
def addDocument (orders : Nat → KeyOrder) (b : IvtBEIndexerBuilder) (doc : Document) :
    Go (IvtBEIndexerBuilder × Except GoError Unit) :=
  if doc.cons.isEmpty then failure b.panicOnError b (.errorf "zero conjunction in this document" [])
    (.errorf "empty document(zero conjunctions) is not allowed" [])
  else andThen (mapCalls (addConj (fun i => (orders i).visit b.containerBuilder.keys) doc.id) b doc.cons.zipIdx)
    fun b _ =>
    .ok ({ b with docMaxConjSize := max doc.cons.length b.docMaxConjSize }, .ok ())

/-- `AddDocuments`, with the orders of the loops for each document. -/
def addDocuments (b : IvtBEIndexerBuilder) (docs : List ((Nat → KeyOrder) × Document)) :
    Go (IvtBEIndexerBuilder × Except GoError (List Unit)) :=
  mapCalls (fun b doc => b.addDocument doc.1 doc.2) b docs

/-- `BuildIndexer`; the order of the fields does not matter to what is built. -/
def buildIndexer [AhoMachine] (b : IvtBEIndexerBuilder) : Go IvtBEIndexer := do
  let data ← b.containerBuilder.entries.foldlM (fun (data : GoMap BEField BEContainer) e => do
    let container ← e.2.buildBEContainer
    return data.insert e.1 container) ∅
  return { docMaxConjSize := b.docMaxConjSize, data := data }

/-- A builder after calls that returned, with the documents that it was given. `May` limits the settings of
fields, `Returned` what adding a document may have come to. -/
inductive Run (May : FieldSetting → Prop) (Returned : Except GoError Unit → Prop) :
    IvtBEIndexerBuilder → List Document → Prop where
  | new (defaultParser : ValueIDGenerator) : Run May Returned (newIndexerBuilder defaultParser) []
  | withErrPanic {docs : List Document} {b : IvtBEIndexerBuilder} (panics : Bool) :
      Run May Returned b docs → Run May Returned (b.withErrPanic panics) docs
  | configured {docs : List Document} {b b' : IvtBEIndexerBuilder} {field : BEField} {option : FieldSetting}
      {r : Except GoError Unit} : Run May Returned b docs → May option →
      b.configureField field option = .ok (b', r) → Run May Returned b' docs
  | added {docs : List Document} {b b' : IvtBEIndexerBuilder} {orders : Nat → KeyOrder} {doc : Document}
      {r : Except GoError Unit} : Run May Returned b docs → b.addDocument orders doc = .ok (b', r) → Returned r →
      Run May Returned b' (docs ++ [doc])

end IvtBEIndexerBuilder

/-! ### Scanner -/

structure IvtScanner where
  inited : Bool
  ended : Bool
  indexer : IvtBEIndexer
  conjIDResults : PostingList

def newScanner (indexer : IvtBEIndexer) : IvtScanner := ⟨false, false, indexer, ∅⟩

/-- `assigns[field]`. -/
def assigned (assigns : Assignments) (field : BEField) : Value := (assigns.lookup field).getD (.scalar .nil)

namespace IvtScanner

/-- The conjunction ids that the documents of the hints can have; bad ids are passed over. -/
def hintConjIDs (s : IvtScanner) (hints : List Int64) : List ConjunctionID :=
  hints.flatMap fun hintID => (List.range s.indexer.docMaxConjSize).filterMap fun (conjIdx : Nat) =>
    match newConjunctionID conjIdx hintID with
    | .ok conjID => some conjID
    | .error _ => none

def withHint (s : IvtScanner) (hints : List Int64) : Go IvtScanner := do
  panicIf s.inited "can't attach hint result in progress" []
  return { s with conjIDResults := s.conjIDResults ∪ (s.hintConjIDs hints).toFinset, inited := true }

def reset (s : IvtScanner) : IvtScanner := { s with inited := false, ended := false, conjIDResults := ∅ }

def hasEnded (s : IvtScanner) : Bool := s.inited && decide (s.conjIDResults = ∅)

def mergeFieldResult (s : IvtScanner) (pl : PostingList) : IvtScanner :=
  let s :=
    if s.hasEnded then s
    else if s.inited then { s with conjIDResults := s.conjIDResults ∩ pl }
    else { s with inited := true, conjIDResults := s.conjIDResults ∪ pl }
  { s with ended := decide (s.conjIDResults = ∅) }

/-- The loop of `retrieve` over the containers that are still to be visited. -/
def retrieveFrom (assigns : Assignments) (s : IvtScanner) :
    List (Sigma fun _ : BEField => BEContainer) → Go (IvtScanner × Except GoError Unit)
  | [] => .ok (s, .ok ())
  | ⟨field, can⟩ :: rest =>
    if s.ended then .ok (s, .ok ())
    else
      match can.retrieve (assigned assigns field) ∅ with
      | .ok pl => retrieveFrom assigns (s.mergeFieldResult pl) rest
      | .error (.err e) => .ok (s, .error e)
      | .error fault => .error fault

def retrieve (s : IvtScanner) (assigns : Assignments) (visit : s.indexer.data.Visit) :
    Go (IvtScanner × Except GoError (List UInt64)) :=
  andThen (s.retrieveFrom assigns visit.1) fun s _ =>
    .ok (s, .ok ((s.conjIDResults.image fun id => (ConjunctionID.docID id).toUInt64).sort (· ≤ ·)))

end IvtScanner

end BeIndexer.Roaring
