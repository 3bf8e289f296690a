import BeIndexer.Builder
import Mathlib.Data.List.ReduceOption

/-!
# The posting store

What a builder is for: posting lists by conjunction size and field name, and the wildcard list. The
store knows nothing of field ids, of containers that exist or not yet, or of when a field was
created; a field without a holder is a field with empty posting lists. Documents are prepared
without a state, and committing one touches nothing but the lists of its expressions.
-/

namespace BeIndexer

open Calls

/-- The posting lists of a field: by token in the shared holder, or those of the field's own holder. -/
inductive Postings where
  | tokens (entries : GoString → Entries)
  | range (h : RangeHolder)
  | optimizedRange (h : OptimizedRangeHolder)
  | acMatcher (h : ACEntriesHolder)

namespace Postings

def empty : Postings := .tokens fun _ => []

/-- The part of a holder that belongs to the field with the given id. -/
def ofHolder (id : Nat) : EntriesHolder → Postings
  | .default h => .tokens fun value => h.plEntries ⟨id, value⟩
  | .range h => .range h
  | .optimizedRange h => .optimizedRange h
  | .acMatcher h => .acMatcher h

/-- The posting lists of a field that was configured with a container name, before any commit. -/
def fresh (container : GoString) : Postings :=
  match newEntriesHolder container with
  | some h => .ofHolder 0 h
  | none => .empty

/-- A new holder has no entries, so the id of its field does not matter. -/
theorem ofHolder_new {container : GoString} {h : EntriesHolder} (made : newEntriesHolder container = some h)
    (id : Nat) : ofHolder id h = fresh container := by
  rw [fresh, made]
  unfold newEntriesHolder at made
  split_ifs at made <;> obtain rfl := Option.some.inj made <;> rfl

def commit (p : Postings) (eid : EntryID) (data : IndexingData) : Go Postings :=
  match p, data with
  | .tokens entries, .strTokens values =>
    .ok (.tokens fun value => if value ∈ values then entries value ++ [eid] else entries value)
  | .tokens _, _ => panicf "bad TxData need *StringTxData, oops" []
  | .range h, .range data => (h.commitFieldIndexingData eid data).map .range
  | .range _, _ => panicf "interface conversion: not *RangeTxData" []
  | .optimizedRange h, .optimizedRange data => (h.commitFieldIndexingData eid data).map .optimizedRange
  | .optimizedRange _, _ => panicf "interface conversion: not *OptimizedRangeTxData" []
  | .acMatcher h, .acKeys keys => .ok (.acMatcher (h.commitFieldIndexingData eid keys))
  | .acMatcher _, _ => errorf "invalid Tx.Data type" []

end Postings

/-- A compact index keeps the conjunctions of all sizes together. -/
@[ext]
structure Store where
  compact : Bool
  wildcard : Entries
  posts : Nat → BEField → Postings
  shared : compact = true → ∀ k k', posts k = posts k'

/-- The data of one expression, for the posting lists of `field` at size `k`. -/
structure Tx where
  k : Nat
  field : BEField
  eid : EntryID
  data : IndexingData
  deriving DecidableEq

structure ConjTx where
  idx : Nat
  incSize : Nat
  conjID : ConjID
  txs : List Tx
  deriving DecidableEq

namespace Store

/-- The lists of size `k` are those of size `k'`. -/
def Slot (s : Store) (k k' : Nat) : Prop := s.compact = true ∨ k = k'

instance (s : Store) (k k' : Nat) : Decidable (s.Slot k k') := inferInstanceAs (Decidable (_ ∨ _))

def put (s : Store) (k : Nat) (f : BEField) (p : Postings) : Store where
  compact := s.compact
  wildcard := s.wildcard
  posts := fun k' f' => if s.Slot k k' ∧ f' = f then p else s.posts k' f'
  shared := by
    intro compact k₁ k₂
    funext f'
    simp [Slot, compact, s.shared compact k₁ k₂]

theorem put_self (s : Store) (k : Nat) (f : BEField) : s.put k f (s.posts k f) = s := by
  ext1
  · rfl
  · rfl
  · funext k' f'
    simp only [put]
    split
    · rename_i here
      obtain ⟨compact | rfl, rfl⟩ := here
      · rw [s.shared compact k k']
      · rfl
    · rfl

def configure (s : Store) (f : BEField) (container : GoString) : Store where
  compact := s.compact
  wildcard := s.wildcard
  posts := fun k g => if g = f then .fresh container else s.posts k g
  shared := by
    intro compact k₁ k₂
    rw [s.shared compact k₁ k₂]

theorem configure_default {s : Store} {f : BEField} (unused : ∀ k, s.posts k f = .empty) :
    s.configure f HolderNameDefault = s := by
  ext1
  · rfl
  · rfl
  · funext k g
    simp only [configure]
    split
    · rename_i same
      rw [same, unused]
      rfl
    · rfl

def addWildcard (s : Store) (id : EntryID) : Store := { s with wildcard := s.wildcard ++ [id] }

/-- A commit that returns an error ends the program. -/
def commitPostings (p : Postings) (eid : EntryID) (data : IndexingData) : Go Postings :=
  panicIfErr "commit indexing data failed" [] (p.commit eid data)

def commitTx (s : Store) (tx : Tx) : Go Store := do
  let p ← commitPostings (s.posts tx.k tx.field) tx.eid tx.data
  return s.put tx.k tx.field p

def commitConj (s : Store) (c : ConjTx) : Go Store :=
  let s := if c.incSize = 0 then s.addWildcard (newEntryID c.conjID true) else s
  c.txs.foldlM commitTx s

end Store

/-! ### Preparing a document -/

section Prepare

variable [FloatOps]

def prepareExpr (container : GoString) (field : BEField) (bv : BoolValues) : Go IndexingData :=
  match newEntriesHolder container with
  | some holder => (holder.buildFieldIndexingData ⟨0, field, container⟩ bv).map Prod.snd
  | none => panicf "field:%s container:%s not found, plz register it" [.str field, .str container]

def prepareTx (containers : BEField → GoString) (conjID : ConjID) (expr : BEField × BoolValues) : Go Tx := do
  let data ← wrapErr "indexing field:%s fail:%v" [.str expr.1] (prepareExpr (containers expr.1) expr.1 expr.2)
  return ⟨conjID.size, expr.1, newEntryID conjID expr.2.incl, data⟩

/-- What becomes of a conjunction of which an expression cannot be prepared. -/
def badConj (behavior : BadConjBehavior) (conjID : ConjID) (err : GoError) : Go (Option ConjTx) :=
  match behavior with
  | .skip => .ok none
  | .error => wrapf "indexing conj:%s fail:%v" [.str conjID.string] err
  | .panic => .error (.panic (.wrapf "indexing conj:%s fail:%v" [.str conjID.string] err))

/-- The expressions of a conjunction prepared, or the first error. -/
def prepareTxs (containers : BEField → GoString) (conjID : ConjID) (conj : Conjunction) : Go (List Tx) :=
  (IndexerBuilder.exprList conj).mapM (prepareTx containers conjID)

def prepareConjTx (containers : BEField → GoString) (behavior : BadConjBehavior) (docID : DocID)
    (conj : Conjunction × Nat) : Go (Option ConjTx) := do
  let conjID ← newConjID docID conj.2 conj.1.calcConjSize
  match prepareTxs containers conjID conj.1 with
  | .ok txs => return some ⟨conj.2, conj.1.calcConjSize, conjID, txs⟩
  | .error (.err err) => badConj behavior conjID err
  | .error fault => .error fault

theorem prepareConjTx_some {containers : BEField → GoString} {behavior : BadConjBehavior} {docID : DocID}
    {conj : Conjunction × Nat} {c : ConjTx} (run : prepareConjTx containers behavior docID conj = .ok (some c)) :
    newConjID docID conj.2 conj.1.calcConjSize = .ok c.conjID ∧ c.idx = conj.2 ∧ c.incSize = conj.1.calcConjSize ∧
      prepareTxs containers c.conjID conj.1 = .ok c.txs := by
  obtain ⟨conjID, packed, rest⟩ := bind_eq_ok.mp run
  split at rest
  · rename_i txs prepared
    obtain rfl := Option.some.inj (Except.ok.inj rest)
    exact ⟨packed, rfl, rfl, prepared⟩
  · unfold badConj at rest
    split at rest <;> cases rest
  · cases rest

/-- Both phases of a document. -/
def Store.build (containers : BEField → GoString) (behavior : BadConjBehavior) (docID : DocID) (s : Store)
    (cons : List (Conjunction × Nat)) : Go (Store × Except GoError Unit) :=
  andThen (settle s (cons.mapM (prepareConjTx containers behavior docID))) fun s prepared =>
    (prepared.reduceOption.foldlM Store.commitConj s).map fun s => (s, .ok ())

def Store.addOne (containers : BEField → GoString) (behavior : BadConjBehavior) (s : Store) (doc : Document) :
    Go (Store × Except GoError Unit) :=
  andThen (settle s (IndexerBuilder.validDocument doc)) fun s _ => s.build containers behavior doc.id doc.cons.zipIdx

def Store.addDocument (containers : BEField → GoString) (behavior : BadConjBehavior) (s : Store)
    (docs : List Document) : Go (Store × Except GoError Unit) :=
  andThen (mapCalls (Store.addOne containers behavior) s docs) fun s _ => .ok (s, .ok ())

end Prepare

/-! ### Restoring a document -/

section Restore

variable [Codec]

def restoreTx (holder : EntriesHolder) (k : Nat) (field : BEField) (txCache : IdxCacheEntry) : Go Tx := do
  let data ← wrapErr "decode tx data failed for field %s: %v" [.str field]
    (holder.decodeFieldIndexingData txCache.dataBytes)
  return ⟨k, field, txCache.eid, data⟩

/-- The cached entries of a field decoded; `fields` gives the container names of configured fields. -/
def restoreTxs (fields : BEField → Option GoString) (k : Nat) (fieldTx : FieldIndexes) : Go (List Tx) :=
  match fields fieldTx.field with
  | none => errorf "field %s not configured" [.str fieldTx.field]
  | some container =>
    match newEntriesHolder container with
    | none => panicf "field:%s container:%s not found, plz register it" [.str fieldTx.field, .str container]
    | some holder => fieldTx.entries.mapM (restoreTx holder k fieldTx.field)

def restoreConjTx (fields : BEField → Option GoString) (docID : DocID) (cached : ConjIdxCache) : Go ConjTx := do
  let conjID ← newConjID docID cached.conjIdx cached.conjSize
  let txs ← cached.fieldCacheIdx.mapM (restoreTxs fields cached.conjSize.toNat)
  return ⟨cached.conjIdx.toNat, cached.conjSize.toNat, conjID, txs.flatten⟩

def Store.restoreConj (fields : BEField → Option GoString) (docID : DocID) (s : Store) (cached : ConjIdxCache) :
    Go (Store × Except GoError Unit) :=
  andThen (settle s (restoreConjTx fields docID cached)) fun s c => (s.commitConj c).map fun s => (s, .ok ())

/-- Conjunctions are restored and committed one after the other. -/
def Store.restore (fields : BEField → Option GoString) (docID : DocID) (s : Store) (cached : List ConjIdxCache) :
    Go (Store × Except GoError Unit) :=
  andThen (mapCalls (Store.restoreConj fields docID) s cached) fun s _ => .ok (s, .ok ())

end Restore

end BeIndexer
