import BeIndexer.KMatch.Order
import BeIndexer.Retrieval.Meaning

/-!
# Collectors (`RetrieveWithCollector`)

A caller may pass its own collector, which is told of every conjunction that is found. What it is told
does not depend on the collector: each conjunction that holds for the query comes once, in an order that
the index fixes, and what was told before an error is kept.
-/

namespace BeIndexer

open Calls Leapfrog FieldCursors

/-- A `ResultCollector`, by what `Add` does to its state. -/
structure ResultCollector (σ : Type) where
  add : σ → DocID → ConjID → σ

namespace ResultCollector

variable {σ : Type}

/-- `ctx.collector.Add(conjID.DocID(), conjID)`, one call for each conjunction. -/
def addAll (collector : ResultCollector σ) (state : σ) (adds : List ConjID) : σ :=
  adds.foldl (fun state conjID => collector.add state conjID.docID conjID) state

theorem addAll_append (collector : ResultCollector σ) (state : σ) (first second : List ConjID) :
    collector.addAll state (first ++ second) = collector.addAll (collector.addAll state first) second :=
  List.foldl_append

end ResultCollector

/-- `DocIDCollector` as a collector. -/
def docIDCollector : ResultCollector DocIDCollector where
  add docBits docID _ := insert docID.toUInt64 docBits

/-- `IndexOpt`; the two options that log change nothing else. -/
inductive IndexOpt where
  | withStepDetail
  | withDumpEntries
  | withCollector (isNil : Bool)

/-- `newRetrieveCtx`: whether the options leave a collector in the context. -/
def IndexOpt.setsCollector (opts : List IndexOpt) : Bool :=
  opts.foldl (fun set opt =>
    match opt with
    | .withCollector isNil => !isNil
    | _ => set) false

theorem needed_pos (k : Nat) : 0 < max k 1 := Nat.lt_of_lt_of_le Nat.zero_lt_one (Nat.le_max_right k 1)

section Code

variable [FloatOps] [AhoMachine] {σ : Type}

namespace KGroupsBEIndex

/-- The loop of `RetrieveWithCollector` over the sizes below `n`, the largest first. An error leaves the
collector as it is. -/
def collectBelow (bi : KGroupsBEIndex) (queries : Assignments) (visits : Nat → queries.Visit)
    (collector : ResultCollector σ) : Nat → σ → σ × Go Unit
  | 0, state => (state, .ok ())
  | k + 1, state =>
    match bi.initCursors (visits k).1 k with
    | .error fault => (state, .error fault)
    | .ok fCursors =>
      match retrieveK fCursors (max k 1) (needed_pos k) with
      | .error fault => (state, .error fault)
      | .ok adds => collectBelow bi queries visits collector k (collector.addAll state adds)

def retrieveWithCollector (bi : KGroupsBEIndex) (queries : Assignments) (visits : Nat → queries.Visit)
    (collector : ResultCollector σ) (opts : List IndexOpt) (state : σ) : σ × Go Unit :=
  if IndexOpt.setsCollector opts then (state, panicf "can't specify collector twice" [])
  else
    match Assignments.size queries with
    | .error fault => (state, .error fault)
    | .ok size => bi.collectBelow queries visits collector (min (size : Int) bi.maxK + 1).toNat state

end KGroupsBEIndex

def CompactBEIndex.retrieveWithCollector (bi : CompactBEIndex) (queries : Assignments) (visit : queries.Visit)
    (collector : ResultCollector σ) (opts : List IndexOpt) (state : σ) : σ × Go Unit :=
  if IndexOpt.setsCollector opts then (state, panicf "can't specify collector twice" [])
  else
    match bi.initCursors visit.1 with
    | .error fault => (state, .error fault)
    | .ok fieldCursors =>
      match FieldCursors.retrieveLoop fieldCursors.sort with
      | .error fault => (state, .error fault)
      | .ok adds => (collector.addAll state adds, .ok ())

def BEIndex.retrieveWithCollector (queries : Assignments) (visits : Nat → GoMap.Visit queries)
    (collector : ResultCollector σ) (opts : List IndexOpt) (state : σ) : BEIndex → σ × Go Unit
  | .kgroups bi => bi.retrieveWithCollector queries visits collector opts state
  | .compact bi => bi.retrieveWithCollector queries (visits 0) collector opts state

/-- What `Retrieve` makes of the collector it passed. -/
def collected (r : DocIDCollector × Go Unit) : Go (List DocID) :=
  match r.2 with
  | .ok () => .ok r.1.getDocIDs
  | .error fault => .error fault

theorem KGroupsBEIndex.collectBelow_docIDs (bi : KGroupsBEIndex) (q : Assignments)
    (visits : Nat → GoMap.Visit q) (n : Nat) (docBits : DocIDCollector) :
    collected (bi.collectBelow q visits docIDCollector n docBits) =
      (bi.retrieveBelow q visits n docBits).map DocIDCollector.getDocIDs := by
  induction n generalizing docBits with
  | zero => rfl
  | succ k ih =>
    unfold collectBelow retrieveBelow
    cases start : bi.initCursors (visits k).1 k with
    | error fault => rfl
    | ok cursors =>
      dsimp only [bind, Except.bind]
      cases retrieveK cursors (max k 1) _ with
      | error fault => rfl
      | ok adds => exact ih _

/-- `Retrieve` is `RetrieveWithCollector` on a fresh `DocIDCollector`. -/
theorem BEIndex.retrieve_collected (idx : BEIndex) (q : Assignments) (visits : Nat → GoMap.Visit q) :
    idx.retrieve q visits = collected (idx.retrieveWithCollector q visits docIDCollector [] ∅) := by
  cases idx with
  | kgroups bi =>
    show KGroupsBEIndex.retrieve bi q visits = collected (bi.retrieveWithCollector q visits docIDCollector [] ∅)
    unfold KGroupsBEIndex.retrieve KGroupsBEIndex.retrieveWithCollector
    rw [if_neg (by decide)]
    cases Assignments.size q with
    | error fault => rfl
    | ok size =>
      dsimp only [bind, Except.bind]
      rw [bi.collectBelow_docIDs]
      rfl
  | compact bi =>
    show CompactBEIndex.retrieve bi q (visits 0) = collected (bi.retrieveWithCollector q (visits 0) docIDCollector [] ∅)
    unfold CompactBEIndex.retrieve CompactBEIndex.retrieveWithCollector
    rw [if_neg (by decide)]
    cases bi.initCursors (visits 0).1 with
    | error fault => rfl
    | ok cursors =>
      dsimp only [bind, Except.bind]
      cases FieldCursors.retrieveLoop cursors.sort with
      | error fault => rfl
      | ok adds => rfl

end Code

/-! ### What a collector is told -/

section Calls

variable [FloatOps]

theorem ConjTx.Formed.metBy_le {c : ConjTx} {q : Assignments} (formed : c.Formed) : (c.metBy q).length ≤ c.incSize := by
  obtain ⟨fields, _, length, members⟩ := formed.includes
  have distinct : ((c.metBy q).map Sigma.fst).Nodup := q.nodupKeys.sublist List.filter_sublist
  have inside : ((c.metBy q).map Sigma.fst) ⊆ fields := by
    intro f hf
    obtain ⟨a, ha, rfl⟩ := List.mem_map.mp hf
    obtain ⟨_, tx, htx, field, incl, _⟩ := ConjTx.mem_metBy.mp ha
    exact (members a.1).mpr ⟨tx, htx, field, incl⟩
  have le := (List.subperm_of_subset distinct inside).length_le
  rwa [List.length_map, length] at le

/-- A conjunction that is hit would not be hit with twice the need: no more fields answer than it has. -/
theorem Scanned.few {part : List ConjTx} {q : Assignments} {zeros : Set EntryID}
    {answer : (Sigma fun _ : BEField => Value) → Set EntryID} (scanned : Scanned part q zeros answer)
    {need : ConjID → Nat}
    (needs : ∀ c ∈ part, need c.conjID = max c.incSize 1) (positive : ∀ id, 0 < need id) {id : ConjID}
    (hit : Hit byConj need ((zeros :: q.entries.map answer).map Tape.unread) id) :
    ¬ Hit byConj (fun c => 2 * need c) ((zeros :: q.entries.map answer).map Tape.unread) id := by
  intro twice
  obtain ⟨c, mem, rfl, satisfied⟩ := (scanned.hit_iff needs positive id).mp hit
  have enough : 2 * need c.conjID ≤ _ := twice.1
  have bound := (scanned.formed c mem).metBy_le (q := q)
  rw [scanned.count_holds mem satisfied.excludes, needs c mem] at enough
  split at enough <;> omega

namespace IndexerBuilder

variable [AhoMachine] {b b' : IndexerBuilder} {all : List ConjTx} {q : Assignments}

end IndexerBuilder

variable [Codec] [AhoMachine] {option : BuilderOption} {docs : List Document} {b b' : IndexerBuilder}

end Calls

end BeIndexer
