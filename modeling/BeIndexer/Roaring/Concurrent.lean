import BeIndexer.Lib.Pool
import BeIndexer.Roaring.Exact

/-!
# Scanners that run at once (`bitmapPool`)

Scanners take the bitmap of their result and their temporary bitmaps from a pool that all goroutines
share. They put the temporary ones back and keep the other. However goroutines interleave, each scanner
answers as the functions on scanners do, which are given empty bitmaps.
-/

namespace BeIndexer.Roaring

open Calls IvtScanner

/-- The bitmaps of a scanner: `conjIDResults`, and `tmpPl` and `docBits` of a retrieval. -/
inductive Bitmap where
  | results | tmp | docBits
  deriving DecidableEq

/-- A call on a scanner. `retrieve` comes with the order in which it visits the containers. -/
inductive ScanCall (indexer : IvtBEIndexer) where
  | newScanner
  | withHint (hints : List Int64)
  | reset
  | retrieve (assigns : Assignments) (order : List (Sigma fun _ : BEField => BEContainer))
      (visits : order.Perm indexer.data.entries)

/-- Where a goroutine is in a call; the steps of `Retrieve` are those of the source. -/
inductive ScanPhase where
  | opening
  | idle
  | scanning (assigns : Assignments) (rest : List (Sigma fun _ : BEField => BEContainer))
  | merging (assigns : Assignments) (rest : List (Sigma fun _ : BEField => BEContainer))
  | clearing (assigns : Assignments) (rest : List (Sigma fun _ : BEField => BEContainer))
  | releasing
  | putting
  | collecting
  | iterating
  | filling (ids : List ConjunctionID)
  | releasingDocs (docs : List UInt64)
  | puttingDocs (docs : List UInt64)
  | dead

/-- A goroutine with a scanner, on which it makes calls one after the other. -/
structure ScanThread (indexer : IvtBEIndexer) where
  todo : List (ScanCall indexer)
  answers : List (Except GoError (List UInt64))
  inited : Bool
  ended : Bool
  phase : ScanPhase

namespace ScanThread

variable {indexer : IvtBEIndexer}

def scanner (t : ScanThread indexer) (view : Pool.View Bitmap PostingList) : IvtScanner :=
  ⟨t.inited, t.ended, indexer, (view .results).getD ∅⟩

def returns (t : ScanThread indexer) (answer : Except GoError (List UInt64)) : ScanThread indexer :=
  { t with todo := t.todo.tail, answers := t.answers ++ [answer], phase := .idle }

/-- `can.Retrieve(values, &tmpPl)`: a panic ends the goroutine, an error the call, without releasing `tmpPl`. -/
def scan (t : ScanThread indexer) (assigns : Assignments) (e : Sigma fun _ : BEField => BEContainer)
    (rest : List (Sigma fun _ : BEField => BEContainer)) : Pool.Action Bitmap PostingList (ScanThread indexer) :=
  let run (view : Pool.View Bitmap PostingList) := e.2.retrieve (assigned assigns e.1) ((view .tmp).getD ∅)
  .write .tmp (fun view => (run view).toOption.getD ∅) fun view =>
    match run view with
    | .ok _ => { t with phase := .merging assigns rest }
    | .error (.err err) => t.returns (.error err)
    | .error _ => { t with phase := .dead }

def act (t : ScanThread indexer) : Pool.Action Bitmap PostingList (ScanThread indexer) :=
  match t.phase with
  | .opening => .get .results { t with inited := false, ended := false, phase := .idle }
  | .idle =>
    match t.todo with
    | [] => .halt
    | .newScanner :: later => .get .results { t with todo := later, inited := false, ended := false }
    | .withHint hints :: later =>
      if t.inited then .halt
      else .write .results (fun view => (view .results).getD ∅ ∪ ((t.scanner view).hintConjIDs hints).toFinset)
        fun _ => { t with todo := later, inited := true }
    | .reset :: later => .write .results (fun _ => ∅) fun _ => { t with todo := later, inited := false, ended := false }
    | .retrieve assigns order _ :: _ => .get .tmp { t with phase := .scanning assigns order }
  | .scanning _ [] => .read fun _ => { t with phase := .releasing }
  | .scanning assigns (e :: rest) =>
    if t.ended then .read fun _ => { t with phase := .releasing } else t.scan assigns e rest
  | .merging assigns rest =>
    let merged (view : Pool.View Bitmap PostingList) := (t.scanner view).mergeFieldResult ((view .tmp).getD ∅)
    .write .results (fun view => (merged view).conjIDResults)
      fun view =>
        { t with inited := (merged view).inited, ended := (merged view).ended, phase := .clearing assigns rest }
  | .clearing assigns rest => .write .tmp (fun _ => ∅) fun _ => { t with phase := .scanning assigns rest }
  | .releasing => .write .tmp (fun _ => ∅) fun _ => { t with phase := .putting }
  | .putting => .put .tmp { t with phase := .collecting }
  | .collecting => .get .docBits { t with phase := .iterating }
  | .iterating => .read fun view => { t with phase := .filling (((view .results).getD ∅).sort (· ≤ ·)) }
  | .filling (id :: ids) =>
    .write .docBits (fun view => insert (ConjunctionID.docID id).toUInt64 ((view .docBits).getD ∅))
      fun _ => { t with phase := .filling ids }
  | .filling [] => .read fun view => { t with phase := .releasingDocs (((view .docBits).getD ∅).sort (· ≤ ·)) }
  | .releasingDocs docs => .write .docBits (fun _ => ∅) fun _ => { t with phase := .puttingDocs docs }
  | .puttingDocs docs => .put .docBits (t.returns (.ok docs))
  | .dead => .halt

end ScanThread

/-- What calls on a scanner of the index come to: the scanner, and what its retrievals returned. -/
inductive Ran (indexer : IvtBEIndexer) :
    List (ScanCall indexer) → IvtScanner → List (Except GoError (List UInt64)) → Prop where
  | opened : Ran indexer [] (newScanner indexer) []
  | newScanner {done : List (ScanCall indexer)} {s : IvtScanner} {answers : List (Except GoError (List UInt64))} :
      Ran indexer done s answers → Ran indexer (done ++ [.newScanner]) (newScanner indexer) answers
  | withHint {done : List (ScanCall indexer)} {s s' : IvtScanner} {answers : List (Except GoError (List UInt64))}
      {hints : List Int64} : Ran indexer done s answers → s.withHint hints = .ok s' →
      Ran indexer (done ++ [.withHint hints]) s' answers
  | reset {done : List (ScanCall indexer)} {s : IvtScanner} {answers : List (Except GoError (List UInt64))} :
      Ran indexer done s answers → Ran indexer (done ++ [.reset]) s.reset answers
  | retrieve {done : List (ScanCall indexer)} {s s' : IvtScanner} {answers : List (Except GoError (List UInt64))}
      {assigns : Assignments} {order : List (Sigma fun _ : BEField => BEContainer)}
      {visits : order.Perm indexer.data.entries} {visit : s.indexer.data.Visit}
      {answer : Except GoError (List UInt64)} :
      Ran indexer done s answers → visit.1 = order → s.retrieve assigns visit = .ok (s', answer) →
      Ran indexer (done ++ [.retrieve assigns order visits]) s' (answers ++ [answer])

section Ran

variable {indexer : IvtBEIndexer} {done : List (ScanCall indexer)} {s s' : IvtScanner}
  {answers : List (Except GoError (List UInt64))}

theorem Ran.same (ran : Ran indexer done s answers) : s.indexer = indexer := by
  have reached : IvtScanner.Reached indexer s := by
    induction ran with
    | opened => exact ⟨_, .new⟩
    | newScanner _ _ => exact ⟨_, .new⟩
    | withHint _ run ih =>
      obtain ⟨_, before⟩ := ih
      exact ⟨_, .hinted before run⟩
    | reset _ ih =>
      obtain ⟨_, before⟩ := ih
      exact ⟨_, .reset before⟩
    | retrieve _ _ run ih =>
      obtain ⟨_, before⟩ := ih
      obtain ⟨_, scanned⟩ := IvtScanner.retrieve_scans run
      exact ⟨_, .retrieved before scanned⟩
  exact reached.indexer

theorem Ran.nil (ran : Ran indexer [] s answers) : s = Roaring.newScanner indexer ∧ answers = [] := by
  generalize none : [] = done at ran
  cases ran with
  | opened => exact ⟨rfl, rfl⟩
  | newScanner | withHint | reset | retrieve => simp at none

theorem Ran.retrieved {assigns : Assignments} {order : List (Sigma fun _ : BEField => BEContainer)}
    {r : Except GoError Unit} (ran : Ran indexer done s answers) (visits : order.Perm indexer.data.entries)
    (run : s.retrieveFrom assigns order = .ok (s', r)) :
    Ran indexer (done ++ [.retrieve assigns order visits]) s'
      (answers ++ [r.map fun _ => docsOf s'.conjIDResults]) := by
  have visit : order.Perm s.indexer.data.entries := by
    rw [ran.same]
    exact visits
  have returned : s.retrieve assigns ⟨order, visit⟩ = .ok (s', r.map fun _ => docsOf s'.conjIDResults) := by
    rw [IvtScanner.retrieve, run]
    cases r <;> rfl
  exact ran.retrieve rfl returned

def ScanCall.Fails (s : IvtScanner) : ScanCall indexer → Prop
  | .withHint hints => ∃ fault, s.withHint hints = .error fault
  | .retrieve assigns order _ => ∃ fault, s.retrieveFrom assigns order = .error fault
  | _ => False

end Ran

namespace ScanThread

variable {indexer : IvtBEIndexer} {t t' : ScanThread indexer} {view view' : Pool.View Bitmap PostingList}
  {s : IvtScanner}

def docBitsOf (ids : List ConjunctionID) : PostingList := (ids.map fun id => (ConjunctionID.docID id).toUInt64).toFinset

theorem docBitsOf_snoc (ids : List ConjunctionID) (id : ConjunctionID) :
    docBitsOf (ids ++ [id]) = insert (ConjunctionID.docID id).toUInt64 (docBitsOf ids) := by
  ext x
  simp [docBitsOf]

theorem docBitsOf_sort (s : IvtScanner) :
    (docBitsOf (s.conjIDResults.sort (· ≤ ·))).sort (· ≤ ·) = docsOf s.conjIDResults := by
  unfold docsOf
  congr 1
  ext x
  simp [docBitsOf]

theorem merged_eq (s : IvtScanner) (pl : PostingList) :
    (⟨(s.mergeFieldResult pl).inited, (s.mergeFieldResult pl).ended, s.indexer,
      (s.mergeFieldResult pl).conjIDResults⟩ : IvtScanner) =
      s.mergeFieldResult pl := by
  unfold IvtScanner.mergeFieldResult
  split
  · rfl
  · split <;> rfl

def InRetrieve (t : ScanThread indexer) (view : Pool.View Bitmap PostingList) (assigns : Assignments)
    (order : List (Sigma fun _ : BEField => BEContainer)) : Prop :=
  (∃ visits later, t.todo = .retrieve assigns order visits :: later) ∧ (view .results).isSome = true

/-- The goroutine has been through the containers and collects the documents. -/
def Scanned (s : IvtScanner) (t : ScanThread indexer) (view : Pool.View Bitmap PostingList) : Prop :=
  ∃ assigns order, t.InRetrieve view assigns order ∧ s.retrieveFrom assigns order = .ok (t.scanner view, .ok ())

/-- What holds in each phase of a goroutine that runs alone, `s` being the scanner before the call. -/
def At (s : IvtScanner) (t : ScanThread indexer) (view : Pool.View Bitmap PostingList) : Prop :=
  match t.phase with
  | .opening => s = newScanner indexer
  | .idle => s = t.scanner view ∧ (view .results).isSome = true
  | .scanning assigns rest => ∃ order, t.InRetrieve view assigns order ∧ view .tmp = some ∅ ∧
      s.retrieveFrom assigns order = (t.scanner view).retrieveFrom assigns rest
  | .merging assigns rest => ∃ order pl, t.InRetrieve view assigns order ∧ view .tmp = some pl ∧
      s.retrieveFrom assigns order = ((t.scanner view).mergeFieldResult pl).retrieveFrom assigns rest
  | .clearing assigns rest => ∃ order, t.InRetrieve view assigns order ∧ (view .tmp).isSome = true ∧
      s.retrieveFrom assigns order = (t.scanner view).retrieveFrom assigns rest
  | .releasing => Scanned s t view ∧ (view .tmp).isSome = true
  | .putting => Scanned s t view ∧ view .tmp = some ∅
  | .collecting => Scanned s t view
  | .iterating => Scanned s t view ∧ view .docBits = some ∅
  | .filling ids => Scanned s t view ∧
      ∃ pre, (t.scanner view).conjIDResults.sort (· ≤ ·) = pre ++ ids ∧ view .docBits = some (docBitsOf pre)
  | .releasingDocs docs =>
    Scanned s t view ∧ docs = docsOf (t.scanner view).conjIDResults ∧ (view .docBits).isSome = true
  | .puttingDocs docs => Scanned s t view ∧ docs = docsOf (t.scanner view).conjIDResults ∧ view .docBits = some ∅
  | .dead => ∃ call later, t.todo = call :: later ∧ call.Fails s

def Alone (calls : List (ScanCall indexer)) (t : ScanThread indexer) (view : Pool.View Bitmap PostingList) : Prop :=
  ∃ done s, calls = done ++ t.todo ∧ Ran indexer done s t.answers ∧ At s t view

/-- The goroutine has made all its calls, or one of them panics. -/
def Over (calls : List (ScanCall indexer)) (t : ScanThread indexer) : Prop :=
  ∃ done s, calls = done ++ t.todo ∧ Ran indexer done s t.answers ∧ ∀ call ∈ t.todo.head?, call.Fails s

def stepsLeft (t : ScanThread indexer) : Nat ×ₗ Nat ×ₗ Nat :=
  toLex (t.todo.length, toLex (match t.phase with
    | .opening => (10, 0)
    | .idle => (9, 0)
    | .scanning _ rest => (8, 3 * rest.length)
    | .merging _ rest => (8, 3 * rest.length + 2)
    | .clearing _ rest => (8, 3 * rest.length + 1)
    | .releasing => (7, 0)
    | .putting => (6, 0)
    | .collecting => (5, 0)
    | .iterating => (4, 0)
    | .filling ids => (3, ids.length)
    | .releasingDocs _ => (2, 0)
    | .puttingDocs _ => (1, 0)
    | .dead => (0, 0)))

def Goes (calls : List (ScanCall indexer)) (t : ScanThread indexer) (view : Pool.View Bitmap PostingList) : Prop :=
  (Pool.alone ∅ act (t, view) = none ∧ Over calls t) ∨
    ∃ t' view', Pool.alone ∅ act (t, view) = some (t', view') ∧ Alone calls t' view' ∧ t'.stepsLeft < t.stepsLeft

section Goes

variable {calls done : List (ScanCall indexer)} {todo : List (ScanCall indexer)}
  {answers : List (Except GoError (List UInt64))}
  {inited ended : Bool}

theorem goes_idle (parts : calls = done ++ todo) (ran : Ran indexer done s answers)
    (at_ : At s ⟨todo, answers, inited, ended, .idle⟩ view) :
    Goes calls ⟨todo, answers, inited, ended, .idle⟩ view := by
  obtain ⟨rfl, held⟩ := at_
  obtain ⟨pl, seen⟩ := Option.isSome_iff_exists.mp held
  have moved : ∀ {call : ScanCall indexer} {later : List (ScanCall indexer)}, todo = call :: later →
      calls = (done ++ [call]) ++ later := by
    intro call later first
    rw [parts, first, List.append_assoc, List.singleton_append]
  rcases todo with _ | ⟨call, later⟩
  · exact Or.inl ⟨rfl, done, _, parts, ran, nofun⟩
  · cases call with
    | newScanner =>
      refine Or.inr ⟨_, _, Pool.alone_get rfl, ⟨_, _, moved rfl, ran.newScanner, rfl, rfl⟩, ?_⟩
      exact Prod.Lex.left _ _ (Nat.lt_succ_self _)
    | withHint hints =>
      cases inited with
      | true =>
        refine Or.inl ⟨rfl, done, _, parts, ran, fun call first => ?_⟩
        obtain rfl := Option.some.inj first
        exact ⟨_, rfl⟩
      | false =>
        refine Or.inr ⟨_, _, Pool.alone_write rfl seen, ⟨_, _, moved rfl, ran.withHint rfl, rfl, rfl⟩, ?_⟩
        exact Prod.Lex.left _ _ (Nat.lt_succ_self _)
    | reset =>
      refine Or.inr ⟨_, _, Pool.alone_write rfl seen, ⟨_, _, moved rfl, ran.reset, rfl, rfl⟩, ?_⟩
      exact Prod.Lex.left _ _ (Nat.lt_succ_self _)
    | retrieve assigns order visits =>
      refine Or.inr ⟨_, _, Pool.alone_get rfl, ⟨done, _, parts, ran, order, ⟨⟨visits, later, rfl⟩, held⟩, rfl, rfl⟩, ?_⟩
      exact Prod.Lex.right _ (Prod.Lex.left _ _ (by decide))

theorem goes_scanning {assigns : Assignments} {rest : List (Sigma fun _ : BEField => BEContainer)}
    (parts : calls = done ++ todo)
    (ran : Ran indexer done s answers) (at_ : At s ⟨todo, answers, inited, ended, .scanning assigns rest⟩ view) :
    Goes calls ⟨todo, answers, inited, ended, .scanning assigns rest⟩ view := by
  obtain ⟨order, ⟨⟨visits, later, rfl⟩, held⟩, seen, run⟩ := at_
  have stops :
      IvtScanner.retrieveFrom assigns
          (scanner ⟨.retrieve assigns order visits :: later, answers, inited, ended, .scanning assigns rest⟩ view)
          rest =
        .ok (scanner ⟨.retrieve assigns order visits :: later, answers, inited, ended, .releasing⟩ view, .ok ()) →
      ∃ s, Ran indexer done s answers ∧
        At s ⟨.retrieve assigns order visits :: later, answers, inited, ended, .releasing⟩ view :=
    fun stop => ⟨s, ran, ⟨assigns, order, ⟨⟨visits, later, rfl⟩, held⟩, run.trans stop⟩, by rw [seen]; rfl⟩
  rcases rest with _ | ⟨e, rest⟩
  · obtain ⟨s, ran, at_⟩ := stops rfl
    refine Or.inr ⟨_, _, Pool.alone_read rfl, ⟨done, s, parts, ran, at_⟩, ?_⟩
    exact Prod.Lex.right _ (Prod.Lex.left _ _ (by decide))
  cases ended with
  | true =>
    obtain ⟨s, ran, at_⟩ := stops (IvtScanner.retrieveFrom_ended rfl)
    refine Or.inr ⟨_, _, Pool.alone_read rfl, ⟨done, s, parts, ran, at_⟩, ?_⟩
    exact Prod.Lex.right _ (Prod.Lex.left _ _ (by decide))
  | false =>
    refine Or.inr ⟨_, _, Pool.alone_write rfl seen, ?_⟩
    dsimp only
    rw [seen, Option.getD_some]
    cases answered : e.2.retrieve (assigned assigns e.1) ∅ with
    | ok pl =>
      refine ⟨⟨done, s, parts, ran, order, pl, ⟨⟨visits, later, rfl⟩, held⟩, rfl, ?_⟩, ?_⟩
      · exact run.trans (IvtScanner.retrieveFrom_step rfl answered)
      · exact Prod.Lex.right _ (Prod.Lex.right _ (by simp only [List.length_cons]; omega))
    | error fault =>
      cases fault with
      | err e =>
        have ended := run.trans (IvtScanner.retrieveFrom_error rfl answered)
        refine ⟨⟨_, _, ?_, ran.retrieved visits ended, rfl, held⟩, Prod.Lex.left _ _ (Nat.lt_succ_self _)⟩
        rw [parts, List.append_assoc]
        rfl
      | panic text =>
        have failed := run.trans (IvtScanner.retrieveFrom_fault rfl answered nofun)
        refine ⟨⟨done, s, parts, ran, _, later, rfl, _, failed⟩, Prod.Lex.right _ (Prod.Lex.left _ _ (by decide))⟩
      | hang =>
        have failed := run.trans (IvtScanner.retrieveFrom_fault rfl answered nofun)
        refine ⟨⟨done, s, parts, ran, _, later, rfl, _, failed⟩, Prod.Lex.right _ (Prod.Lex.left _ _ (by decide))⟩

theorem Alone.goes (holds : Alone calls t view) : Goes calls t view := by
  obtain ⟨done, s, parts, ran, at_⟩ := holds
  obtain ⟨todo, answers, inited, ended, phase⟩ := t
  cases phase with
  | opening =>
    refine Or.inr ⟨_, _, Pool.alone_get rfl, ⟨done, s, parts, ran, at_, rfl⟩, ?_⟩
    exact Prod.Lex.right _ (Prod.Lex.left _ _ (by decide))
  | idle => exact goes_idle parts ran at_
  | scanning assigns rest => exact goes_scanning parts ran at_
  | merging assigns rest =>
    obtain ⟨order, pl, ⟨call, held⟩, seen, run⟩ := at_
    obtain ⟨results, had⟩ := Option.isSome_iff_exists.mp held
    refine Or.inr ⟨_, _, Pool.alone_write rfl had, ⟨done, s, parts, ran, order, ⟨call, rfl⟩, ?_, ?_⟩, ?_⟩
    · show (view .tmp).isSome = true
      rw [seen]
      rfl
    · rw [run]
      dsimp only
      rw [seen]
      exact congrArg (IvtScanner.retrieveFrom assigns · rest) (merged_eq _ pl).symm
    · exact Prod.Lex.right _ (Prod.Lex.right _ (Nat.lt_succ_self _))
  | clearing assigns rest =>
    obtain ⟨order, ⟨call, held⟩, seen, run⟩ := at_
    obtain ⟨pl, seen⟩ := Option.isSome_iff_exists.mp seen
    refine Or.inr ⟨_, _, Pool.alone_write rfl seen, ⟨done, s, parts, ran, order, ⟨call, held⟩, rfl, run⟩, ?_⟩
    exact Prod.Lex.right _ (Prod.Lex.right _ (Nat.lt_succ_self _))
  | releasing =>
    obtain ⟨scanned, seen⟩ := at_
    obtain ⟨pl, seen⟩ := Option.isSome_iff_exists.mp seen
    refine Or.inr ⟨_, _, Pool.alone_write rfl seen, ⟨done, s, parts, ran, scanned, rfl⟩, ?_⟩
    exact Prod.Lex.right _ (Prod.Lex.left _ _ (by decide))
  | putting =>
    obtain ⟨scanned, seen⟩ := at_
    refine Or.inr ⟨_, _, Pool.alone_put rfl seen, ⟨done, s, parts, ran, scanned⟩, ?_⟩
    exact Prod.Lex.right _ (Prod.Lex.left _ _ (by decide))
  | collecting =>
    refine Or.inr ⟨_, _, Pool.alone_get rfl, ⟨done, s, parts, ran, at_, rfl⟩, ?_⟩
    exact Prod.Lex.right _ (Prod.Lex.left _ _ (by decide))
  | iterating =>
    obtain ⟨scanned, seen⟩ := at_
    refine Or.inr ⟨_, _, Pool.alone_read rfl, ⟨done, s, parts, ran, scanned, [], rfl, seen⟩, ?_⟩
    exact Prod.Lex.right _ (Prod.Lex.left _ _ (by decide))
  | filling ids =>
    obtain ⟨scanned, pre, split, seen⟩ := at_
    cases ids with
    | cons id ids =>
      refine Or.inr ⟨_, _, Pool.alone_write rfl seen, ⟨done, s, parts, ran, scanned, pre ++ [id], ?_, ?_⟩, ?_⟩
      · rw [List.append_assoc]
        exact split
      · rw [Function.update_self, seen, docBitsOf_snoc]
        rfl
      · exact Prod.Lex.right _ (Prod.Lex.right _ (Nat.lt_succ_self _))
    | nil =>
      rw [List.append_nil] at split
      refine Or.inr ⟨_, _, Pool.alone_read rfl, ⟨done, s, parts, ran, scanned, ?_, by rw [seen]; rfl⟩, ?_⟩
      · rw [seen, Option.getD_some, ← split, docBitsOf_sort]
        rfl
      · exact Prod.Lex.right _ (Prod.Lex.left _ _ (by decide))
  | releasingDocs docs =>
    obtain ⟨scanned, found, seen⟩ := at_
    obtain ⟨pl, seen⟩ := Option.isSome_iff_exists.mp seen
    refine Or.inr ⟨_, _, Pool.alone_write rfl seen, ⟨done, s, parts, ran, scanned, found, rfl⟩, ?_⟩
    exact Prod.Lex.right _ (Prod.Lex.left _ _ (by decide))
  | puttingDocs docs =>
    obtain ⟨⟨assigns, order, ⟨⟨visits, later, rfl⟩, held⟩, run⟩, found, seen⟩ := at_
    have found : docs = docsOf ((view .results).getD ∅) := found
    subst found
    refine Or.inr ⟨_, _, Pool.alone_put rfl seen, ⟨_, _, ?_, ran.retrieved visits run, rfl, held⟩, ?_⟩
    · rw [parts, List.append_assoc]
      rfl
    · exact Prod.Lex.left _ _ (Nat.lt_succ_self _)
  | dead =>
    obtain ⟨call, later, rfl, fails⟩ := at_
    refine Or.inl ⟨rfl, done, s, parts, ran, fun c first => ?_⟩
    obtain rfl := Option.some.inj first
    exact fails

theorem Alone.step (holds : Alone calls t view) (step : Pool.alone ∅ act (t, view) = some (t', view')) :
    Alone calls t' view' := by
  rcases holds.goes with ⟨stops, _⟩ | ⟨u, v, moved, alone, _⟩
  · rw [stops] at step
    cases step
  · obtain ⟨rfl, rfl⟩ := Prod.mk.inj (Option.some.inj (moved.symm.trans step))
    exact alone

theorem Alone.finishes (holds : Alone calls t view) :
    ∃ t' view', Pool.Reaches ∅ act (t, view) (t', view') ∧ Over calls t' := by
  induction left : t.stepsLeft using WellFoundedLT.induction generalizing t view with
  | ind _ ih =>
    subst left
    rcases holds.goes with ⟨_, ends⟩ | ⟨u, v, moved, alone, fewer⟩
    · exact ⟨t, view, Relation.ReflTransGen.refl, ends⟩
    · obtain ⟨t', view', reaches, ends⟩ := ih _ fewer alone rfl
      exact ⟨t', view', reaches.head moved, ends⟩

end Goes

def start (calls : List (ScanCall indexer)) : ScanThread indexer := ⟨calls, [], false, false, .opening⟩

theorem alone_of_reaches {calls : List (ScanCall indexer)} {c : ScanThread indexer × Pool.View Bitmap PostingList}
    (reaches : Pool.Reaches ∅ act (start calls, fun _ => none) c) : Alone calls c.1 c.2 := by
  induction reaches with
  | refl => exact ⟨[], _, rfl, .opened, rfl⟩
  | tail _ step ih => exact ih.step step

theorem tidy (calls : List (ScanCall indexer)) : Pool.Tidy ∅ act (start calls) := by
  intro c reaches r next does x held
  obtain ⟨_, _, _, _, at_⟩ := alone_of_reaches reaches
  obtain ⟨⟨todo, answers, inited, ended, phase⟩, view⟩ := c
  cases phase with
  | putting =>
    cases does
    exact Option.some.inj (held.symm.trans at_.2)
  | puttingDocs docs =>
    cases does
    exact Option.some.inj (held.symm.trans at_.2.2)
  | idle =>
    rcases todo with _ | ⟨_ | _ | _ | _, later⟩
    any_goals cases does
    have does : (if inited = true then Pool.Action.halt else _) = _ := does
    split at does <;> cases does
  | scanning assigns rest =>
    cases rest with
    | nil => cases does
    | cons e rest =>
      have does : (if ended = true then Pool.Action.read _ else _) = _ := does
      split at does <;> cases does
  | filling ids => cases ids <;> cases does
  | opening | merging | clearing | releasing | collecting | iterating | releasingDocs | dead => cases does

/-- Goroutines with scanners of one index share the pool of bitmaps, in any interleaving of their steps.
What the calls of each have returned is what the functions on scanners return, and each can always go on
until all its calls have returned or one panics. -/
theorem scans_alone {ι : Type} [DecidableEq ι] {calls : ι → List (ScanCall indexer)}
    {s : Pool.State ι Bitmap PostingList (ScanThread indexer)}
    (steps : Pool.Steps ∅ (fun _ => act) (Pool.initial ∅ fun i => start (calls i)) s) (i : ι) :
    (∃ done scanner, calls i = done ++ (s.pc i).todo ∧ Ran indexer done scanner (s.pc i).answers) ∧
      ∃ s', Pool.Steps ∅ (fun _ => act) s s' ∧ (s'.pc i).Over (calls i) := by
  have inv := steps.inv (fun i => tidy (calls i)) Pool.initial_inv
  have alone := alone_of_reaches (inv.alone i)
  obtain ⟨t, view, reaches, ends⟩ := alone.finishes
  obtain ⟨s', more, same⟩ := inv.goes_on (fun i => tidy (calls i)) reaches
  obtain ⟨done, scanner, parts, ran, _⟩ := alone
  refine ⟨⟨done, scanner, parts, ran⟩, s', more, ?_⟩
  rw [show s'.pc i = t from congrArg Prod.fst same]
  exact ends

theorem Over.one {assigns : Assignments} {order : List (Sigma fun _ : BEField => BEContainer)}
    {visits : order.Perm indexer.data.entries}
    {r : Except GoError Unit} (ends : Over [.retrieve assigns order visits] t)
    (run : (newScanner indexer).retrieveFrom assigns order = .ok (s, r)) :
    t.answers = [r.map fun _ => docsOf s.conjIDResults] := by
  obtain ⟨done, s₁, parts, ran, fails⟩ := ends
  generalize t.answers = answers at ran ⊢
  generalize t.todo = todo at parts fails
  cases ran with
  | opened =>
    obtain rfl : todo = [.retrieve assigns order visits] := parts.symm
    obtain ⟨fault, failed⟩ := fails _ rfl
    cases run.symm.trans failed
  | newScanner | withHint | reset => simp [List.append_assoc, List.cons_eq_append_iff] at parts
  | @retrieve before _ _ _ assigns' order' _ _ _ ran visit returned =>
    obtain ⟨rfl, ⟨rfl, rfl⟩, rfl⟩ : before = [] ∧ (assigns' = assigns ∧ order' = order) ∧ todo = [] := by
      simpa [List.append_assoc, List.cons_eq_append_iff] using parts
    obtain ⟨rfl, rfl⟩ := ran.nil
    rw [IvtScanner.retrieve, visit, run] at returned
    cases r with
    | ok u =>
      obtain ⟨rfl, rfl⟩ := Prod.mk.inj (Except.ok.inj returned)
      rfl
    | error e =>
      obtain ⟨rfl, rfl⟩ := Prod.mk.inj (Except.ok.inj returned)
      rfl

/-- Two goroutines on an index with one document for all queries. The second gets for its results the bitmap
that the first has worked on. -/
theorem scans_alone_reuse :
    let can : BEContainer := ⟨fun _ inout => .ok (inout ∪ {1792})⟩
    let indexer : IvtBEIndexer := ⟨1, AList.singleton (str "age") can⟩
    let call : ScanCall indexer := .retrieve ∅ [⟨str "age", can⟩] (.refl _)
    ∃ s : Pool.State Bool Bitmap PostingList (ScanThread indexer),
      Pool.Steps ∅ (fun _ => act) (Pool.initial ∅ fun _ => start [call]) s ∧
      s.slots (.inr (true, .results)) = some 1 ∧ s.slots (.inr (false, .results)) = some 0 ∧
      ∃ s', Pool.Steps ∅ (fun _ => act) s s' ∧ (s'.pc true).answers = [.ok [7]] := by
  intro can indexer call
  have found : finished (fun s₁ _ => decide (docsOf s₁.conjIDResults = [7]))
      ((newScanner indexer).retrieveFrom ∅ [⟨str "age", can⟩]) = true := by
    decide +kernel
  obtain ⟨s₁, u, run, docs⟩ := finished_iff.mp found
  have returned : ∀ t : ScanThread indexer, t.Over [call] → t.answers = [.ok [7]] := by
    intro t ends
    rw [ends.one run, ← of_decide_eq_true docs]
    rfl
  have before : Pool.Steps ∅ (fun _ => act) (Pool.initial ∅ fun _ : Bool => start [call]) _ := Pool.Steps.refl _
  have picked := (before.go (.alloc (i := false) rfl)).go (.alloc (i := false) rfl)
  have scanned := ((picked.go (.write (i := false) rfl rfl)).go (.write (i := false) rfl rfl)).go
    (.write (i := false) rfl rfl)
  have ended := scanned.go (.read (i := false) rfl)
  have put := (ended.go (.write (i := false) rfl rfl)).go (.put (i := false) 0 rfl rfl)
  have steps := put.go (.reuse (i := true) (k := 0) rfl rfl)
  exact ⟨_, steps, rfl, rfl, (scans_alone steps true).2.imp fun s' reached => ⟨reached.1, returned _ reached.2⟩⟩

end ScanThread

end BeIndexer.Roaring
