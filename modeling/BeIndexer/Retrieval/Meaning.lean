import BeIndexer.Clauses
import BeIndexer.Holder.RangeMeaning
import BeIndexer.Retrieval.Agreement

/-!
# What documents mean

A field is looked up by tokens or, in the range container, by comparing integers. A retrieval on either
index returns the documents that have a conjunction which holds for the query in this sense, whatever
calls configured the fields and added the documents, and in whatever order.
-/

namespace BeIndexer

open Calls IndexerBuilder

/-! ### Expressions -/

section Expressions

variable [FloatOps]

/-- The integers that an expression in the range container stands for. -/
def BoolValues.Ranges (bv : BoolValues) (n : Int64) : Prop :=
  match bv.operator with
  | .eq => ∃ ids, parseIntegers bv.value newRangeHolderOption.enableFloat2Int = .ok ids ∧ n ∈ ids
  -- the interval of `GT` ends before the largest word
  | .gt => ∃ x, parseIntegerValue bv.value newRangeHolderOption.enableFloat2Int = .ok x ∧ x < n ∧ n < Int64.maxValue
  | .lt => ∃ x, parseIntegerValue bv.value newRangeHolderOption.enableFloat2Int = .ok x ∧ n < x
  -- an interval with equal ends is one point
  | .between => ∃ l r, betweenBounds bv.value = .ok (l, r) ∧ l ≤ n ∧ (n < r ∨ n = r ∧ r = l)
  | .other _ => False

/-- Neither a `GT` of the largest word nor an `LT` of the smallest one. -/
def BoolValues.Bounded (bv : BoolValues) : Prop :=
  ∀ x, parseIntegerValue bv.value newRangeHolderOption.enableFloat2Int = .ok x →
    (bv.operator = .gt → x ≠ Int64.maxValue) ∧ (bv.operator = .lt → x ≠ Int64.minValue)

/-- A query value meets an expression on a field with the given container. -/
def BoolValues.MetIn (container : GoString) (v : Value) (bv : BoolValues) : Prop :=
  if container = HolderNameExtendRange then
    ∃ ids, parseIntegers v newRangeHolderOption.enableFloat2Int = .ok ids ∧ ∃ n ∈ ids, bv.Ranges n
  else ∃ tokens, tokenizeAssign v = .ok tokens ∧ bv.Shares tokens

/-- A container can read a query value. -/
def Value.ReadIn (container : GoString) (v : Value) : Prop :=
  if container = HolderNameExtendRange then ∃ ids, parseIntegers v newRangeHolderOption.enableFloat2Int = .ok ids
  else ∃ tokens, tokenizeAssign v = .ok tokens

def Conjunction.HeldBy (containers : BEField → GoString) (q : Assignments) (conj : Conjunction) : Prop :=
  conj.Holds fun f bv => ∃ v, q.lookup f = some v ∧ bv.MetIn (containers f) v

omit [FloatOps] in
theorem succ_le_iff {x n : Int64} (small : x ≠ Int64.maxValue) : x + 1 ≤ n ↔ x < n := by
  rw [Int64.le_iff_toInt_le, Int64.lt_iff_toInt_lt, toInt_succ (lt_maxValue small)]
  omega

omit [FloatOps] in
/-- The ends of an interval after `NewRange` has made it nonempty. -/
theorem newRange_iff {l r n : Int64} {le : l ≤ r} (ordered : (newRange l r le).left < (newRange l r le).right) :
    ((newRange l r le).left ≤ n ∧ n < (newRange l r le).right) ↔ l ≤ n ∧ (n < r ∨ n = r ∧ r = l) := by
  have right : (newRange l r le).right = bumpEqual l r := rfl
  rw [right] at ordered ⊢
  have left : (newRange l r le).left = l := rfl
  rw [left] at ordered ⊢
  unfold bumpEqual at ordered ⊢
  split
  · rename_i same
    subst same
    rw [if_pos rfl] at ordered
    have top : l ≠ Int64.maxValue := by
      rintro rfl
      exact absurd ordered (by decide)
    rw [← not_le, succ_le_iff top, not_lt]
    constructor
    · intro ⟨ge, le⟩
      exact ⟨ge, Or.inr ⟨le_antisymm le ge, rfl⟩⟩
    · intro ⟨ge, here⟩
      exact ⟨ge, here.elim le_of_lt fun same => le_of_eq same.1⟩
  · rename_i ne
    constructor
    · intro ⟨ge, lt⟩
      exact ⟨ge, Or.inl lt⟩
    · intro ⟨ge, here⟩
      exact ⟨ge, here.resolve_right fun same => ne same.2.symm⟩

theorem parseRange_ranges {bv : BoolValues} {rg : Range} (bounded : bv.Bounded)
    (parsed : parseRange bv.operator bv.value newRangeHolderOption.enableFloat2Int = .ok rg)
    (ordered : rg.left < rg.right) (n : Int64) : (rg.left ≤ n ∧ n < rg.right) ↔ bv.Ranges n := by
  unfold BoolValues.Ranges
  cases op : bv.operator with
  | eq =>
    rw [op] at parsed
    cases parsed
  | other k =>
    rw [op] at parsed
    cases parsed
  | gt =>
    rw [op] at parsed
    obtain ⟨x, number, done⟩ := bind_eq_ok.mp parsed
    obtain rfl := Except.ok.inj done
    have number := wrapErr_eq_ok.mp number
    have small := (bounded x number).1 op
    rw [newRange_iff ordered, number]
    simp only [succ_le_iff small, Except.ok.injEq, exists_eq_left']
    refine and_congr_right fun above => or_iff_left ?_
    -- the interval would be the largest word alone, which `NewRange` cannot make
    intro alone
    have same := alone.2
    have ordered : x + 1 < bumpEqual (x + 1) Int64.maxValue := ordered
    rw [← same] at ordered
    exact absurd ordered (by decide)
  | lt =>
    rw [op] at parsed
    obtain ⟨x, number, done⟩ := bind_eq_ok.mp parsed
    obtain rfl := Except.ok.inj done
    have number := wrapErr_eq_ok.mp number
    have large := (bounded x number).2 op
    rw [newRange_iff ordered, number]
    simp only [Except.ok.injEq, exists_eq_left', Int64.minValue_le, true_and]
    exact or_iff_left fun same => large same.2
  | between =>
    rw [op] at parsed
    obtain ⟨⟨l, r⟩, bounds, rest⟩ := bind_eq_ok.mp parsed
    dsimp only at rest
    split at rest
    · cases rest
    · obtain rfl := Except.ok.inj rest
      rw [newRange_iff ordered, bounds]
      constructor
      · intro inside
        exact ⟨l, r, rfl, inside⟩
      · intro ranges
        obtain ⟨l', r', same, inside⟩ := ranges
        obtain ⟨rfl, rfl⟩ := Prod.mk.inj (Except.ok.inj same)
        exact inside

theorem prepareExpr_metIn {container : GoString} {f : BEField} {bv : BoolValues} {data : IndexingData}
    (named : container ∈ Postings.servedNames) (bounded : container = HolderNameExtendRange → bv.Bounded)
    (run : prepareExpr container f bv = .ok data) (v : Value) : data.Matches v ↔ bv.MetIn container v := by
  simp only [Postings.servedNames, List.mem_cons, List.not_mem_nil, or_false] at named
  rcases named with rfl | rfl
  · rw [(prepareExpr_default run).2, BoolValues.MetIn, if_neg (by decide)]
    simp only [IndexingData.Matches, BoolValues.Shares, and_comm]
  · obtain ⟨_, made, rfl⟩ := map_eq_ok.mp run
    obtain ⟨data, built, done⟩ := bind_eq_ok.mp made
    obtain rfl := Except.ok.inj done
    have covers : ∀ n, data.Covers Int64.minValue Int64.maxValue n ↔ bv.Ranges n := by
      intro n
      by_cases isEq : bv.operator = .eq
      · rw [BoolValues.Ranges, isEq]
        unfold RangeHolder.buildFieldIndexingData at built
        rw [isEq] at built
        obtain ⟨ids, parsed, done⟩ := bind_eq_ok.mp built
        obtain rfl := Except.ok.inj done
        have parsed : parseIntegers bv.value newRangeHolderOption.enableFloat2Int = .ok ids := wrapErr_eq_ok.mp parsed
        simp [RangeTxData.Covers, parsed]
      · obtain ⟨rg, parsed, ordered⟩ := RangeHolder.build_ordered isEq built
        have decided := RangeHolder.build_decided isEq parsed built
        rw [decided.covers ordered ⟨Int64.minValue_le _, Int64.le_maxValue _⟩,
          parseRange_ranges (bounded rfl) parsed ordered]
    rw [BoolValues.MetIn, if_pos rfl]
    simp only [IndexingData.Matches, covers]

end Expressions

/-! ### What the accepted documents were prepared to -/

section Filed

variable [FloatOps] {C C' : BEField → GoString} {B : BadConjBehavior} {docID : DocID}

/-- Expressions are prepared alike if the fields up to the first that fails have the same containers. -/
theorem prepareTxs_visited {k : Nat} {conjID : ConjID} {exprs : List (BEField × BoolValues)}
    (agree : ∀ f, Mark.holder k f ∈ upTo (exprs.flatMap (exprSteps C k)) → C f = C' f) :
    exprs.mapM (prepareTx C conjID) = exprs.mapM (prepareTx C' conjID) := by
  induction exprs with
  | nil => rfl
  | cons expr exprs ih =>
    rw [List.flatMap_cons] at agree
    have first : Mark.holder k expr.1 ∈ upTo (exprSteps C k expr) := by simp [exprSteps_upTo]
    rw [List.mapM_cons, List.mapM_cons]
    by_cases succeed : Succeed (exprSteps C k expr)
    · rw [upTo_append succeed] at agree
      rw [prepareTx_congr (agree expr.1 (List.mem_append_left _ first)),
        ih fun f mem => agree f (List.mem_append_right _ mem)]
    · rw [upTo_append_failed succeed] at agree
      rw [← prepareTx_congr (agree expr.1 first)]
      -- the first expression fails, so the others are not looked at
      cases made : prepareTx C conjID expr with
      | error fault => rfl
      | ok tx => exact absurd (exprSteps_succeed.mpr ⟨_, (prepareTx_ok made).1⟩) succeed

theorem prepareConjTx_visited {conj : Conjunction × Nat}
    (agree : ∀ f, Mark.holder conj.1.calcConjSize f ∈ visited C conj.1 → C f = C' f) :
    prepareConjTx C B docID conj = prepareConjTx C' B docID conj := by
  have same : ∀ conjID, prepareTxs C conjID conj.1 = prepareTxs C' conjID conj.1 := by
    intro conjID
    refine prepareTxs_visited (k := conj.1.calcConjSize) fun f mem => agree f ?_
    rw [visited, conjPlan, upTo]
    exact List.mem_append_right _ mem
  unfold prepareConjTx
  simp only [same]

namespace IndexerBuilder

variable {b b' : IndexerBuilder} {docs : List Document} {all : List ConjTx}

/-- What a conjunction is prepared to is settled by the fields that are known. -/
def Fixes (b : IndexerBuilder) (B : BadConjBehavior) (docID : DocID) (conj : Conjunction × Nat) (r : Option ConjTx) :
    Prop :=
  ∀ C, (∀ f desc, b.fieldsData.find f = some desc → C f = desc.container) → prepareConjTx C B docID conj = .ok r

theorem Fixes.later {conj : Conjunction × Nat} {r : Option ConjTx} (fixes : b.Fixes B docID conj r)
    (later : Later b b') : b'.Fixes B docID conj r :=
  fun C agree => fixes C fun f desc known => agree f desc (later.fields f desc known)

theorem Fixes.containers {conj : Conjunction × Nat} {r : Option ConjTx} (fixes : b.Fixes B docID conj r) :
    prepareConjTx b.containers B docID conj = .ok r := by
  refine fixes b.containers fun f desc known => ?_
  unfold IndexerBuilder.containers
  rw [known]

/-- The posting lists hold `all`, which is what the documents were prepared to. -/
structure Filed (B : BadConjBehavior) (b : IndexerBuilder) (docs : List Document) (all : List ConjTx) : Prop where
  holds : b.store.Holds all
  whole : ∀ doc ∈ docs, ∀ conj ∈ doc.cons.zipIdx, ∃ r, b.Fixes B doc.id conj r ∧ ∀ c ∈ r, c ∈ all
  only : ∀ c ∈ all, ∃ doc ∈ docs, ∃ conj ∈ doc.cons.zipIdx, b.Fixes B doc.id conj (some c)

theorem Filed.later (filed : Filed B b docs all) (later : Later b b') (holds : b'.store.Holds all) :
    Filed B b' docs all where
  holds := holds
  whole doc mem conj hconj := by
    obtain ⟨r, fixes, kept⟩ := filed.whole doc mem conj hconj
    exact ⟨r, fixes.later later, kept⟩
  only c mem := by
    obtain ⟨doc, hdoc, conj, hconj, fixes⟩ := filed.only c mem
    exact ⟨doc, hdoc, conj, hconj, fixes.later later⟩

variable [Codec] {loops : MapLoops}

theorem addOne_fixes (shows : ShowsUncached C B b b.store) (plain : ∀ f, C f ≠ HolderNameOptimizedRange)
    {doc : Document}
    (shows' : Shows C B b' b'.store) (run : addOne loops b doc = .ok (b', .ok ())) {conj : Conjunction × Nat}
    (mem : conj ∈ doc.cons.zipIdx) {r : Option ConjTx} (prepared : prepareConjTx C B doc.id conj = .ok r) :
    b'.Fixes B doc.id conj r := by
  have miss : b.cachedEntry doc = none := by rw [cachedEntry, shows.2]
  obtain ⟨_, marks, status⟩ := addOne_marked shows.1 miss plain run
  have succeed := status.mp ⟨_, rfl⟩
  intro C' agree
  rw [← prepared]
  refine (prepareConjTx_visited fun f visits => ?_).symm
  have made : Mark.holder conj.1.calcConjSize f ∈ upTo (docSteps C B doc) := by
    have listed : conj.1 ∈ doc.cons := List.fst_mem_of_mem_zipIdx mem
    unfold docSteps at succeed ⊢
    obtain ⟨⟨ws, first⟩, each⟩ := List.forall_mem_cons.mp succeed
    rw [first, upTo, List.mem_append, mem_upTo_flatMap (succeed_flatMap.mp each)]
    refine Or.inr ⟨conj.1, listed, ?_⟩
    unfold conjSteps
    split
    · simpa [upTo] using visits
    · exact visits
  have marked : b'.Marked (.holder conj.1.calcConjSize f) :=
    (marks _).mpr (Or.inr ⟨_, made, rfl, Or.inr (Or.inl rfl)⟩)
  obtain ⟨desc, known, _⟩ := marked
  rw [agree f desc known, shows'.container known]

theorem Filed.addOne (filed : Filed B b docs all) (shows : ShowsUncached C B b b.store)
    (plain : ∀ f, C f ≠ HolderNameOptimizedRange) {doc : Document} {r : Except GoError Unit}
    (run : addOne loops b doc = .ok (b', r)) :
    ShowsUncached C B b' b'.store ∧ b'.store.compact = b.store.compact ∧
      ((∃ err, r = .error err ∧ Filed B b' docs all) ∨ ∃ more, r = .ok () ∧
        Filed B b' (docs ++ [doc]) (all ++ more)) := by
  have follows := addOne_follows shows plain loops doc
  rw [run] at follows
  obtain ⟨later, _⟩ := follows.ok_left
  obtain ⟨s', shows', added⟩ := follows.returns_left
  obtain rfl := shows'.1.store
  refine ⟨shows', ?_⟩
  rcases addOne_cases added with ⟨err, failed, same⟩ | ⟨found, prepared, done, commits⟩
  · exact ⟨by rw [same], Or.inl ⟨err, failed, filed.later later (same ▸ filed.holds)⟩⟩
  · obtain ⟨holds, compact⟩ := Store.commitConjs_holds filed.holds commits
    refine ⟨compact, Or.inr ⟨found.reduceOption, done, holds, ?_, ?_⟩⟩
    · intro doc' mem conj hconj
      rcases List.mem_append.mp mem with old | new
      · obtain ⟨r, fixes, kept⟩ := filed.whole doc' old conj hconj
        exact ⟨r, fixes.later later, fun c hc => List.mem_append_left _ (kept c hc)⟩
      · obtain rfl := List.mem_singleton.mp new
        obtain ⟨r', mem, made⟩ := mapM_mem prepared hconj
        subst done
        refine ⟨r', addOne_fixes shows plain shows'.1 run hconj made, ?_⟩
        rintro c rfl
        exact List.mem_append_right _ (List.reduceOption_mem_iff.mpr mem)
    · intro c hc
      rcases List.mem_append.mp hc with old | new
      · obtain ⟨doc', mem, conj, hconj, fixes⟩ := filed.only c old
        exact ⟨doc', List.mem_append_left _ mem, conj, hconj, fixes.later later⟩
      · obtain ⟨conj, hconj, made⟩ := mem_mapM prepared (List.reduceOption_mem_iff.mp new)
        subst done
        exact ⟨doc, List.mem_append_right _ List.mem_cons_self, conj, hconj,
          addOne_fixes shows plain shows'.1 run hconj made⟩

theorem Filed.addDocs {more : List Document} (filed : Filed B b docs all) (shows : ShowsUncached C B b b.store)
    (plain : ∀ f, C f ≠ HolderNameOptimizedRange) {done : List Unit}
    (run : mapCalls (IndexerBuilder.addOne loops) b more = .ok (b', .ok done)) :
    ShowsUncached C B b' b'.store ∧ b'.store.compact = b.store.compact ∧ ∃ all', Filed B b' (docs ++ more) all' := by
  induction more generalizing b docs all done with
  | nil =>
    obtain ⟨rfl, _⟩ := Prod.mk.inj (Except.ok.inj run)
    exact ⟨shows, rfl, all, by simpa using filed⟩
  | cons doc more ih =>
    obtain ⟨b₁, _, _, first, later, _⟩ := mapCalls_cons_ok.mp run
    obtain ⟨shows₁, compact, ⟨_, failed, _⟩ | ⟨new, _, filed₁⟩⟩ := filed.addOne shows plain first
    · cases failed
    · obtain ⟨shows', compact', all', filed'⟩ := ih filed₁ shows₁ later
      exact ⟨shows', compact'.trans compact, all', by simpa using filed'⟩

omit [FloatOps] [Codec] in
theorem configField_later {field : BEField} {container : GoString}
    (run : b.configField loops field container = .ok b') :
    Later b b' := by
  obtain ⟨fresh, hash, rfl⟩ := configField_cases run
  refine ⟨fun f desc known => ?_, fun k has => has, fun none => ?_⟩
  · rw [FieldTable.find_add, if_neg, known]
    rintro rfl
    rw [fresh] at known
    cases known
  · simp [none]

omit [Codec] in
theorem Filed.configField (filed : Filed B b docs all) (shows : ShowsUncached C B b b.store) {field : BEField}
    {container : GoString} (named : container.isEmpty = true ∨ container ∈ Postings.servedNames)
    (run : b.configField loops field container = .ok b') :
    ShowsUncached (Function.update C field (if container.isEmpty then HolderNameDefault else container)) B b' b'.store ∧
      b'.store.compact = b.store.compact ∧ Filed B b' docs all := by
  obtain ⟨unused, shows'⟩ := configField_shows shows.1 run
  have later := configField_later run
  have same := shows'.store
  obtain ⟨keeps, uncompiled⟩ := Store.holds_iff.mp filed.holds
  obtain ⟨keeps', grows⟩ := keeps.configure unused (chosen_served named)
  rw [← same] at keeps' grows shows'
  exact ⟨⟨shows', later.uncached shows.2⟩, grows.compact,
    filed.later later (Store.holds_iff.mpr ⟨keeps', grows.uncompiled uncompiled⟩)⟩

omit [Codec] in
theorem Filed.loaded (filed : Filed B b docs all) : b.store.Loaded b.containers B docs all where
  holds := filed.holds
  whole doc mem conj hconj := by
    obtain ⟨r, fixes, kept⟩ := filed.whole doc mem conj hconj
    exact ⟨r, fixes.containers, kept⟩
  only c mem := by
    obtain ⟨doc, hdoc, conj, hconj, fixes⟩ := filed.only c mem
    exact ⟨doc, hdoc, conj, hconj, fixes.containers⟩

end IndexerBuilder

end Filed

/-! ### Retrieval -/

section Documents

variable [FloatOps] {C : BEField → GoString} {B : BadConjBehavior} {docs : List Document} {all : List ConjTx}

def Conjunction.Prepares (C : BEField → GoString) (conj : Conjunction) : Prop :=
  ∀ expr ∈ exprList conj, ∃ data, prepareExpr (C expr.1) expr.1 expr.2 = .ok data

theorem prepareConjTx_isSome {docID : DocID} {conj : Conjunction × Nat} {r : Option ConjTx}
    (run : prepareConjTx C B docID conj = .ok r) : r.isSome = true ↔ conj.1.Prepares C := by
  obtain ⟨conjID, packed, rest⟩ := bind_eq_ok.mp run
  cases prepared : prepareTxs C conjID conj.1 with
  | ok txs =>
    rw [prepared] at rest
    obtain rfl := Except.ok.inj rest
    refine ⟨fun _ expr mem => ?_, fun _ => rfl⟩
    obtain ⟨tx, _, made⟩ := mapM_mem prepared mem
    exact ⟨_, (prepareTx_ok made).1⟩
  | error fault =>
    rw [prepared] at rest
    cases fault with
    | panic e => cases rest
    | hang => cases rest
    | err err =>
      cases B with
      | error => cases rest
      | panic => cases rest
      | skip =>
        obtain rfl := Except.ok.inj rest
        refine ⟨fun some => (by cases some), fun prepares => ?_⟩
        obtain ⟨expr, mem, failed⟩ := mapM_error prepared
        obtain ⟨data, made⟩ := prepares expr mem
        rw [prepareTx, made] at failed
        cases failed

/-- The expressions of a document in the range container have no bound at the end of the words. -/
def Document.Bounded (C : BEField → GoString) (doc : Document) : Prop :=
  ∀ conj ∈ doc.cons, ∀ expr ∈ exprList conj, C expr.1 = HolderNameExtendRange → expr.2.Bounded

theorem prepareConjTx_heldBy {doc : Document} {conj : Conjunction × Nat} {c : ConjTx} {q : Assignments}
    (named : ∀ f, C f ∈ Postings.servedNames) (bounded : doc.Bounded C) (mem : conj ∈ doc.cons.zipIdx)
    (run : prepareConjTx C B doc.id conj = .ok (some c)) : c.SatisfiedBy q ↔ conj.1.HeldBy C q := by
  refine prepareConjTx_holds run fun expr listed tx made => ?_
  obtain ⟨prepared, _, field⟩ := prepareTx_ok made
  have means := prepareExpr_metIn (named expr.1) (bounded conj.1 (List.fst_mem_of_mem_zipIdx mem) expr listed) prepared
  unfold Tx.MatchedBy
  rw [field]
  simp only [means]

theorem Store.Loaded.satisfied_iff {s : Store} {q : Assignments} (loaded : s.Loaded C B docs all)
    (named : ∀ f, C f ∈ Postings.servedNames) (bounded : ∀ doc ∈ docs, doc.Bounded C) (id : ConjID) :
    (∃ c ∈ all, c.conjID = id ∧ c.SatisfiedBy q) ↔ ∃ doc ∈ docs, ∃ conj ∈ doc.cons.zipIdx,
      newConjID doc.id conj.2 conj.1.calcConjSize = .ok id ∧ conj.1.Prepares C ∧ conj.1.HeldBy C q := by
  constructor
  · intro ⟨c, mem, same, satisfied⟩
    obtain ⟨doc, hdoc, conj, hconj, run⟩ := loaded.only c mem
    refine ⟨doc, hdoc, conj, hconj, same ▸ (prepareConjTx_some run).1, ?_, ?_⟩
    · exact (prepareConjTx_isSome run).mp rfl
    · exact (prepareConjTx_heldBy named (bounded doc hdoc) hconj run).mp satisfied
  · intro ⟨doc, hdoc, conj, hconj, packed, prepares, held⟩
    obtain ⟨r, run, kept⟩ := loaded.whole doc hdoc conj hconj
    obtain ⟨c, rfl⟩ := Option.isSome_iff_exists.mp ((prepareConjTx_isSome run).mpr prepares)
    refine ⟨c, kept c rfl, ?_, (prepareConjTx_heldBy named (bounded doc hdoc) hconj run).mpr held⟩
    exact Except.ok.inj ((prepareConjTx_some run).1.symm.trans packed)

theorem Store.Loaded.heldBy_iff {s : Store} {q : Assignments} (loaded : s.Loaded C B docs all)
    (named : ∀ f, C f ∈ Postings.servedNames) (bounded : ∀ doc ∈ docs, doc.Bounded C) (id : DocID) :
    (∃ c ∈ all, c.SatisfiedBy q ∧ c.conjID.docID = id) ↔
      ∃ doc ∈ docs, doc.id = id ∧ ∃ conj ∈ doc.cons, conj.Prepares C ∧ conj.HeldBy C q := by
  constructor
  · intro ⟨c, mem, satisfied, same⟩
    obtain ⟨doc, hdoc, conj, hconj, packed, holds⟩ :=
      (loaded.satisfied_iff named bounded c.conjID).mp ⟨c, mem, rfl, satisfied⟩
    exact ⟨doc, hdoc, (newConjID_fields packed).2.2.2.symm.trans same, conj.1, List.fst_mem_of_mem_zipIdx hconj, holds⟩
  · intro ⟨doc, hdoc, same, conj, hconj, holds⟩
    obtain ⟨i, inside, rfl⟩ := List.mem_iff_getElem.mp hconj
    have listed : (doc.cons[i], i) ∈ doc.cons.zipIdx := List.mk_mem_zipIdx_iff_getElem?.mpr (by simp [inside])
    obtain ⟨r, run, _⟩ := loaded.whole doc hdoc _ listed
    obtain ⟨conjID, packed, _⟩ := bind_eq_ok.mp run
    obtain ⟨c, mem, rfl, satisfied⟩ :=
      (loaded.satisfied_iff named bounded conjID).mpr ⟨doc, hdoc, _, listed, packed, holds⟩
    exact ⟨c, mem, satisfied, (newConjID_fields packed).2.2.2.trans same⟩

theorem parsed_plain {v : Value} {f2i : Bool} {ids : List Int64} (parsed : parseIntegers v f2i = .ok ids) :
    v.isArray = false := by
  rw [parseIntegers, nilInterface_eq] at parsed
  split at parsed
  · cases parsed
  · rename_i plain
    simpa using plain

theorem Value.ReadIn.plain {container : GoString} {v : Value} (reads : v.ReadIn container) : v.isArray = false := by
  unfold Value.ReadIn at reads
  split at reads
  · obtain ⟨ids, parsed⟩ := reads
    exact parsed_plain parsed
  · obtain ⟨tokens, tokenized⟩ := reads
    exact Accepted.tokenized_plain tokenized

theorem EntriesHolder.Of.reads {h : EntriesHolder} {container : GoString} {v : Value} (of : h.Of container)
    (reads : v.ReadIn container) : h.Reads v := by
  cases h with
  | default d =>
    rw [of.default_iff.mp rfl, Value.ReadIn, if_neg (by decide)] at reads
    exact reads
  | range h =>
    obtain ⟨named, option, _⟩ := of.range_eq
    rw [named, Value.ReadIn, if_pos rfl] at reads
    rw [EntriesHolder.Reads, option]
    exact reads
  | optimizedRange h => trivial
  | acMatcher h => trivial

theorem IndexerBuilder.Shows.reads {b : IndexerBuilder} {s : Store} {a : Sigma fun _ : BEField => Value}
    (shows : Shows C B b s) (reads : a.2.ReadIn (C a.1)) (k : Nat) : (b.indexer.container k).Reads b.fieldsData a := by
  intro desc h known held
  rw [← shows.container known] at reads
  exact (EntriesContainer.heldBy_of (shows.wf.fits k) known (by rw [EntriesContainer.heldBy, held]; rfl)).reads reads

end Documents

namespace Accepted

variable [FloatOps] [Codec] {option : BuilderOption} {docs : List Document} {b b' : IndexerBuilder}

def chosenNames : List GoString := [] :: Postings.servedNames

omit [FloatOps] [Codec] in
theorem chosenNames_iff {container : GoString} (named : container ∈ chosenNames) :
    container.isEmpty = true ∨ container ∈ Postings.servedNames := by
  rcases List.mem_cons.mp named with rfl | served
  · exact Or.inl rfl
  · exact Or.inr served

theorem filed (uncached : option.docLevelCache = none) (accepted : Accepted option chosenNames docs b) :
    ShowsUncached b.containers option.badConjBehavior b b.store ∧ (∀ f, b.containers f ∈ Postings.servedNames) ∧
      b.indexer.isCompact = (option.indexerType == .compact) ∧ ∃ all, Filed option.badConjBehavior b docs all := by
  obtain ⟨tried, handed⟩ := accepted
  induction handed with
  | @new b made =>
    obtain ⟨shows, kind⟩ := new_shows made
    have loaded := new_loaded (B := option.badConjBehavior) made
    have none : b.docLevelCache = none := by
      obtain ⟨idx, _, done⟩ := bind_eq_ok.mp made
      rw [← Except.ok.inj done]
      exact uncached
    rw [shows.containers]
    exact ⟨⟨shows, none⟩, fun _ => List.mem_cons_self, kind, [], loaded.holds, by simp, by simp⟩
  | configured before named run ih =>
    obtain ⟨shows, served, kind, all, filed⟩ := ih
    have named := chosenNames_iff named
    obtain ⟨shows', compact, filed'⟩ := filed.configField shows named run
    have containers := shows'.1.containers
    rw [containers]
    refine ⟨shows', fun f => ?_, compact.trans kind, all, filed'⟩
    rw [Function.update_apply]
    split
    · exact chosen_served named
    · exact served f
  | added before run ih =>
    obtain ⟨shows, served, kind, all, filed⟩ := ih
    obtain ⟨b₁, done, loop, last⟩ := andThen_eq_ok.mp run
    obtain ⟨rfl, _⟩ := Prod.mk.inj (Except.ok.inj last)
    obtain ⟨shows', compact, all', filed'⟩ := filed.addDocs shows (fun f => servedNames_plain (served f)) loop
    rw [shows'.1.containers]
    exact ⟨shows', served, compact.trans kind, all', filed'⟩
  | rejected before run ih =>
    obtain ⟨shows, served, kind, all, filed⟩ := ih
    obtain ⟨pre, doc', post, b₁, as, split, first, refused⟩ := mapCalls_error (andThen_error run)
    cases pre with
    | cons => simp at split
    | nil =>
      obtain ⟨rfl, rfl⟩ := List.cons.inj split
      obtain ⟨rfl, _⟩ := Prod.mk.inj (Except.ok.inj first)
      obtain ⟨shows', compact, ends⟩ := filed.addOne shows (fun f => servedNames_plain (served f)) refused
      rw [shows'.1.containers]
      rcases ends with ⟨_, _, filed'⟩ | ⟨_, absurd, _⟩
      · exact ⟨shows', served, compact.trans kind, all, filed'⟩
      · cases absurd

variable [AhoMachine]

/-- Either index returns the ids of exactly the accepted documents that have a conjunction which holds
for the query, each once and in ascending order. -/
theorem retrieve_heldBy {q : Assignments} (uncached : option.docLevelCache = none)
    (accepted : Accepted option chosenNames docs b) (distinct : (docs.map Document.id).Nodup)
    (bounded : ∀ doc ∈ docs, doc.Bounded b.containers) (built : b.buildIndex = .ok b')
    (reads : ∀ a ∈ q.entries, a.2.ReadIn (b.containers a.1)) (visits : Nat → GoMap.Visit q) :
    ∃ ids, b'.indexer.retrieve q visits = .ok ids ∧ (ids.map Int64.toUInt64).Pairwise (· < ·) ∧
      ∀ id, id ∈ ids ↔ ∃ doc ∈ docs, doc.id = id ∧ ∃ conj ∈ doc.cons,
        conj.Prepares b.containers ∧ conj.HeldBy b.containers q := by
  obtain ⟨shows, served, _, all, filed⟩ := filed uncached accepted
  have loaded := filed.loaded
  have canRead : b.CanRead q :=
    ⟨fun _ a mem => (reads a mem).plain, fun k _ a mem => shows.1.reads (reads a mem) k⟩
  obtain ⟨docBits, run, members⟩ :=
    retrieve_satisfied shows.1.wf loaded.holds.keeps loaded.formed (loaded.single distinct)
    built visits canRead
  refine ⟨docBits.getDocIDs, run, docBits.getDocIDs_ascending, fun id => ?_⟩
  rw [DocIDCollector.mem_getDocIDs, members, ← loaded.heldBy_iff served bounded id]
  simp only [toUInt64_inj]

end Accepted

/-! ### Documents written by calls -/

section Written

variable [FloatOps]

/-- The integers that a call asks for on a field in the range container. -/
def Clause.Selects (n : Int64) : Clause → Prop
  | .inValues _ values | .notIn _ values | .includeValues _ values | .excludeValues _ values
  | .addExpression3 _ _ values => ∃ ns, parseIntegers values true = .ok ns ∧ n ∈ ns
  | .greaterThan _ x => x < n ∧ n < Int64.maxValue
  | .lessThan _ x => n < x
  | .between _ l h => l ≤ n ∧ (n < h ∨ n = h ∧ h = l)
  | .addBoolExprs expr => expr.toBoolValues.Ranges n

def Clause.Met (containers : BEField → GoString) (q : Assignments) (call : Clause) : Prop :=
  ∃ v, q.lookup call.field = some v ∧
    if containers call.field = HolderNameExtendRange then
      ∃ ids, parseIntegers v true = .ok ids ∧ ∃ n ∈ ids, call.Selects n
    else ∃ tokens, tokenizeAssign v = .ok tokens ∧ call.expr.Shares tokens

/-- Every include call or another one on its field is met, and no exclude call is. -/
def Clause.AllHeld (containers : BEField → GoString) (q : Assignments) (calls : List Clause) : Prop :=
  ∀ call ∈ calls,
    if call.expr.incl then ∃ other ∈ calls, other.field = call.field ∧ other.expr.incl = true ∧ other.Met containers q
    else ¬ call.Met containers q

/-- No bound at an end of the words. -/
def Clause.Bounded : Clause → Prop
  | .greaterThan _ x => x ≠ Int64.maxValue
  | .lessThan _ x => x ≠ Int64.minValue
  | .addBoolExprs expr => expr.toBoolValues.Bounded
  | _ => True

theorem parseIntegerValue_int64 (x : Int64) (f2i : Bool) : parseIntegerValue (int64Value x) f2i = .ok x := by
  show (.ok (Int64.ofInt x.toInt) : Go Int64) = .ok x
  rw [Int64.ofInt_toInt]

theorem Clause.Bounded.expr {call : Clause} (bounded : call.Bounded) : call.expr.Bounded := by
  unfold BoolValues.Bounded
  cases call with
  | greaterThan field value =>
    intro x parsed
    obtain rfl := Except.ok.inj ((parseIntegerValue_int64 value _).symm.trans parsed)
    exact ⟨fun _ => bounded, nofun⟩
  | lessThan field value =>
    intro x parsed
    obtain rfl := Except.ok.inj ((parseIntegerValue_int64 value _).symm.trans parsed)
    exact ⟨nofun, fun _ => bounded⟩
  | addBoolExprs expr => exact bounded
  | _ => exact fun _ _ => ⟨nofun, nofun⟩

theorem Clause.ranges_iff (call : Clause) (n : Int64) : call.expr.Ranges n ↔ call.Selects n := by
  unfold BoolValues.Ranges
  cases call with
  | inValues field values | notIn field values | includeValues field values | excludeValues field values
  | addExpression3 field incl values | addBoolExprs expr => exact Iff.rfl
  | greaterThan field x =>
    show (∃ y, parseIntegerValue (int64Value x) _ = .ok y ∧ y < n ∧ n < Int64.maxValue) ↔ x < n ∧ n < Int64.maxValue
    rw [parseIntegerValue_int64]
    simp
  | lessThan field x =>
    show (∃ y, parseIntegerValue (int64Value x) _ = .ok y ∧ n < y) ↔ n < x
    rw [parseIntegerValue_int64]
    simp
  | between field l h =>
    show (∃ l' h', .ok (Int64.ofInt l.toInt, Int64.ofInt h.toInt) = (.ok (l', h') : Go _) ∧ l' ≤ n ∧
      (n < h' ∨ n = h' ∧ h' = l')) ↔ _
    rw [Int64.ofInt_toInt, Int64.ofInt_toInt]
    constructor
    · intro ⟨l', h', same, inside⟩
      obtain ⟨rfl, rfl⟩ := Prod.mk.inj (Except.ok.inj same)
      exact inside
    · intro inside
      exact ⟨l, h, rfl, inside⟩

theorem Clause.met_iff {containers : BEField → GoString} {q : Assignments} (call : Clause) :
    call.Met containers q ↔ ∃ v, q.lookup call.field = some v ∧ call.expr.MetIn (containers call.field) v := by
  unfold Clause.Met BoolValues.MetIn
  simp only [Clause.ranges_iff]
  rfl

omit [FloatOps] in
theorem Conjunction.holds_iff {Met : BEField → BoolValues → Prop} {conj : Conjunction} :
    conj.Holds Met ↔ ∀ f, ((∃ bv ∈ conj.exprs f, bv.incl = true) → ∃ bv ∈ conj.exprs f, bv.incl = true ∧ Met f bv) ∧
      ∀ bv ∈ conj.exprs f, bv.incl = false → ¬ Met f bv := by
  constructor
  · intro holds f
    cases found : conj.expressions.lookup f with
    | none => simp [Conjunction.exprs, found]
    | some exprs =>
      have same : conj.exprs f = exprs := by rw [Conjunction.exprs, found]; rfl
      rw [same]
      exact holds ⟨f, exprs⟩ (AList.mem_lookup_iff.mp found)
  · intro each e mem
    have same : conj.exprs e.1 = e.2 := by rw [Conjunction.exprs, AList.mem_lookup_iff.mpr mem]; rfl
    have holds := each e.1
    rw [same] at holds
    exact holds

theorem Conjunction.Same.heldBy {containers : BEField → GoString} {q : Assignments} {conj : Conjunction}
    {calls : List Clause}
    (same : conj.Same (Conjunction.write calls)) : conj.HeldBy containers q ↔ Clause.AllHeld containers q calls := by
  unfold Conjunction.HeldBy Clause.AllHeld
  rw [Conjunction.holds_iff]
  simp only [same.exprs, Conjunction.mem_write]
  constructor
  · intro each call mem
    split
    · rename_i incl
      obtain ⟨_, ⟨other, listed, field, rfl⟩, incl', met⟩ :=
        (each call.field).1 ⟨call.expr, ⟨call, mem, rfl, rfl⟩, incl⟩
      exact ⟨other, listed, field, incl', other.met_iff.mpr (field ▸ met)⟩
    · rename_i excl
      intro met
      exact (each call.field).2 call.expr ⟨call, mem, rfl, rfl⟩ (by simpa using excl) (call.met_iff.mp met)
  · intro each f
    constructor
    · intro ⟨_, ⟨call, mem, field, rfl⟩, incl⟩
      have held := each call mem
      rw [if_pos incl] at held
      obtain ⟨other, listed, field', incl', met⟩ := held
      have field' := field'.trans field
      exact ⟨other.expr, ⟨other, listed, field', rfl⟩, incl', field' ▸ other.met_iff.mp met⟩
    · intro _ ⟨call, mem, field, same⟩ excl met
      subst same field
      have held := each call mem
      rw [if_neg (by simp [excl])] at held
      exact held (call.met_iff.mpr met)

theorem Conjunction.Same.prepares {containers : BEField → GoString} {c d : Conjunction} (same : c.Same d) :
    c.Prepares containers ↔ d.Prepares containers := by
  unfold Conjunction.Prepares
  simp only [Prod.forall, mem_exprList, same.exprs]

theorem Document.WrittenBy.bounded {containers : BEField → GoString} {doc : Document} {text : List (List Clause)}
    (written : doc.WrittenBy text) (bounded : ∀ calls ∈ text, ∀ call ∈ calls, call.Bounded) :
    doc.Bounded containers := by
  intro conj mem ⟨f, bv⟩ listed _
  obtain ⟨calls, hcalls, same⟩ := forall₂_left written mem
  rw [mem_exprList, same.exprs, Conjunction.mem_write] at listed
  obtain ⟨call, hcall, _, rfl⟩ := listed
  exact (bounded calls hcalls call hcall).expr

theorem Document.WrittenBy.held_iff {containers : BEField → GoString} {q : Assignments} {doc : Document}
    {text : List (List Clause)} (written : doc.WrittenBy text) :
    (∃ conj ∈ doc.cons, conj.Prepares containers ∧ conj.HeldBy containers q) ↔
      ∃ calls ∈ text, (Conjunction.write calls).Prepares containers ∧ Clause.AllHeld containers q calls := by
  constructor
  · intro ⟨conj, mem, prepares, held⟩
    obtain ⟨calls, hcalls, same⟩ := forall₂_left written mem
    exact ⟨calls, hcalls, same.prepares.mp prepares, same.heldBy.mp held⟩
  · intro ⟨calls, mem, prepares, held⟩
    obtain ⟨conj, hconj, same⟩ := forall₂_right written mem
    exact ⟨conj, hconj, same.prepares.mpr prepares, same.heldBy.mpr held⟩

variable [Codec] [AhoMachine] {option : BuilderOption} {docs : List Document} {b b' : IndexerBuilder}

/-- Documents are written by calls on their conjunctions, indexed and retrieved. Either index returns the
ids of exactly those with calls that the query holds, each once and in ascending order. The order of the
documents, of their conjunctions and of the calls does not matter. -/
theorem Accepted.retrieve_written {q : Assignments} {texts : List (DocID × List (List Clause))}
    (uncached : option.docLevelCache = none) (accepted : Accepted option chosenNames docs b)
    (written : List.Forall₂ (fun doc text => doc.id = text.1 ∧ doc.WrittenBy text.2) docs texts)
    (distinct : (texts.map Prod.fst).Nodup) (bounded : ∀ text ∈ texts, ∀ calls ∈ text.2, ∀ call ∈ calls, call.Bounded)
    (built : b.buildIndex = .ok b') (reads : ∀ a ∈ q.entries, a.2.ReadIn (b.containers a.1))
    (visits : Nat → GoMap.Visit q) :
    ∃ ids, b'.indexer.retrieve q visits = .ok ids ∧ (ids.map Int64.toUInt64).Pairwise (· < ·) ∧
      ∀ id, id ∈ ids ↔ ∃ text ∈ texts, text.1 = id ∧ ∃ calls ∈ text.2,
        (Conjunction.write calls).Prepares b.containers ∧ Clause.AllHeld b.containers q calls := by
  have sameIDs : docs.map Document.id = texts.map Prod.fst := by
    rw [← List.forall₂_eq_eq_eq, List.forall₂_map_left_iff, List.forall₂_map_right_iff]
    exact written.imp fun doc text pair => pair.1
  have inBounds : ∀ doc ∈ docs, doc.Bounded b.containers := by
    intro doc mem
    obtain ⟨text, listed, _, byText⟩ := forall₂_left written mem
    exact byText.bounded (bounded text listed)
  obtain ⟨ids, run, ascending, means⟩ :=
    retrieve_heldBy uncached accepted (sameIDs ▸ distinct) inBounds built reads visits
  refine ⟨ids, run, ascending, fun id => (means id).trans ?_⟩
  constructor
  · intro ⟨doc, mem, same, held⟩
    obtain ⟨text, listed, id_eq, byText⟩ := forall₂_left written mem
    exact ⟨text, listed, id_eq.symm.trans same, byText.held_iff.mp held⟩
  · intro ⟨text, mem, same, held⟩
    obtain ⟨doc, listed, id_eq, byText⟩ := forall₂_right written mem
    exact ⟨doc, listed, id_eq.trans same, byText.held_iff.mpr held⟩

omit [FloatOps] [Codec] [AhoMachine] in
/-- A bound on a range field and an excluded token on a default field. -/
theorem Accepted.retrieve_written_adults :
    letI := FloatOps.noFloats
    letI := Codec.single [] [] ⟨.eq, false, []⟩ []
    letI := AhoMachine.naive
    let calls : List Clause := [.greaterThan (str "age") 18, .notIn (str "city") (.strings (some [str "sh"]))]
    let doc := (newDocument 7).addConjunction [Conjunction.write calls]
    let q : Assignments := AList.singleton (str "age") (.scalar (.int .int 20))
    ∃ b b', Accepted ⟨.compact, .error, none⟩ chosenNames [doc] b ∧ b.buildIndex = .ok b' ∧
      b'.indexer.retrieve q (fun _ => ⟨q.entries, .refl _⟩) = .ok [7] ∧ Clause.AllHeld b.containers q calls := by
  let _ := FloatOps.noFloats
  let _ := Codec.single [] [] ⟨.eq, false, []⟩ []
  let _ := AhoMachine.naive
  intro calls doc q
  obtain ⟨x, made, run⟩ := okAnd_iff.mp (show okAnd (fun b => okAnd (fun b => finished (fun b _ =>
      b.containers (str "age") == HolderNameExtendRange && okAnd (fun b' =>
        okAnd (fun found => found == [7]) (b'.indexer.retrieve q fun _ => ⟨q.entries, .refl _⟩)) b.buildIndex)
      (b.addDocument .id [doc])) (b.configField .id (str "age") HolderNameExtendRange))
    (newIndexerBuilder ⟨.compact, .error, none⟩) = true by decide +kernel)
  obtain ⟨y, configured, run⟩ := okAnd_iff.mp run
  obtain ⟨b, _, added, run⟩ := finished_iff.mp run
  obtain ⟨container, run⟩ := Bool.and_eq_true_iff.mp run
  obtain ⟨b', built, run⟩ := okAnd_iff.mp run
  obtain ⟨found, ran, isSeven⟩ := okAnd_iff.mp run
  obtain rfl := beq_iff_eq.mp isSeven
  have named : HolderNameExtendRange ∈ chosenNames := by decide
  have accepted : Accepted ⟨.compact, .error, none⟩ chosenNames [doc] b :=
    .added (.configured (.new made) named configured) added
  refine ⟨b, b', accepted, built, ran, ?_⟩
  have written : List.Forall₂ (fun doc text => doc.id = text.1 ∧ doc.WrittenBy text.2) [doc] [(7, [calls])] :=
    .cons ⟨rfl, Document.writtenBy_new 7 [calls]⟩ .nil
  obtain ⟨ids, same, _, means⟩ := retrieve_written rfl accepted written (by decide)
    (by simp [calls, Clause.Bounded]; decide) built
    (q := q) (by
      intro a mem
      obtain rfl := List.mem_singleton.mp mem
      rw [Value.ReadIn, beq_iff_eq.mp container, if_pos rfl]
      exact ⟨[20], rfl⟩) (fun _ => ⟨q.entries, .refl _⟩)
  obtain rfl := Except.ok.inj (ran.symm.trans same)
  obtain ⟨_, mem, _, _, hcalls, _, held⟩ := (means 7).mp List.mem_cons_self
  obtain rfl := List.mem_singleton.mp mem
  obtain rfl := List.mem_singleton.mp hcalls
  exact held

end Written

end BeIndexer
