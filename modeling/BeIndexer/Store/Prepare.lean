import BeIndexer.Store.Reorder

/-!
# Preparing documents

What the data of a conjunction is made of, and that a document whose maps are visited in another order
is prepared to the same conjunctions up to the order of their fields.
-/

namespace BeIndexer

open IndexerBuilder (exprList)

theorem exprList_perm {conj conj' : Conjunction} (same : conj.Same conj') : (exprList conj).Perm (exprList conj') :=
  List.Perm.flatMap_right _ same

theorem exprList_filter (conj : Conjunction) (f : BEField) :
    (exprList conj).filter (fun expr => expr.1 == f) = (conj.exprs f).map fun bv => (f, bv) := by
  obtain ⟨⟨entries, nodup⟩⟩ := conj
  simp only [exprList, Conjunction.exprs, AList.lookup]
  induction entries with
  | nil => rfl
  | cons entry entries ih =>
    obtain ⟨g, bvs⟩ := entry
    have later := ih (List.nodupKeys_cons.mp nodup).2
    rw [List.flatMap_cons, List.filter_append, later]
    by_cases here : g = f
    · subst here
      have absent : entries.dlookup g = none := List.dlookup_eq_none.mpr (List.nodupKeys_cons.mp nodup).1
      rw [List.dlookup_cons_eq, absent]
      simp
    · rw [List.dlookup_cons_ne _ _ (Ne.symm here)]
      have none : (bvs.map fun bv => (g, bv)).filter (fun expr => expr.1 == f) = [] := by
        rw [List.filter_eq_nil_iff]
        intro expr mem
        obtain ⟨bv, _, rfl⟩ := List.mem_map.mp mem
        simpa using here
      rw [none, List.nil_append]

theorem mem_exprList {conj : Conjunction} {f : BEField} {bv : BoolValues} :
    (f, bv) ∈ exprList conj ↔ bv ∈ conj.exprs f := by
  rw [Conjunction.mem_exprs, exprList]
  simp only [List.mem_flatMap, List.mem_map, Prod.mk.injEq]
  constructor
  · rintro ⟨⟨g, exprs⟩, mem, bv', hbv, rfl, rfl⟩
    exact ⟨exprs, mem, hbv⟩
  · rintro ⟨exprs, mem, hbv⟩
    exact ⟨⟨f, exprs⟩, mem, bv, hbv, rfl, rfl⟩

variable [FloatOps] {C C' : BEField → GoString} {B B' : BadConjBehavior} {docID : DocID} {conjID : ConjID}
  {conj conj' : Conjunction}

theorem prepareTx_ok {expr : BEField × BoolValues} {tx : Tx} (run : prepareTx C conjID expr = .ok tx) :
    prepareExpr (C expr.1) expr.1 expr.2 = .ok tx.data ∧ tx.k = conjID.size ∧ tx.field = expr.1 := by
  obtain ⟨data, prepared, done⟩ := bind_eq_ok.mp run
  obtain rfl := Except.ok.inj done
  exact ⟨wrapErr_eq_ok.mp prepared, rfl, rfl⟩

theorem prepareTx_eid {expr : BEField × BoolValues} {tx : Tx} (run : prepareTx C conjID expr = .ok tx) :
    tx.eid = newEntryID conjID expr.2.incl := by
  obtain ⟨data, prepared, done⟩ := bind_eq_ok.mp run
  obtain rfl := Except.ok.inj done
  rfl

theorem prepareTx_congr {expr : BEField × BoolValues} (agree : C expr.1 = C' expr.1) :
    prepareTx C conjID expr = prepareTx C' conjID expr := by
  rw [prepareTx, agree]
  rfl

theorem prepareTxs_txsOf {txs : List Tx} (run : prepareTxs C conjID conj = .ok txs) (f : BEField) :
    ((conj.exprs f).map fun bv => (f, bv)).mapM (prepareTx C conjID) = .ok (txsOf f txs) := by
  rw [← exprList_filter]
  refine mapM_filter (fun expr tx prepared => ?_) run
  rw [(prepareTx_ok prepared).2.2]

theorem prepareTxs_same {txs : List Tx} (same : conj.Same conj') (agree : ∀ expr ∈ exprList conj', C expr.1 = C' expr.1)
    (run : prepareTxs C conjID conj = .ok txs) :
    ∃ txs', prepareTxs C' conjID conj' = .ok txs' ∧ ∀ f, txsOf f txs = txsOf f txs' := by
  have each : ∀ expr ∈ exprList conj', ∃ tx, prepareTx C' conjID expr = .ok tx := by
    intro expr mem
    obtain ⟨tx, _, prepared⟩ := mapM_mem run ((exprList_perm same).mem_iff.mpr mem)
    exact ⟨tx, prepareTx_congr (agree expr mem) ▸ prepared⟩
  obtain ⟨txs', run'⟩ := mapM_runs each
  refine ⟨txs', run', fun f => ?_⟩
  have first := prepareTxs_txsOf run f
  have second := prepareTxs_txsOf run' f
  rw [← same.exprs f] at second
  have congr : ((conj.exprs f).map fun bv => (f, bv)).mapM (prepareTx C conjID) =
      ((conj.exprs f).map fun bv => (f, bv)).mapM (prepareTx C' conjID) := by
    refine mapM_congr fun expr mem => prepareTx_congr (agree expr ?_)
    rw [same.exprs f, ← exprList_filter] at mem
    exact (List.mem_filter.mp mem).1
  exact Except.ok.inj (first.symm.trans (congr.trans second))

/-- The builder can deal with every expression of the conjunction. -/
def Settled (C : BEField → GoString) (B : BadConjBehavior) (conj : Conjunction) : Prop :=
  ∀ expr ∈ exprList conj, (∃ data, prepareExpr (C expr.1) expr.1 expr.2 = .ok data) ∨
    (B = .skip ∧ ∃ e, prepareExpr (C expr.1) expr.1 expr.2 = .error (.err e))

theorem prepareTxs_fails {err : GoError} (same : conj.Same conj')
    (agree : ∀ expr ∈ exprList conj', C expr.1 = C' expr.1) (settled : Settled C' B' conj')
    (run : prepareTxs C conjID conj = .error (.err err)) :
    B' = .skip ∧ ∃ err', prepareTxs C' conjID conj' = .error (.err err') := by
  obtain ⟨expr, mem, failed⟩ := mapM_error run
  have mem' := (exprList_perm same).mem_iff.mp mem
  rw [prepareTx_congr (agree expr mem')] at failed
  have skips : B' = .skip := by
    rcases settled expr mem' with ⟨data, prepared⟩ | ⟨skips, _⟩
    · rw [prepareTx, prepared] at failed
      cases failed
    · exact skips
  refine ⟨skips, ?_⟩
  cases run' : prepareTxs C' conjID conj' with
  | ok txs =>
    obtain ⟨tx, _, prepared⟩ := mapM_mem run' mem'
    rw [failed] at prepared
    cases prepared
  | error fault =>
    obtain ⟨expr', mem'', failed'⟩ := mapM_error run'
    rcases settled expr' mem'' with ⟨data, prepared⟩ | ⟨_, e, refused⟩
    · rw [prepareTx, prepared] at failed'
      cases failed'
    · rw [prepareTx, refused] at failed'
      cases failed'
      exact ⟨_, rfl⟩

theorem prepareConjTx_same {i : Nat} {c : Option ConjTx} (same : conj.Same conj')
    (agree : ∀ expr ∈ exprList conj', C expr.1 = C' expr.1) (settled : Settled C' B' conj')
    (run : prepareConjTx C B docID (conj, i) = .ok c) :
    ∃ c', prepareConjTx C' B' docID (conj', i) = .ok c' ∧ Option.Rel ConjTx.Same c c' := by
  obtain ⟨conjID, packed, rest⟩ := bind_eq_ok.mp run
  dsimp only at packed rest
  rw [prepareConjTx, ← same.calcConjSize, packed]
  cases prepared : prepareTxs C conjID conj with
  | ok txs =>
    rw [prepared] at rest
    obtain rfl := Except.ok.inj rest
    obtain ⟨txs', prepared', fields⟩ := prepareTxs_same same agree prepared
    refine ⟨some ⟨i, conj.calcConjSize, conjID, txs'⟩, ?_, .some ⟨rfl, rfl, fields⟩⟩
    simp only [bind, Except.bind, prepared']
    rfl
  | error fault =>
    rw [prepared] at rest
    cases fault with
    | err err =>
      obtain ⟨skips, err', prepared'⟩ := prepareTxs_fails same agree settled prepared
      refine ⟨none, ?_, ?_⟩
      · simp only [bind, Except.bind, prepared', badConj, skips]
      · unfold badConj at rest
        cases B with
        | skip =>
          obtain rfl := Except.ok.inj rest
          exact .none
        | error => cases rest
        | panic => cases rest
    | panic e => cases rest
    | hang => cases rest

theorem prepareConjs_same {cons cons' : List Conjunction} {n : Nat} {found : List (Option ConjTx)}
    (same : List.Forall₂ Conjunction.Same cons cons')
    (agree : ∀ conj ∈ cons', ∀ expr ∈ exprList conj, C expr.1 = C' expr.1)
    (settled : ∀ conj ∈ cons', Settled C' B' conj)
    (run : (cons.zipIdx n).mapM (prepareConjTx C B docID) = .ok found) :
    ∃ found', (cons'.zipIdx n).mapM (prepareConjTx C' B' docID) = .ok found' ∧
      List.Forall₂ ConjTx.Same found.reduceOption found'.reduceOption := by
  induction same generalizing n found with
  | nil =>
    obtain rfl := Except.ok.inj run
    exact ⟨[], rfl, .nil⟩
  | @cons conj conj' _ _ head _ ih =>
    rw [List.zipIdx_cons, List.mapM_cons] at run
    obtain ⟨c, first, rest⟩ := bind_eq_ok.mp run
    obtain ⟨cs, later, done⟩ := bind_eq_ok.mp rest
    obtain rfl := Except.ok.inj done
    obtain ⟨c', first', rel⟩ := prepareConjTx_same head (agree conj' List.mem_cons_self)
      (settled conj' List.mem_cons_self) first
    obtain ⟨cs', later', rels⟩ := ih (fun conj mem => agree conj (List.mem_cons_of_mem _ mem))
      (fun conj mem => settled conj (List.mem_cons_of_mem _ mem)) later
    refine ⟨c' :: cs', ?_, ?_⟩
    · rw [List.zipIdx_cons, List.mapM_cons, first', later']
      rfl
    · cases rel with
      | none => exact rels
      | some same => exact .cons same rels

theorem prepareConjTx_sized {conj : Conjunction × Nat} {c : ConjTx}
    (run : prepareConjTx C B docID conj = .ok (some c)) :
    c.Sized ∧ newConjID docID c.idx c.incSize = .ok c.conjID ∧
      ∀ tx ∈ c.txs, ∃ expr ∈ exprList conj.1, tx.field = expr.1 ∧
        prepareExpr (C expr.1) expr.1 expr.2 = .ok tx.data := by
  obtain ⟨packed, idx, size, prepared⟩ := prepareConjTx_some run
  rw [← idx, ← size] at packed
  have each : ∀ tx ∈ c.txs, ∃ expr ∈ exprList conj.1, prepareTx C c.conjID expr = .ok tx :=
    fun tx mem => mem_mapM prepared mem
  refine ⟨fun tx mem => ?_, packed, fun tx mem => ?_⟩
  · obtain ⟨expr, _, made⟩ := each tx mem
    exact (prepareTx_ok made).2.1
  · obtain ⟨expr, hexpr, made⟩ := each tx mem
    exact ⟨expr, hexpr, (prepareTx_ok made).2.2, (prepareTx_ok made).1⟩

end BeIndexer
