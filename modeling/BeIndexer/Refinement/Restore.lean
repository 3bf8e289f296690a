import BeIndexer.Refinement.Build

/-!
# Restoring refines the store

Restoring a cached document decodes and commits one conjunction after the other. It creates no field.
-/

namespace BeIndexer

open Calls

/-- The container names of the configured fields. -/
def FieldTable.containers (t : FieldTable) (f : BEField) : Option GoString := (t.find f).map FieldDesc.container

namespace Store

variable [Codec] {fields : BEField → Option GoString} {docID : DocID} {s s' : Store}

theorem restoreConj_cases {cached : ConjIdxCache} {r : Except GoError Unit}
    (run : s.restoreConj fields docID cached = .ok (s', r)) :
    (∃ e, restoreConjTx fields docID cached = .error (.err e) ∧ s' = s ∧ r = .error e) ∨
      ∃ c, restoreConjTx fields docID cached = .ok c ∧ s.commitConj c = .ok s' ∧ r = .ok () := by
  rcases settled_cases run with failed | ⟨c, restored, commits⟩
  · exact Or.inl failed
  · obtain ⟨s₁, committed, done⟩ := map_eq_ok.mp commits
    obtain ⟨rfl, rfl⟩ := Prod.mk.inj done
    exact Or.inr ⟨c, restored, committed, rfl⟩

theorem restoreConjs_ok {cached : List ConjIdxCache} {us : List Unit}
    (run : mapCalls (restoreConj fields docID) s cached = .ok (s', .ok us)) :
    ∃ cs, cached.mapM (restoreConjTx fields docID) = .ok cs ∧ cs.foldlM commitConj s = .ok s' := by
  induction cached generalizing s us with
  | nil =>
    obtain ⟨rfl, _⟩ := Prod.mk.inj (Except.ok.inj run)
    exact ⟨[], rfl, rfl⟩
  | cons c cached ih =>
    obtain ⟨s₁, u, us', first, later, _⟩ := mapCalls_cons_ok.mp run
    rcases restoreConj_cases first with ⟨_, _, _, absurd⟩ | ⟨ctx, restored, committed, _⟩
    · cases absurd
    · obtain ⟨cs, all, commits⟩ := ih later
      refine ⟨ctx :: cs, ?_, ?_⟩
      · rw [List.mapM_cons, restored, all]
        rfl
      · rw [List.foldlM_cons, committed]
        exact commits

theorem restore_eq {cached : List ConjIdxCache} {cs : List ConjTx}
    (decoded : cached.mapM (restoreConjTx fields docID) = .ok cs) :
    s.restore fields docID cached = (cs.foldlM commitConj s).map fun s => (s, .ok ()) := by
  have loop : ∃ us, mapCalls (restoreConj fields docID) s cached =
      (cs.foldlM commitConj s).map fun s => (s, .ok us) := by
    have each := mapM_eq_ok.mp decoded
    clear decoded
    induction each generalizing s with
    | nil => exact ⟨[], rfl⟩
    | @cons _ c _ _ head _ ih =>
      rw [mapCalls, restoreConj, head, List.foldlM_cons]
      cases committed : s.commitConj c with
      | error fault => exact ⟨[], by simp [settle, andThen, committed, Except.map, bind, Except.bind]⟩
      | ok s₁ =>
        obtain ⟨us, rest⟩ := @ih s₁
        refine ⟨() :: us, ?_⟩
        simp only [settle, andThen, committed, Except.map, bind, Except.bind, rest]
        cases List.foldlM commitConj s₁ _ <;> rfl
  obtain ⟨us, run⟩ := loop
  rw [restore, run]
  cases cs.foldlM commitConj s <;> rfl

end Store

namespace IndexerBuilder

/-- What can be seen of a builder whose field table stays as it is. -/
def ShowsAt (t : FieldTable) (C : BEField → GoString) (B : BadConjBehavior) (b : IndexerBuilder) (s : Store) : Prop :=
  Shows C B b s ∧ b.fieldsData = t

variable {t : FieldTable} {C : BEField → GoString} {B : BadConjBehavior} {b : IndexerBuilder} {s : Store}

theorem settled_follows {b b' : IndexerBuilder} {desc : FieldDesc} {k : Nat} (decode : IdxCacheEntry → Go IndexingData)
    (known : b.fieldsData.find desc.field = some desc ∧ newEntriesHolder desc.container ≠ none)
    (step : ShowsAt t C B b' s) (later : Later b b') (entries : List IdxCacheEntry) :
    Follows Later (ShowsAt t C B)
      (fun b fieldData txs => (∀ tx ∈ fieldData, b.Knows tx) ∧ fieldData.map FieldIndexingData.toTx = txs) b
      (settle b' (entries.mapM fun e => do return ⟨desc, k, e.eid, ← decode e⟩))
      (settle s (entries.mapM fun e => do return ⟨k, desc.field, e.eid, ← decode e⟩)) := by
  have same : (fun e => do return ⟨k, desc.field, e.eid, ← decode e⟩ : IdxCacheEntry → Go Tx) =
      fun e => (do return ⟨desc, k, e.eid, ← decode e⟩ : Go FieldIndexingData).map FieldIndexingData.toTx := by
    funext e
    cases decode e <;> rfl
  rw [same, mapM_map]
  cases run : entries.mapM fun e => (do return ⟨desc, k, e.eid, ← decode e⟩ : Go FieldIndexingData) with
  | error fault =>
    cases fault with
    | err e => exact .failed _ later step
    | panic e => exact .fault _
    | hang => exact .fault _
  | ok fieldData =>
    refine .done later step ⟨?_, rfl⟩
    intro tx mem
    obtain ⟨e, -, decoded⟩ := mem_mapM run mem
    obtain ⟨data, -, done⟩ := bind_eq_ok.mp decoded
    obtain rfl := Except.ok.inj done
    exact ⟨later.fields _ _ known.1, known.2⟩

variable [Codec]

theorem restoreField_follows (shows : ShowsAt t C B b s) (k : Nat) (fieldTx : FieldIndexes) :
    Follows Later (ShowsAt t C B)
      (fun b fieldData txs => (∀ tx ∈ fieldData, b.Knows tx) ∧ fieldData.map FieldIndexingData.toTx = txs) b
      (restoreField k b fieldTx) (settle s (restoreTxs t.containers k fieldTx)) := by
  obtain ⟨shows, rfl⟩ := shows
  unfold restoreField restoreTxs FieldTable.containers
  cases known : b.fieldsData.find fieldTx.field with
  | none => exact .failed _ (Later.refl b) ⟨shows, rfl⟩
  | some desc =>
    have field := (FieldTable.find_mem known).2
    simp only [Option.map_some]
    cases made : (b.indexer.container k).createHolder desc with
    | error fault =>
      obtain ⟨missing, rfl⟩ := EntriesContainer.createHolder_fault made
      simp only [missing, field]
      exact .fault _
    | ok r =>
      obtain ⟨c, h⟩ := r
      obtain ⟨fits, same, of, _⟩ := EntriesContainer.createHolder_spec (shows.wf.fits _) known made
      have step : ShowsAt b.fieldsData C B (b.setContainer k c) s := ⟨shows.setContainer fits same, rfl⟩
      have later := (Indexed.setContainer b k c).later
      cases fresh : newEntriesHolder desc.container with
      | none => exact absurd fresh of.registered
      | some h' =>
        have kinds : h'.kind = h.kind := by
          rw [EntriesHolder.Of, fresh] at of
          exact Option.some.inj of
        have decodes : restoreTx h' k fieldTx.field = restoreTx h k fieldTx.field := by
          funext e
          rw [restoreTx, EntriesHolder.decode_kind kinds]
          rfl
        simp only [decodes]
        rw [← field] at known ⊢
        exact settled_follows (fun e => wrapErr _ _ (h.decodeFieldIndexingData e.dataBytes)) ⟨known, of.registered⟩
          step later fieldTx.entries

omit [Codec] in
theorem flatten_outs {groups : List (List FieldIndexingData)} {txs : List (List Tx)}
    (outs : List.Forall₂
      (fun fieldData txs => (∀ tx ∈ fieldData, b.Knows tx) ∧ fieldData.map FieldIndexingData.toTx = txs)
      groups txs) :
    (∀ tx ∈ groups.flatten, b.Knows tx) ∧ groups.flatten.map FieldIndexingData.toTx = txs.flatten := by
  induction outs with
  | nil => simp
  | cons out _ ih =>
    obtain ⟨known, rfl⟩ := out
    simp only [List.flatten_cons, List.mem_append, List.map_append, ih.2]
    exact ⟨fun tx mem => mem.elim (known tx) (ih.1 tx), trivial⟩

theorem toConjIndexingData_follows (shows : ShowsAt t C B b s) (docID : DocID) (cached : ConjIdxCache) :
    Follows Later (ShowsAt t C B) (fun b cd c => b.Prepared cd ∧ cd.toConjTx = c) b
      (b.toConjIndexingData docID cached) (settle s (restoreConjTx t.containers docID cached)) := by
  unfold toConjIndexingData restoreConjTx
  cases packed : newConjID docID cached.conjIdx cached.conjSize with
  | error fault =>
    obtain ⟨e, rfl⟩ := newConjID_fault packed
    exact .fault _
  | ok conjID =>
    simp only [bind, Except.bind]
    have grown : ShowsAt t C B { b with indexer := b.indexer.newContainer cached.conjSize.toNat } s :=
      ⟨shows.1.newContainer _, shows.2⟩
    have each : ∀ fieldTx ∈ cached.fieldCacheIdx, ∀ fieldTx', fieldTx = fieldTx' → ∀ b s, ShowsAt t C B b s →
        Follows Later (ShowsAt t C B)
          (fun b fieldData txs => (∀ tx ∈ fieldData, b.Knows tx) ∧ fieldData.map FieldIndexingData.toTx = txs) b
          (restoreField cached.conjSize.toNat b fieldTx)
          (settle s (restoreTxs t.containers cached.conjSize.toNat fieldTx')) := by
      rintro fieldTx _ _ rfl b s shows
      exact restoreField_follows shows _ fieldTx
    have loop := Follows.mapCalls Later.refl Later.trans
      (fun _ _ _ _ later out => ⟨fun tx mem => (out.1 tx mem).later later, out.2⟩)
      (List.forall₂_same.mpr fun _ _ => rfl) each grown
    rw [mapCalls_settle] at loop
    refine Follows.earlier Later.trans (Indexed.newContainer b cached.conjSize.toNat).later ?_
    generalize mapCalls (restoreField cached.conjSize.toNat) _ cached.fieldCacheIdx = x at loop ⊢
    generalize cached.fieldCacheIdx.mapM (restoreTxs t.containers cached.conjSize.toNat) = y at loop ⊢
    rcases y with (err | e | _) | txs
    · cases loop with
      | failed _ later inv => exact .failed _ later inv
    · cases loop
      exact .fault _
    · cases loop
      exact .fault _
    · cases loop with
      | done later inv outs =>
        obtain ⟨known, same⟩ := flatten_outs outs
        refine .done later inv ⟨⟨later.sizes _ BEIndex.newContainer_has, known⟩, ?_⟩
        simp [ConjIndexingData.toConjTx, same]

theorem restoreConj_follows (shows : ShowsAt t C B b s) (docID : DocID) (cached : ConjIdxCache) :
    Follows Later (ShowsAt t C B) (fun _ _ _ => True) b
      (restoreConj docID b cached) (s.restoreConj t.containers docID cached) := by
  refine Follows.andThen Later.trans (toConjIndexingData_follows shows docID cached) ?_
  rintro b' s' cd _ later shows' ⟨prepared, rfl⟩
  have commits := commitConj_tracks shows'.1 prepared
  generalize b'.commitConjIndexingData cd = x at commits ⊢
  generalize s'.commitConj cd.toConjTx = y at commits ⊢
  cases commits with
  | fault f => exact .fault f
  | done h =>
    refine .done h.1.later ⟨h.2, ?_⟩ trivial
    rw [h.1.only]
    exact shows'.2

theorem addDocIndexingData_follows (shows : Shows C B b s) (cached : DocIdxCache) :
    Follows Later (Shows C B) (fun _ _ _ => True) b
      (b.addDocIndexingData cached) (s.restore b.fieldsData.containers cached.docID cached.conjIdxCaches) := by
  have each : ∀ c ∈ cached.conjIdxCaches, ∀ c', c = c' → ∀ b' s', ShowsAt b.fieldsData C B b' s' →
      Follows Later (ShowsAt b.fieldsData C B) (fun _ _ _ => True) b'
        (restoreConj cached.docID b' c) (s'.restoreConj b.fieldsData.containers cached.docID c') := by
    rintro c _ _ rfl b' s' shows
    exact restoreConj_follows shows cached.docID c
  have loop := Follows.mapCalls Later.refl Later.trans (fun _ _ _ _ _ out => out)
    (List.forall₂_same.mpr fun _ _ => rfl) each ⟨shows, rfl⟩
  have whole := Follows.andThen Later.trans loop fun b' s' _ _ _ shows' _ =>
    (Follows.done (Later.refl b') shows' trivial :
      Follows Later (ShowsAt b.fieldsData C B) (fun _ _ _ => True) b' (.ok (b', .ok ())) (.ok (s', .ok ())))
  exact whole.inv fun _ _ _ h => h.1

end IndexerBuilder

end BeIndexer
