import BeIndexer.Refinement.Container

/-!
# The builder refines the store

`IndexerBuilder.store` reads the posting store off a builder. Preparing expressions creates fields,
containers and holders, none of which shows in the store; committing them commits to the store.
-/

namespace BeIndexer

open Calls

/-! ### The store of a builder -/

theorem BEIndex.shared_container {idx : BEIndex} (compact : idx.isCompact = true) (k k' : Nat) :
    idx.container k = idx.container k' := by
  cases idx with
  | kgroups bi => cases compact
  | compact bi => rfl

namespace IndexerBuilder

/-- The container name of a field; a field that is not configured yet will get the default one. -/
def containers (b : IndexerBuilder) (f : BEField) : GoString :=
  match b.fieldsData.find f with
  | some desc => desc.container
  | none => HolderNameDefault

def store (b : IndexerBuilder) : Store where
  compact := b.indexer.isCompact
  wildcard := b.indexer.base.wildcardEntries
  posts := fun k => (b.indexer.container k).postings b.fieldsData
  shared := fun compact k k' => by rw [BEIndex.shared_container compact k k']

structure WF (b : IndexerBuilder) : Prop where
  fits : ∀ k, (b.indexer.container k).Fits b.fieldsData
  wildcard : b.indexer.base.wildcardEntries ≠ [] → b.indexer.HasContainer 0

theorem fresh_postings (b : IndexerBuilder) (f : BEField) :
    newFieldEntriesContainer.postings b.fieldsData f = .fresh (b.containers f) := by
  unfold EntriesContainer.postings containers
  cases b.fieldsData.find f with
  | none => rfl
  | some desc =>
    have held : newFieldEntriesContainer.heldBy desc = newEntriesHolder desc.container := by
      unfold EntriesContainer.heldBy EntriesContainer.getFieldHolder
      split
      · rename_i named
        rw [named]
        rfl
      · rfl
    simp only [held]
    cases made : newEntriesHolder desc.container with
    | none => rw [Postings.fresh, made]
    | some h => exact Postings.ofHolder_new made _

/-- What no call takes back while a document is indexed. -/
structure Later (b b' : IndexerBuilder) : Prop where
  fields : ∀ f desc, b.fieldsData.find f = some desc → b'.fieldsData.find f = some desc
  sizes : ∀ k, b.indexer.HasContainer k → b'.indexer.HasContainer k
  uncached : b.docLevelCache = none → b'.docLevelCache = none

theorem Later.refl (b : IndexerBuilder) : Later b b := ⟨fun _ _ h => h, fun _ h => h, fun h => h⟩

theorem Later.trans (a b c : IndexerBuilder) (h₁ : Later a b) (h₂ : Later b c) : Later a c :=
  ⟨fun f d h => h₂.fields f d (h₁.fields f d h), fun k h => h₂.sizes k (h₁.sizes k h),
    fun h => h₂.uncached (h₁.uncached h)⟩

/-- A call that changes the index only. -/
structure Indexed (b b' : IndexerBuilder) : Prop where
  only : b' = { b with indexer := b'.indexer }
  sizes : ∀ k, b.indexer.HasContainer k → b'.indexer.HasContainer k

theorem Indexed.refl (b : IndexerBuilder) : Indexed b b := ⟨rfl, fun _ h => h⟩

theorem Indexed.trans (a b c : IndexerBuilder) (h₁ : Indexed a b) (h₂ : Indexed b c) : Indexed a c := by
  refine ⟨?_, fun k h => h₂.sizes k (h₁.sizes k h)⟩
  rw [h₂.only, h₁.only]

theorem Indexed.later {b b' : IndexerBuilder} (h : Indexed b b') : Later b b' := by
  rw [h.only]
  exact ⟨fun _ _ h => h, h.sizes, fun h => h⟩

/-- The builder is well formed, and this is what can be seen of it. -/
structure Shows (containers : BEField → GoString) (behavior : BadConjBehavior) (b : IndexerBuilder) (s : Store) :
    Prop where
  wf : b.WF
  store : b.store = s
  containers : b.containers = containers
  behavior : b.badConjBehavior = behavior

variable {C : BEField → GoString} {B : BadConjBehavior} {b : IndexerBuilder} {s : Store} {loops : MapLoops}
  {f : BEField} {desc : FieldDesc} {k : Nat} {c : EntriesContainer}

theorem Shows.container (shows : Shows C B b s) (known : b.fieldsData.find f = some desc) : desc.container = C f := by
  rw [← shows.containers, IndexerBuilder.containers, known]

theorem WF.setContainer (wf : b.WF) (fits : c.Fits b.fieldsData) : (b.setContainer k c).WF := by
  refine ⟨fun k' => ?_, ?_⟩
  · simp only [IndexerBuilder.setContainer, BEIndex.setContainer_container]
    split
    · exact fits
    · exact wf.fits k'
  · simp only [IndexerBuilder.setContainer, BEIndex.setContainer_base]
    exact fun nonempty => (wf.wildcard nonempty).setContainer

theorem Shows.put (shows : Shows C B b s) (fits : c.Fits b.fieldsData) {p : Postings}
    (changed : ∀ g, c.postings b.fieldsData g = if g = f then p else (b.indexer.container k).postings b.fieldsData g) :
    Shows C B (b.setContainer k c) (s.put k f p) where
  wf := shows.wf.setContainer fits
  store := by
    rw [← shows.store]
    ext1
    · simp [IndexerBuilder.store, IndexerBuilder.setContainer, Store.put]
    · simp [IndexerBuilder.store, IndexerBuilder.setContainer, Store.put]
    · funext k' g
      simp only [IndexerBuilder.store, IndexerBuilder.setContainer, BEIndex.setContainer_container,
        Store.put, Store.Slot]
      by_cases slot : b.indexer.isCompact = true ∨ k = k'
      · have same : b.indexer.container k = b.indexer.container k' := by
          rcases slot with compact | rfl
          · exact BEIndex.shared_container compact k k'
          · rfl
        rw [if_pos slot, changed, same]
        simp [slot]
      · simp [slot]
  containers := shows.containers
  behavior := shows.behavior

theorem Shows.setContainer (shows : Shows C B b s) (fits : c.Fits b.fieldsData)
    (same : c.postings b.fieldsData = (b.indexer.container k).postings b.fieldsData) :
    Shows C B (b.setContainer k c) s := by
  have put := shows.put (k := k) (f := []) fits (p := s.posts k []) fun g => by
    rw [same, ← shows.store]
    split
    · rename_i field
      rw [field]
      rfl
    · rfl
  rwa [s.put_self] at put

theorem Shows.newContainer (shows : Shows C B b s) (k : Nat) :
    Shows C B { b with indexer := b.indexer.newContainer k } s where
  wf := by
    refine ⟨fun k' => ?_, fun nonempty => ?_⟩
    · rw [BEIndex.newContainer_container]
      exact shows.wf.fits k'
    · rw [BEIndex.newContainer_base] at nonempty
      exact (shows.wf.wildcard nonempty).newContainer
  store := by
    rw [← shows.store]
    ext1
    · simp [IndexerBuilder.store]
    · simp [IndexerBuilder.store]
    · funext k'
      simp [IndexerBuilder.store]
  containers := shows.containers
  behavior := shows.behavior

theorem Indexed.newContainer (b : IndexerBuilder) (k : Nat) :
    Indexed b { b with indexer := b.indexer.newContainer k } :=
  ⟨rfl, fun _ h => h.newContainer⟩

theorem Indexed.setContainer (b : IndexerBuilder) (k : Nat) (c : EntriesContainer) : Indexed b (b.setContainer k c) :=
  ⟨rfl, fun _ h => h.setContainer⟩

theorem configField_cases {b' : IndexerBuilder} {container : GoString}
    (run : b.configField loops f container = .ok b') :
    ∃ fresh hash, b' = { b with
      fieldsData := b.fieldsData.add f (if container.isEmpty then HolderNameDefault else container) fresh
      schemaHash := hash
      docLevelCache := b.docLevelCache.map fun _ => DocLevelCache.clear } := by
  obtain ⟨⟨b₁, desc⟩, configured, done⟩ := bind_eq_ok.mp run
  obtain rfl := Except.ok.inj done
  have configured := panicIfErr_eq_ok.mp configured
  unfold configureField at configured
  split at configured
  · rename_i fresh
    obtain ⟨rfl, _⟩ := Prod.mk.inj (Except.ok.inj configured)
    exact ⟨fresh, _, rfl⟩
  · cases configured

theorem configField_shows {b' : IndexerBuilder} {container : GoString} (shows : Shows C B b s)
    (run : b.configField loops f container = .ok b') :
    (∀ k, s.posts k f = .empty) ∧
      Shows (Function.update C f (if container.isEmpty then HolderNameDefault else container)) B b'
        (s.configure f (if container.isEmpty then HolderNameDefault else container)) := by
  obtain ⟨fresh, hash, rfl⟩ := configField_cases run
  refine ⟨fun k => ?_, ⟨fun k => EntriesContainer.add_fits (shows.wf.fits k) _ fresh, shows.wf.wildcard⟩, ?_, ?_,
    shows.behavior⟩
  · rw [← shows.store]
    exact EntriesContainer.postings_unknown fresh
  · rw [← shows.store]
    ext1
    · rfl
    · rfl
    · funext k g
      exact EntriesContainer.add_postings (shows.wf.fits k) _ fresh g
  · rw [← shows.containers]
    funext g
    simp only [IndexerBuilder.containers, FieldTable.find_add, Function.update_apply]
    by_cases same : g = f
    · rw [if_pos same, if_pos same]
    · rw [if_neg same, if_neg same]

theorem createFieldData_spec (shows : Shows C B b s) (loops : MapLoops) (f : BEField) :
    ∃ b' desc, b.createFieldData loops f = .ok (b', desc) ∧ b'.fieldsData.find f = some desc ∧
      Later b b' ∧ Shows C B b' s := by
  unfold createFieldData
  cases found : b.fieldsData.find f with
  | some desc => exact ⟨b, desc, rfl, found, Later.refl b, shows⟩
  | none =>
    have nonempty : HolderNameDefault.isEmpty = false := by decide
    simp only [configureField, dif_pos found, nonempty, Bool.false_eq_true, if_false, panicIfErr]
    refine ⟨_, _, rfl, ?_, ⟨?_, fun _ h => h, ?_⟩, ⟨⟨?_, shows.wf.wildcard⟩, ?_, ?_, shows.behavior⟩⟩
    · simp [FieldTable.find_add]
    · intro g desc known
      rw [FieldTable.find_add, if_neg, known]
      rintro rfl
      rw [found] at known
      cases known
    · rintro none
      simp [none]
    · exact fun k => EntriesContainer.add_fits (shows.wf.fits k) _ found
    · rw [← shows.store]
      ext1
      · rfl
      · rfl
      · funext k
        exact EntriesContainer.add_default_postings (shows.wf.fits k) found
    · rw [← shows.containers]
      funext g
      simp only [IndexerBuilder.containers, FieldTable.find_add]
      by_cases same : g = f
      · subst same
        simp [found]
      · rw [if_neg same]

end IndexerBuilder

/-! ### Preparing -/

/-- The expression's data without the builder's field id. -/
def FieldIndexingData.toTx (tx : FieldIndexingData) : Tx := ⟨tx.k, tx.field.field, tx.eid, tx.data⟩

def ConjIndexingData.toConjTx (cd : ConjIndexingData) : ConjTx :=
  ⟨cd.idx, cd.incSize, cd.conjID, cd.fieldData.map FieldIndexingData.toTx⟩

theorem settle_map {σ α β : Type} (s : σ) (r : Go α) (g : α → β) :
    settle s (r.map g) = andThen (settle s r) fun s a => .ok (s, .ok (g a)) := by
  rcases r with (_ | _ | _) | a <;> rfl

theorem settled_cases {σ α β : Type} {s s' : σ} {r : Go α} {next : σ → α → Go (σ × Except GoError β)}
    {res : Except GoError β} (run : andThen (settle s r) next = .ok (s', res)) :
    (∃ e, r = .error (.err e) ∧ s' = s ∧ res = .error e) ∨ ∃ a, r = .ok a ∧ next s a = .ok (s', res) := by
  rcases r with (e | e | _) | a
  · obtain ⟨rfl, rfl⟩ := Prod.mk.inj (Except.ok.inj run)
    exact Or.inl ⟨e, rfl, rfl, rfl⟩
  · cases run
  · cases run
  · exact Or.inr ⟨a, rfl, run⟩

theorem settle_leaves {σ α : Type} {Later : σ → σ → Prop} {Inv : σ → Prop} {s : σ} {r : Go α} (refl : ∀ s, Later s s)
    (inv : Inv s) : Leaves Later Inv (fun _ _ => True) s (settle s r) := by
  intro s' r' run
  rcases r with (e | e | _) | a
  · obtain ⟨rfl, rfl⟩ := Prod.mk.inj (Except.ok.inj run)
    exact ⟨refl _, inv, fun _ _ => trivial⟩
  · cases run
  · cases run
  · obtain ⟨rfl, rfl⟩ := Prod.mk.inj (Except.ok.inj run)
    exact ⟨refl _, inv, fun _ _ => trivial⟩

theorem mapCalls_settle {σ ι α : Type} (s : σ) (g : ι → Go α) (is : List ι) :
    mapCalls (fun s i => settle s (g i)) s is = settle s (is.mapM g) := by
  induction is with
  | nil => rfl
  | cons i is ih =>
    rw [mapCalls, List.mapM_cons]
    rcases g i with (_ | _ | _) | a
    · rfl
    · rfl
    · rfl
    · change andThen (mapCalls _ s is) _ = _
      rw [ih]
      rcases is.mapM g with (_ | _ | _) | as <;> rfl

namespace IndexerBuilder

/-- The field of an expression's data is in the table, and its container name is registered. -/
def Knows (b : IndexerBuilder) (tx : FieldIndexingData) : Prop :=
  b.fieldsData.find tx.field.field = some tx.field ∧ newEntriesHolder tx.field.container ≠ none

theorem Knows.later {b b' : IndexerBuilder} {tx : FieldIndexingData} (known : b.Knows tx) (later : Later b b') :
    b'.Knows tx := ⟨later.fields _ _ known.1, known.2⟩

/-- The fields of a conjunction's data are in the table, and there is a container for its size. -/
structure Prepared (b : IndexerBuilder) (cd : ConjIndexingData) : Prop where
  size : b.indexer.HasContainer cd.incSize
  fields : ∀ tx ∈ cd.fieldData, b.Knows tx

theorem Prepared.later {b b' : IndexerBuilder} {cd : ConjIndexingData} (prepared : b.Prepared cd) (later : Later b b') :
    b'.Prepared cd :=
  ⟨later.sizes _ prepared.size, fun tx mem => (prepared.fields tx mem).later later⟩

variable [FloatOps] {C : BEField → GoString} {B : BadConjBehavior} {b : IndexerBuilder} {s : Store}

theorem indexingExpr_follows (shows : Shows C B b s) (loops : MapLoops) (conjID : ConjID) {expr : BEField × BoolValues}
    (quiet : EntriesHolder.Quiet (C expr.1) expr.1 expr.2) :
    Follows Later (Shows C B) (fun b tx t => b.Knows tx ∧ tx.toTx = t) b
      (indexingExpr loops conjID b expr) (settle s (prepareTx C conjID expr)) := by
  obtain ⟨b', desc, created, known, later, shows'⟩ := createFieldData_spec shows loops expr.1
  have container := shows'.container known
  have field := (FieldTable.find_mem known).2
  refine Follows.earlier Later.trans later ?_
  unfold indexingExpr prepareTx
  rw [created, ← container, ← field]
  simp only [bind, Except.bind]
  cases made : (b'.indexer.container conjID.size).createHolder desc with
  | error fault =>
    obtain ⟨missing, rfl⟩ := EntriesContainer.createHolder_fault made
    simp only [prepareExpr, missing, panicf, wrapErr, settle]
    exact .fault _
  | ok r =>
    obtain ⟨c, h⟩ := r
    obtain ⟨fits, same, of, shown, shared⟩ := EntriesContainer.createHolder_spec (shows'.wf.fits _) known made
    have step := shows'.setContainer fits same
    rw [← container, ← field] at quiet
    simp only [EntriesHolder.build_prepares expr.2 of quiet]
    rcases prepareExpr desc.container desc.field expr.2 with (err | p | _) | data
    · exact .failed _ (Indexed.setContainer _ _ _).later step
    · exact .fault _
    · exact .fault _
    · have frame : ∀ d, h = .default d → ∀ term, term.fieldID ≠ desc.id →
          d.plEntries term = c.defaultHolder.plEntries term := by
        intro d isDefault _ _
        rw [shared d isDefault]
      have written : (c.setHolder desc h).postings b'.fieldsData = c.postings b'.fieldsData := by
        funext g
        rw [EntriesContainer.setHolder_postings known of frame]
        split
        · rename_i isField
          rw [isField, same, shown]
        · rfl
      have twice : Shows C B ((b'.setContainer conjID.size c).setContainer conjID.size (c.setHolder desc h)) s := by
        refine step.setContainer (EntriesContainer.setHolder_fits fits known of frame) ?_
        simpa [IndexerBuilder.setContainer, BEIndex.setContainer_container] using written
      refine .done (Indexed.trans _ _ _ (Indexed.setContainer _ _ _) (Indexed.setContainer _ _ _)).later twice
        ⟨⟨?_, ?_⟩, rfl⟩
      · rw [← field] at known
        exact known
      · exact of.registered

theorem indexingConjunction_follows (shows : Shows C B b s) (loops : MapLoops) (conjID : ConjID) {conj : Conjunction}
    (quiet : ∀ expr ∈ exprList conj, EntriesHolder.Quiet (C expr.1) expr.1 expr.2) :
    Follows Later (Shows C B)
      (fun b fieldData txs => b.indexer.HasContainer conjID.size ∧ (∀ tx ∈ fieldData, b.Knows tx) ∧
        fieldData.map FieldIndexingData.toTx = txs) b
      (b.indexingConjunction loops conjID conj) (settle s (prepareTxs C conjID conj)) := by
  have grown := shows.newContainer conjID.size
  have each : ∀ expr ∈ exprList conj, ∀ expr', expr = expr' → ∀ b s, Shows C B b s →
      Follows Later (Shows C B) (fun b tx t => b.Knows tx ∧ tx.toTx = t) b
        (indexingExpr loops conjID b expr) (settle s (prepareTx C conjID expr')) := by
    rintro expr mem _ rfl b s shows
    exact indexingExpr_follows shows loops conjID (quiet expr mem)
  have loop := Follows.mapCalls Later.refl Later.trans
    (fun _ _ _ _ later known => ⟨known.1.later later, known.2⟩) (List.forall₂_same.mpr fun _ _ => rfl) each grown
  rw [mapCalls_settle] at loop
  refine Follows.earlier Later.trans (Indexed.newContainer b conjID.size).later (loop.imp ?_)
  intro b' fieldData txs later outs
  refine ⟨later.sizes _ BEIndex.newContainer_has, ?_⟩
  induction outs with
  | nil => simp
  | cons out _ ih =>
    refine ⟨List.forall_mem_cons.mpr ⟨out.1, ih.1⟩, ?_⟩
    rw [List.map_cons, out.2, ih.2]

theorem prepareConj_follows (shows : Shows C B b s) (loops : MapLoops) (docID : DocID) {conj : Conjunction × Nat}
    (quiet : ∀ expr ∈ exprList conj.1, EntriesHolder.Quiet (C expr.1) expr.1 expr.2) :
    Follows Later (Shows C B)
      (fun b cd tx => cd.map ConjIndexingData.toConjTx = tx ∧ ∀ d ∈ cd, b.Prepared d) b
      (prepareConj loops docID b conj) (settle s (prepareConjTx C B docID conj)) := by
  unfold prepareConj prepareConjTx
  cases packed : newConjID docID conj.2 conj.1.calcConjSize with
  | error fault =>
    obtain ⟨e, rfl⟩ := newConjID_fault packed
    simp only [packed, bind, Except.bind]
    exact .fault _
  | ok conjID =>
    have size : conjID.size = conj.1.calcConjSize := by
      have := (newConjID_fields packed).2.1
      omega
    have prepared := indexingConjunction_follows shows loops conjID quiet
    simp only [packed, bind, Except.bind]
    generalize b.indexingConjunction loops conjID conj.1 = r at prepared ⊢
    generalize prepareTxs C conjID conj.1 = p at prepared ⊢
    rcases p with (err | e | _) | txs
    · -- what follows depends on the behaviour that the builder was given
      obtain ⟨b', rfl, later, inv⟩ : ∃ b', r = .ok (b', .error err) ∧ Later b b' ∧ Shows C B b' s := by
        cases prepared with
        | failed _ later inv => exact ⟨_, rfl, later, inv⟩
      simp only [inv.behavior, badConj]
      cases B with
      | skip => exact .done later inv ⟨rfl, by simp⟩
      | error => exact .failed _ later inv
      | panic => exact .fault _
    · cases prepared
      exact .fault _
    · cases prepared
      exact .fault _
    · cases prepared with
      | done later inv out =>
        obtain ⟨has, known, rfl⟩ := out
        refine .done later inv ⟨rfl, ?_⟩
        rintro cd ⟨⟩
        exact ⟨size ▸ has, known⟩

/-! ### Committing -/

omit [FloatOps]

theorem commit_tracks (shows : Shows C B b s) {tx : FieldIndexingData} (knows : b.Knows tx) :
    Tracks (fun b' s' => Indexed b b' ∧ Shows C B b' s')
      (panicIfErr "commit indexing data failed" [] (b.commitFieldIndexingData tx)) (s.commitTx tx.toTx) := by
  obtain ⟨known, registered⟩ := knows
  unfold commitFieldIndexingData Store.commitTx Store.commitPostings
  cases made : (b.indexer.container tx.k).createHolder tx.field with
  | error fault => exact absurd (EntriesContainer.createHolder_fault made).1 registered
  | ok r =>
    obtain ⟨c, h⟩ := r
    obtain ⟨fits, same, of, shown, shared⟩ := EntriesContainer.createHolder_spec (shows.wf.fits _) known made
    have posts : s.posts tx.toTx.k tx.toTx.field = .ofHolder tx.field.id h := by
      rw [← shows.store]
      exact shown
    have committed := EntriesHolder.commit_postings h tx.field tx.eid tx.data
    rw [posts, show (Postings.ofHolder tx.field.id h).commit tx.toTx.eid tx.toTx.data = _ from committed.symm]
    simp only [bind, Except.bind]
    cases run : h.commitFieldIndexingData tx.field tx.eid tx.data with
    | error fault => cases fault <;> exact .fault _
    | ok h' =>
      have of' : h'.Of tx.field.container := by
        rw [EntriesHolder.Of, EntriesHolder.commit_kind run]
        exact of
      have frame : ∀ d, h' = .default d → ∀ term, term.fieldID ≠ tx.field.id →
          d.plEntries term = c.defaultHolder.plEntries term := by
        rintro d rfl term other
        cases h with
        | default d₀ =>
          rw [shared d₀ rfl]
          exact EntriesHolder.commit_default run term other
        | _ => cases EntriesHolder.commit_kind run
      refine .done ⟨Indexed.setContainer _ _ _, shows.put (EntriesContainer.setHolder_fits fits known of' frame)
        fun g => ?_⟩
      rw [EntriesContainer.setHolder_postings known of' frame, same]
      rfl

theorem Shows.addWildcard (shows : Shows C B b s) (id : EntryID) (has : b.indexer.HasContainer 0) :
    Shows C B { b with indexer := b.indexer.addWildcardEID id } (s.addWildcard id) where
  wf := by
    refine ⟨fun k => ?_, fun _ => has.addWildcardEID⟩
    rw [BEIndex.addWildcardEID_container]
    exact shows.wf.fits k
  store := by
    rw [← shows.store]
    ext1
    · simp [IndexerBuilder.store, Store.addWildcard]
    · simp [IndexerBuilder.store, Store.addWildcard]
    · funext k
      simp [IndexerBuilder.store, Store.addWildcard]
  containers := shows.containers
  behavior := shows.behavior

theorem commitTxs_tracks (shows : Shows C B b s) {txs : List FieldIndexingData} (knows : ∀ tx ∈ txs, b.Knows tx) :
    Tracks (fun b' s' => Indexed b b' ∧ Shows C B b' s')
      (txs.foldlM (fun b tx => panicIfErr "commit indexing data failed" [] (b.commitFieldIndexingData tx)) b)
      ((txs.map FieldIndexingData.toTx).foldlM Store.commitTx s) := by
  have items : List.Forall₂ (fun tx t => b.Knows tx ∧ tx.toTx = t) txs (txs.map FieldIndexingData.toTx) :=
    List.forall₂_map_right_iff.mpr (List.forall₂_same.mpr fun tx mem => ⟨knows tx mem, rfl⟩)
  refine Tracks.foldlM items ?_ ⟨Indexed.refl b, shows⟩
  rintro tx _ ⟨known, rfl⟩ b' s' ⟨later, shows'⟩
  have step := commit_tracks shows' (known.later later.later)
  exact step.imp fun _ _ h => ⟨Indexed.trans _ _ _ later h.1, h.2⟩

theorem commitConj_tracks (shows : Shows C B b s) {cd : ConjIndexingData} (prepared : b.Prepared cd) :
    Tracks (fun b' s' => Indexed b b' ∧ Shows C B b' s') (b.commitConjIndexingData cd) (s.commitConj cd.toConjTx) := by
  unfold commitConjIndexingData Store.commitConj
  have size : cd.toConjTx.incSize = cd.incSize := rfl
  simp only [size]
  by_cases zero : cd.incSize = 0
  · simp only [if_pos zero]
    have later : Indexed b { b with indexer := b.indexer.addWildcardEID (newEntryID cd.conjID true) } :=
      ⟨rfl, fun _ h => h.addWildcardEID⟩
    have commits := commitTxs_tracks (shows.addWildcard (newEntryID cd.conjID true) (zero ▸ prepared.size))
      fun tx mem => (prepared.fields tx mem).later later.later
    exact commits.imp fun _ _ h => ⟨Indexed.trans _ _ _ later h.1, h.2⟩
  · simp only [if_neg zero]
    exact commitTxs_tracks shows prepared.fields

theorem commitConjs_tracks (shows : Shows C B b s) {all : List ConjIndexingData}
    (prepared : ∀ cd ∈ all, b.Prepared cd) :
    Tracks (fun b' s' => Indexed b b' ∧ Shows C B b' s') (all.foldlM commitConjIndexingData b)
      ((all.map ConjIndexingData.toConjTx).foldlM Store.commitConj s) := by
  have items : List.Forall₂ (fun cd c => b.Prepared cd ∧ cd.toConjTx = c) all (all.map ConjIndexingData.toConjTx) :=
    List.forall₂_map_right_iff.mpr (List.forall₂_same.mpr fun cd mem => ⟨prepared cd mem, rfl⟩)
  refine Tracks.foldlM items ?_ ⟨Indexed.refl b, shows⟩
  rintro cd _ ⟨ready, rfl⟩ b' s' ⟨later, shows'⟩
  exact (commitConj_tracks shows' (ready.later later.later)).imp fun _ _ h => ⟨Indexed.trans _ _ _ later h.1, h.2⟩

variable [Codec] in
theorem Shows.saveEntry (shows : Shows C B b s) (loops : MapLoops) (doc : Document) (schemaHash : UInt64)
    (all : List ConjIndexingData) : Shows C B (b.saveEntry loops doc schemaHash all) s := by
  unfold IndexerBuilder.saveEntry
  split
  · exact ⟨⟨shows.wf.fits, shows.wf.wildcard⟩, shows.store, shows.containers, shows.behavior⟩
  · exact shows

variable [Codec] in
theorem Later.saveEntry (b : IndexerBuilder) (loops : MapLoops) (doc : Document) (schemaHash : UInt64)
    (all : List ConjIndexingData) : Later b (b.saveEntry loops doc schemaHash all) := by
  unfold IndexerBuilder.saveEntry
  split
  · exact ⟨fun _ _ h => h, fun _ h => h, fun none => by simp [none]⟩
  · exact Later.refl b

theorem prepareConjs_follows [FloatOps] (shows : Shows C B b s) (loops : MapLoops) (docID : DocID)
    {cons : List (Conjunction × Nat)}
    (quiet : ∀ conj ∈ cons, ∀ expr ∈ exprList conj.1, EntriesHolder.Quiet (C expr.1) expr.1 expr.2) :
    Follows Later (Shows C B)
      (fun b prepared txs => (∀ cd ∈ prepared.reduceOption, b.Prepared cd) ∧
        txs.reduceOption = prepared.reduceOption.map ConjIndexingData.toConjTx) b
      (mapCalls (prepareConj loops docID) b cons) (settle s (cons.mapM (prepareConjTx C B docID))) := by
  have each : ∀ conj ∈ cons, ∀ conj', conj = conj' → ∀ b s, Shows C B b s →
      Follows Later (Shows C B) (fun b cd tx => cd.map ConjIndexingData.toConjTx = tx ∧ ∀ d ∈ cd, b.Prepared d) b
        (prepareConj loops docID b conj) (settle s (prepareConjTx C B docID conj')) := by
    rintro conj mem _ rfl b s shows
    exact prepareConj_follows shows loops docID (quiet conj mem)
  have loop := Follows.mapCalls Later.refl Later.trans
    (fun _ _ _ _ later out => ⟨out.1, fun d mem => (out.2 d mem).later later⟩)
    (List.forall₂_same.mpr fun _ _ => rfl) each shows
  rw [mapCalls_settle] at loop
  refine loop.imp fun b' prepared txs _ outs => ?_
  clear loop
  induction outs with
  | nil => exact ⟨fun cd mem => absurd mem List.not_mem_nil, rfl⟩
  | @cons cd tx _ _ out _ ih =>
    obtain ⟨rfl, ready⟩ := out
    cases cd with
    | none => exact ih
    | some cd => exact ⟨List.forall_mem_cons.mpr ⟨ready cd rfl, ih.1⟩, congrArg (cd.toConjTx :: ·) ih.2⟩

theorem prepareConjs_ok [FloatOps] (shows : Shows C B b s) {loops : MapLoops} {docID : DocID}
    {cons : List (Conjunction × Nat)}
    (quiet : ∀ conj ∈ cons, ∀ expr ∈ exprList conj.1, EntriesHolder.Quiet (C expr.1) expr.1 expr.2)
    {b' : IndexerBuilder} {prepared : List (Option ConjIndexingData)}
    (run : mapCalls (prepareConj loops docID) b cons = .ok (b', .ok prepared)) :
    ∃ found, cons.mapM (prepareConjTx C B docID) = .ok found ∧
      found.reduceOption = prepared.reduceOption.map ConjIndexingData.toConjTx ∧
      ∀ cd ∈ prepared.reduceOption, b'.Prepared cd := by
  have follows := prepareConjs_follows shows loops docID quiet
  rw [run] at follows
  obtain ⟨_, _, _, ⟨_, absurd, _⟩ | ⟨_, found, same, settled, ready, txs⟩⟩ := follows.ok_left
  · cases absurd
  · cases same
    refine ⟨found, ?_, txs, ready⟩
    cases mapped : cons.mapM (prepareConjTx C B docID) with
    | error fault => cases fault <;> simp [mapped, settle] at settled
    | ok found' =>
      rw [mapped] at settled
      cases settled
      rfl

theorem buildEntries_follows [FloatOps] [Codec] (shows : Shows C B b s) (loops : MapLoops) (doc : Document)
    {cons : List (Conjunction × Nat)}
    (quiet : ∀ conj ∈ cons, ∀ expr ∈ exprList conj.1, EntriesHolder.Quiet (C expr.1) expr.1 expr.2) :
    Follows Later (Shows C B) (fun _ _ _ => True) b (b.buildEntries loops doc cons) (s.build C B doc.id cons) := by
  refine Follows.andThen Later.trans (prepareConjs_follows shows loops doc.id quiet) ?_
  intro b' s' prepared txs _ shows' out
  have commits := commitConjs_tracks shows' out.1
  rw [← out.2] at commits
  dsimp only
  generalize List.foldlM commitConjIndexingData b' prepared.reduceOption = x at commits ⊢
  generalize List.foldlM Store.commitConj s' txs.reduceOption = y at commits ⊢
  cases commits with
  | fault f => exact .fault f
  | done h => exact .done (Later.trans _ _ _ h.1.later (Later.saveEntry ..)) (h.2.saveEntry ..) trivial

end IndexerBuilder

end BeIndexer
