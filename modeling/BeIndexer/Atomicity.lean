import BeIndexer.Refinement.Runs

/-!
# Two-phase commit

A document whose preparation fails reaches no posting list, and no conjunction is ever committed in
part, because everything is prepared before anything is committed.
-/

namespace BeIndexer

open Calls

section Store

variable [FloatOps]

/-- Some expression of the conjunction cannot be prepared. -/
def conjFails (containers : BEField → GoString) (docID : DocID) (conj : Conjunction × Nat) : Bool :=
  match newConjID docID conj.2 conj.1.calcConjSize with
  | .ok conjID => returnsErr (prepareTxs containers conjID conj.1)
  | .error _ => false

/-- The conjunction with everything that its expressions are prepared to. -/
def Whole (containers : BEField → GoString) (docs : List Document) (c : ConjTx) : Prop :=
  ∃ doc ∈ docs, ∃ conj ∈ doc.cons.zipIdx, newConjID doc.id conj.2 conj.1.calcConjSize = .ok c.conjID ∧
    c.incSize = conj.1.calcConjSize ∧ prepareTxs containers c.conjID conj.1 = .ok c.txs

variable {C : BEField → GoString} {B : BadConjBehavior} {s s' : Store} {docID : DocID}

theorem prepareConjTx_fails {conj : Conjunction × Nat} (fails : conjFails C docID conj = true) :
    prepareConjTx C .skip docID conj = .ok none := by
  unfold conjFails at fails
  split at fails
  · rename_i conjID packed
    unfold prepareConjTx
    rw [packed]
    obtain ⟨err, prepared⟩ := returnsErr_iff.mp fails
    simp only [bind, Except.bind, prepared, badConj]
  · cases fails

/-- Conjunctions that fail leave no trace under `SkipBadConj`. -/
theorem mapM_prepare_skips (cons : List (Conjunction × Nat)) :
    ((cons.filter fun conj => !conjFails C docID conj).mapM (prepareConjTx C .skip docID)).map List.reduceOption =
      (cons.mapM (prepareConjTx C .skip docID)).map List.reduceOption := by
  induction cons with
  | nil => rfl
  | cons conj cons ih =>
    by_cases fails : conjFails C docID conj = true
    · rw [List.filter_cons_of_neg (by simp [fails]), ih, List.mapM_cons, prepareConjTx_fails fails]
      simp only [bind, Except.bind]
      cases cons.mapM (prepareConjTx C .skip docID) <;> rfl
    · rw [List.filter_cons_of_pos (by simp [fails]), List.mapM_cons, List.mapM_cons]
      have pushed : ∀ (c : Option ConjTx) (x : Go (List (Option ConjTx))),
          (x >>= fun cs => pure (c :: cs)).map List.reduceOption = (x.map List.reduceOption).map (c.toList ++ ·) := by
        intro c x
        cases x <;> cases c <;> rfl
      cases prepareConjTx C .skip docID conj with
      | error fault => rfl
      | ok c => exact (pushed c _).trans (ih ▸ (pushed c _).symm)

theorem build_eq (cons : List (Conjunction × Nat)) :
    s.build C B docID cons =
      andThen (settle s ((cons.mapM (prepareConjTx C B docID)).map List.reduceOption)) fun s all =>
        (all.foldlM Store.commitConj s).map fun s => (s, .ok ()) := by
  rw [settle_map, Store.build]
  rcases cons.mapM (prepareConjTx C B docID) with (_ | _ | _) | found <;> rfl

/-- What becomes of the store: nothing if the document fails, its conjunctions one by one otherwise. -/
theorem addOne_cases {doc : Document} {r : Except GoError Unit} (run : s.addOne C B doc = .ok (s', r)) :
    (∃ err, r = .error err ∧ s' = s) ∨
      ∃ found, doc.cons.zipIdx.mapM (prepareConjTx C B doc.id) = .ok found ∧ r = .ok () ∧
        found.reduceOption.foldlM Store.commitConj s = .ok s' := by
  rcases settled_cases run with ⟨err, _, rfl, rfl⟩ | ⟨_, _, built⟩
  · exact Or.inl ⟨err, rfl, rfl⟩
  · rcases settled_cases built with ⟨err, _, rfl, rfl⟩ | ⟨found, prepared, commits⟩
    · exact Or.inl ⟨err, rfl, rfl⟩
    · obtain ⟨s₁, committed, done⟩ := map_eq_ok.mp commits
      obtain ⟨rfl, rfl⟩ := Prod.mk.inj done
      exact Or.inr ⟨found, prepared, rfl, committed⟩

/-- The second store is the first one with whole conjunctions of the documents committed to it. -/
def CommitsWhole (C : BEField → GoString) (docs : List Document) (s s' : Store) : Prop :=
  ∃ whole : List ConjTx, (∀ c ∈ whole, Whole C docs c) ∧ whole.foldlM Store.commitConj s = .ok s'

theorem CommitsWhole.trans {docs : List Document} (s₁ s₂ s₃ : Store) (first : CommitsWhole C docs s₁ s₂)
    (second : CommitsWhole C docs s₂ s₃) : CommitsWhole C docs s₁ s₃ := by
  obtain ⟨early, wholeEarly, commitsEarly⟩ := first
  obtain ⟨late, wholeLate, commitsLate⟩ := second
  refine ⟨early ++ late, fun c mem => (List.mem_append.mp mem).elim (wholeEarly c) (wholeLate c), ?_⟩
  rw [List.foldlM_append, commitsEarly]
  exact commitsLate

theorem addOne_whole {docs : List Document} {doc : Document} (mem : doc ∈ docs) {r : Except GoError Unit}
    (run : s.addOne C B doc = .ok (s', r)) : CommitsWhole C docs s s' := by
  rcases addOne_cases run with ⟨err, _, rfl⟩ | ⟨found, prepared, _, commits⟩
  · exact ⟨[], by simp, rfl⟩
  · refine ⟨found.reduceOption, fun c hc => ?_, commits⟩
    obtain ⟨conj, hconj, some⟩ := mem_mapM prepared (List.reduceOption_mem_iff.mp hc)
    obtain ⟨packed, _, size, prepared⟩ := prepareConjTx_some some
    exact ⟨doc, mem, conj, hconj, packed, size, prepared⟩

theorem addDocs_whole {docs : List Document} {r : Except GoError (List Unit)}
    (run : mapCalls (Store.addOne C B) s docs = .ok (s', r)) : CommitsWhole C docs s s' := by
  have each : ∀ doc ∈ docs, ∀ s, True →
      Leaves (CommitsWhole C docs) (fun _ => True) (fun _ _ => True) s (s.addOne C B doc) :=
    fun doc mem s _ s' r run => ⟨addOne_whole mem run, trivial, fun _ _ => trivial⟩
  exact (Leaves.mapCalls (fun s => ⟨[], by simp, rfl⟩) CommitsWhole.trans
    (fun _ _ _ _ _ => trivial) each trivial _ _ run).1

theorem addDocument_whole {docs : List Document} {r : Except GoError Unit}
    (run : s.addDocument C B docs = .ok (s', r)) : CommitsWhole C docs s s' := by
  cases loop : mapCalls (Store.addOne C B) s docs with
  | error fault => simp [Store.addDocument, loop, andThen] at run
  | ok o =>
    obtain ⟨s₁, e | done⟩ := o
    · simp only [Store.addDocument, loop, andThen, Except.ok.injEq, Prod.mk.injEq] at run
      exact run.1 ▸ addDocs_whole loop
    · simp only [Store.addDocument, loop, andThen, Except.ok.injEq, Prod.mk.injEq] at run
      exact run.1 ▸ addDocs_whole loop

end Store

namespace IndexerBuilder

variable [FloatOps]

def prepareFails (loops : MapLoops) (docID : DocID) (b : IndexerBuilder) (conj : Conjunction × Nat) : Bool :=
  match newConjID docID conj.2 conj.1.calcConjSize with
  | .ok conjID =>
    match b.indexingConjunction loops conjID conj.1 with
    | .ok (_, .error _) => true
    | _ => false
  | .error _ => false

variable {C : BEField → GoString} {B : BadConjBehavior} {b : IndexerBuilder} {s : Store}

theorem prepareFails_iff (shows : Shows C B b s) (loops : MapLoops) (docID : DocID) {conj : Conjunction × Nat}
    (plain : ∀ f, C f ≠ HolderNameOptimizedRange) : prepareFails loops docID b conj = conjFails C docID conj := by
  unfold prepareFails conjFails
  cases newConjID docID conj.2 conj.1.calcConjSize with
  | error fault => rfl
  | ok conjID =>
    have quiet : ∀ expr ∈ exprList conj.1, EntriesHolder.Quiet (C expr.1) expr.1 expr.2 :=
      fun _ _ => EntriesHolder.quiet_of_ne (plain _)
    have follows := indexingConjunction_follows shows loops conjID quiet
    dsimp only
    generalize b.indexingConjunction loops conjID conj.1 = x at follows ⊢
    generalize prepareTxs C conjID conj.1 = y at follows ⊢
    rcases y with (_ | _ | _) | txs <;> cases follows <;> rfl

variable [Codec]

/-- `AddDocument` of one document without the conjunctions whose preparation fails; the others keep
their index. -/
def addPreparable (loops : MapLoops) (b : IndexerBuilder) (doc : Document) :
    Go (IndexerBuilder × Except GoError Unit) :=
  andThen (settle b (validDocument doc)) fun b _ =>
    b.buildEntries loops doc (doc.cons.zipIdx.filter fun conj => !prepareFails loops doc.id b conj)

def addAllPreparable (loops : MapLoops) (b : IndexerBuilder) (docs : List Document) :
    Go (IndexerBuilder × Except GoError Unit) :=
  andThen (mapCalls (addPreparable loops) b docs) fun b _ => .ok (b, .ok ())

/-- What can be seen of a builder that has no cache. -/
def ShowsUncached (C : BEField → GoString) (B : BadConjBehavior) (b : IndexerBuilder) (s : Store) : Prop :=
  Shows C B b s ∧ b.docLevelCache = none

omit [FloatOps] [Codec] in
theorem validDocument_ok {doc : Document} (valid : validDocument doc = .ok ()) :
    panicIf (doc.cons.length == 0) "no conjunctions in this document" [] = .ok () ∧
      panicIf (doc.cons.length > 0xFF) "number of conjunction need less than 256" [] = .ok () := by
  unfold validDocument at valid
  split at valid
  · cases valid
  · rename_i nonempty
    split at valid
    · cases valid
    · rename_i short
      exact ⟨panicIf_eq_ok.mpr (by simpa using nonempty), panicIf_eq_ok.mpr (by simpa using short)⟩

omit [FloatOps] [Codec] in
theorem follows_check {σ τ α β : Type} {Later : σ → σ → Prop} {Inv : σ → τ → Prop} {Out : σ → α → β → Prop}
    {s : σ} {t : τ}
    {check : Go Unit} {f : σ → Unit → Go (σ × Except GoError α)} {g : τ → Unit → Go (τ × Except GoError β)}
    (refl : Later s s) (inv : Inv s t) (next : check = .ok () → Follows Later Inv Out s (f s ()) (g t ())) :
    Follows Later Inv Out s (andThen (settle s check) f) (andThen (settle t check) g) := by
  cases check with
  | error fault =>
    cases fault with
    | err e => exact .failed e refl inv
    | panic e => exact .fault _
    | hang => exact .fault _
  | ok u => exact next rfl

theorem addOne_misses (shows : Shows C B b s) (loops : MapLoops) {doc : Document} (miss : b.cachedEntry doc = none)
    (quiet : ∀ conj ∈ doc.cons.zipIdx, ∀ expr ∈ exprList conj.1, EntriesHolder.Quiet (C expr.1) expr.1 expr.2) :
    Follows Later (Shows C B) (fun _ _ _ => True) b (addOne loops b doc) (s.addOne C B doc) := by
  unfold addOne Store.addOne
  refine follows_check (Later.refl b) shows fun valid => ?_
  obtain ⟨nonempty, short⟩ := validDocument_ok valid
  have built : b.buildDocEntries loops doc = b.buildEntries loops doc doc.cons.zipIdx := by
    rw [buildDocEntries, nonempty, short, miss]
    rfl
  change Follows _ _ _ _ (b.buildDocEntries loops doc) (s.build C B doc.id doc.cons.zipIdx)
  rw [built]
  exact buildEntries_follows shows loops doc quiet

theorem addOne_hits (shows : Shows C B b s) (loops : MapLoops) {doc : Document} {entry : DocIdxCache}
    (hit : b.cachedEntry doc = some entry) :
    Follows Later (Shows C B) (fun _ _ _ => True) b (addOne loops b doc)
      (andThen (settle s (validDocument doc)) fun s _ =>
        s.restore b.fieldsData.containers entry.docID entry.conjIdxCaches) := by
  unfold addOne
  refine follows_check (Later.refl b) shows fun valid => ?_
  obtain ⟨nonempty, short⟩ := validDocument_ok valid
  have restored : b.buildDocEntries loops doc = b.addDocIndexingData entry := by
    rw [buildDocEntries, nonempty, short, hit]
    rfl
  change Follows _ _ _ _ (b.buildDocEntries loops doc) (s.restore _ _ _)
  rw [restored]
  exact addDocIndexingData_follows shows entry

theorem addOne_follows (shows : ShowsUncached C B b s) (plain : ∀ f, C f ≠ HolderNameOptimizedRange) (loops : MapLoops)
    (doc : Document) :
    Follows Later (ShowsUncached C B) (fun _ _ _ => True) b (addOne loops b doc) (s.addOne C B doc) := by
  have miss : b.cachedEntry doc = none := by rw [cachedEntry, shows.2]
  exact (addOne_misses shows.1 loops miss fun _ _ _ _ => EntriesHolder.quiet_of_ne (plain _)).inv
    fun _ _ later shows' => ⟨shows', later.uncached shows.2⟩

theorem addPreparable_follows (shows : ShowsUncached C .skip b s) (plain : ∀ f, C f ≠ HolderNameOptimizedRange)
    (loops : MapLoops) (doc : Document) :
    Follows Later (ShowsUncached C .skip) (fun _ _ _ => True) b (addPreparable loops b doc) (s.addOne C .skip doc) := by
  unfold addPreparable Store.addOne
  refine follows_check (Later.refl b) shows fun valid => ?_
  have same : (fun conj => !prepareFails loops doc.id b conj) = fun conj => !conjFails C doc.id conj := by
    funext conj
    rw [prepareFails_iff shows.1 loops doc.id plain]
  change Follows _ _ _ _
    (b.buildEntries loops doc (doc.cons.zipIdx.filter fun conj => !prepareFails loops doc.id b conj))
    (s.build C .skip doc.id doc.cons.zipIdx)
  rw [same, build_eq, ← mapM_prepare_skips, ← build_eq]
  exact (buildEntries_follows shows.1 loops doc fun _ _ _ _ => EntriesHolder.quiet_of_ne (plain _)).inv
    fun _ _ later shows' => ⟨shows', later.uncached shows.2⟩

omit [Codec] in
theorem addDocs_follows {call : IndexerBuilder → Document → Go (IndexerBuilder × Except GoError Unit)}
    (each : ∀ b s doc, ShowsUncached C B b s →
      Follows Later (ShowsUncached C B) (fun _ _ _ => True) b (call b doc) (s.addOne C B doc))
    (shows : ShowsUncached C B b s) (docs : List Document) :
    Follows Later (ShowsUncached C B) (fun _ _ _ => True) b
      (andThen (mapCalls call b docs) fun b _ => .ok (b, .ok ())) (s.addDocument C B docs) := by
  have turns : ∀ doc ∈ docs, ∀ doc', doc = doc' → ∀ b s, ShowsUncached C B b s →
      Follows Later (ShowsUncached C B) (fun _ _ _ => True) b (call b doc) (s.addOne C B doc') := by
    rintro doc _ _ rfl b s shows
    exact each b s doc shows
  refine Follows.andThen Later.trans (Follows.mapCalls Later.refl Later.trans (fun _ _ _ _ _ out => out)
    (List.forall₂_same.mpr fun _ _ => rfl) turns shows) fun b' s' _ _ _ shows' _ => ?_
  exact .done (Later.refl b') shows' trivial

section Documents

variable {b' : IndexerBuilder} {loops : MapLoops} {docs : List Document}

theorem addDocument_returns {r : Except GoError Unit} (shows : ShowsUncached C B b s)
    (plain : ∀ f, C f ≠ HolderNameOptimizedRange) (added : b.addDocument loops docs = .ok (b', r)) :
    ∃ s', ShowsUncached C B b' s' ∧ s.addDocument C B docs = .ok (s', r) := by
  have follows := addDocs_follows (fun b s doc shows => addOne_follows shows plain loops doc) shows docs
  change Follows _ _ _ b (b.addDocument loops docs) _ at follows
  rw [added] at follows
  exact follows.returns_left

/-- The document that failed left no posting behind. -/
theorem addDocument_rejected {err : GoError} (shows : ShowsUncached C B b s)
    (plain : ∀ f, C f ≠ HolderNameOptimizedRange) (added : b.addDocument loops docs = .ok (b', .error err)) :
    ∃ pre doc post b₁, docs = pre ++ doc :: post ∧ b.addDocument loops pre = .ok (b₁, .ok ()) ∧
      b₁.addDocument loops [doc] = .ok (b', .error err) ∧ b'.store = b₁.store := by
  obtain ⟨pre, doc, post, b₁, done, split, before, failed⟩ := mapCalls_error (andThen_error added)
  have added₁ : b.addDocument loops pre = .ok (b₁, .ok ()) := by rw [addDocument, before]; rfl
  obtain ⟨s₁, shows₁, _⟩ := addDocument_returns shows plain added₁
  have last := addOne_follows shows₁ plain loops doc
  rw [failed] at last
  obtain ⟨s₂, shows₂, ran⟩ := last.returns_left
  refine ⟨pre, doc, post, b₁, split, added₁, by rw [addDocument, mapCalls, failed]; rfl, ?_⟩
  -- what failed was still being prepared
  rcases addOne_cases ran with ⟨_, _, rfl⟩ | ⟨_, _, absurd, _⟩
  · rw [shows₂.1.store, shows₁.1.store]
  · cases absurd

theorem addDocument_preparable {r : Except GoError Unit} (shows : ShowsUncached C .skip b s)
    (plain : ∀ f, C f ≠ HolderNameOptimizedRange) (added : b.addDocument loops docs = .ok (b', r)) :
    ∃ b₁, b.addAllPreparable loops docs = .ok (b₁, r) ∧ b'.store = b₁.store := by
  obtain ⟨s', shows', abstract⟩ := addDocument_returns shows plain added
  have again := addDocs_follows (fun b s doc shows => addPreparable_follows shows plain loops doc) shows docs
  rw [abstract] at again
  obtain ⟨b₁, shows₁, ran⟩ := again.returns_right
  refine ⟨b₁, ran, ?_⟩
  rw [shows'.1.store, shows₁.1.store]

omit [FloatOps] [Codec] in
theorem containers_plain (fields : ∀ desc ∈ b.fieldsData.descs,
      desc.container ∈ [HolderNameDefault, HolderNameExtendRange, HolderNameACMatcher]) (f : BEField) :
    b.containers f ≠ HolderNameOptimizedRange := by
  unfold containers
  split
  · rename_i desc found
    have listed := fields desc (FieldTable.find_mem found).1
    intro named
    rw [named] at listed
    revert listed
    decide
  · decide

end Documents

variable [AhoMachine]

/-- After an error the posting lists are those of the documents before the one that failed; under
`SkipBadConj` they are those of the conjunctions that can be prepared; and whatever is committed of
a conjunction is all of it. -/
theorem addDocument_atomic {option : BuilderOption} {ops : List Op} {b b' : IndexerBuilder} {loops : MapLoops}
    {docs : List Document} {r : Except GoError Unit} (reached : run option ops = .ok b)
    (uncached : b.docLevelCache = none)
    (fields : ∀ desc ∈ b.fieldsData.descs,
      desc.container ∈ [HolderNameDefault, HolderNameExtendRange, HolderNameACMatcher])
    (added : b.addDocument loops docs = .ok (b', r)) :
    (∀ err, r = .error err → ∃ pre doc post b₁, docs = pre ++ doc :: post ∧
      b.addDocument loops pre = .ok (b₁, .ok ()) ∧ b₁.addDocument loops [doc] = .ok (b', .error err) ∧
      b'.store = b₁.store) ∧
    (b.badConjBehavior = .skip → ∃ b₁, b.addAllPreparable loops docs = .ok (b₁, r) ∧ b'.store = b₁.store) ∧
    CommitsWhole b.containers docs b.store b'.store := by
  have plain := containers_plain fields
  have shows : ShowsUncached b.containers b.badConjBehavior b b.store := ⟨(run_wf reached).shows, uncached⟩
  obtain ⟨s', shows', abstract⟩ := addDocument_returns shows plain added
  refine ⟨?_, ?_, ?_⟩
  · rintro err rfl
    exact addDocument_rejected shows plain added
  · intro skips
    rw [skips] at shows
    exact addDocument_preparable shows plain added
  · rw [shows'.1.store]
    exact addDocument_whole abstract

omit [FloatOps] [Codec] [AhoMachine] in
/-- A document, and one with an expression that is no number. -/
theorem addDocument_atomic_rejected :
    letI := FloatOps.noFloats
    letI := Codec.single [] [] ⟨.eq, false, []⟩ []
    letI := AhoMachine.naive
    let good : Document := ⟨1, 0, [⟨AList.singleton (str "age") [⟨true, .ints .int (some [3]), .eq⟩]⟩]⟩
    let bad : Document := ⟨2, 0, [⟨AList.singleton (str "age") [⟨true, .strings (some [str "x"]), .eq⟩]⟩]⟩
    ∃ b b' err, run ⟨.default, .error, none⟩ [.configField .id (str "age") HolderNameExtendRange] = .ok b ∧
      b.addDocument .id [good, bad] = .ok (b', .error err) ∧
      ∃ pre doc post b₁, [good, bad] = pre ++ doc :: post ∧ b.addDocument .id pre = .ok (b₁, .ok ()) ∧
        b'.store = b₁.store := by
  let _ := FloatOps.noFloats
  let _ := Codec.single [] [] ⟨.eq, false, []⟩ []
  let _ := AhoMachine.naive
  intro good bad
  obtain ⟨b, reached, uncached, descs, b', err, added, _⟩ : ∃ b,
      run ⟨.default, .error, none⟩ [.configField .id (str "age") HolderNameExtendRange] = .ok b ∧
      b.docLevelCache = none ∧ b.fieldsData.descs = [⟨0, str "age", HolderNameExtendRange⟩] ∧
      ∃ b' err, b.addDocument .id [good, bad] = .ok (b', .error err) ∧ true = true :=
    ⟨_, rfl, rfl, rfl, failed_iff.mp (by decide +kernel)⟩
  obtain ⟨failed, _⟩ := addDocument_atomic reached uncached (by rw [descs]; decide) added
  obtain ⟨pre, doc, post, b₁, split, before, _, same⟩ := failed err rfl
  exact ⟨b, b', err, reached, added, pre, doc, post, b₁, split, before, same⟩

end IndexerBuilder

end BeIndexer
