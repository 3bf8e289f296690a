import BeIndexer.Refinement.Compile
import BeIndexer.Refinement.Restore

/-!
# Runs of a builder

Every builder that calls can lead to is well formed, whatever its cache holds.
-/

namespace BeIndexer

open Calls

/-- The calls on a builder. `shareCache` is what other builders do to a cache that they share. -/
inductive Op where
  | configField (loops : MapLoops) (field : BEField) (container : GoString)
  | addDocument (loops : MapLoops) (docs : List Document)
  | addDocIndexingData (cached : DocIdxCache)
  | buildIndex
  | reset
  | shareCache (cache : DocLevelCache)

namespace IndexerBuilder

section

variable [FloatOps] [Codec] [AhoMachine]

/-- The state after a call; a call that returned an error leaves one, too. -/
def step (b : IndexerBuilder) : Op → Go IndexerBuilder
  | .configField loops field container => b.configField loops field container
  | .addDocument loops docs => (b.addDocument loops docs).map Prod.fst
  | .addDocIndexingData cached => (b.addDocIndexingData cached).map Prod.fst
  | .buildIndex => b.buildIndex
  | .reset => b.reset
  | .shareCache cache => .ok { b with docLevelCache := b.docLevelCache.map fun _ => cache }

/-- A new builder after some calls. -/
def run (option : BuilderOption) (ops : List Op) : Go IndexerBuilder := do
  let b ← newIndexerBuilder option
  ops.foldlM step b

end

variable {b b' : IndexerBuilder} {loops : MapLoops}

theorem WF.shows (wf : b.WF) : Shows b.containers b.badConjBehavior b b.store := ⟨wf, rfl, rfl, rfl⟩

section Prepare

variable [FloatOps]

theorem indexingExpr_leaves (wf : b.WF) (loops : MapLoops) (conjID : ConjID) (expr : BEField × BoolValues) :
    Leaves Later WF Knows b (indexingExpr loops conjID b expr) := by
  obtain ⟨b₁, desc, created, known, later, shows⟩ := createFieldData_spec wf.shows loops expr.1
  have field := (FieldTable.find_mem known).2
  intro b' r run
  unfold indexingExpr at run
  rw [created] at run
  simp only [bind, Except.bind] at run
  cases made : (b₁.indexer.container conjID.size).createHolder desc with
  | error fault => simp [made] at run
  | ok p =>
    obtain ⟨c, h⟩ := p
    obtain ⟨fits, same, of, shown, shared⟩ := EntriesContainer.createHolder_spec (shows.wf.fits _) known made
    have step := Indexed.setContainer b₁ conjID.size c
    simp only [made] at run
    cases built : h.buildFieldIndexingData desc expr.2 with
    | error fault =>
      cases fault with
      | err e =>
        simp only [built] at run
        obtain ⟨rfl, rfl⟩ := Prod.mk.inj (Except.ok.inj run)
        exact ⟨Later.trans _ _ _ later step.later, shows.wf.setContainer fits, by rintro _ ⟨⟩⟩
      | panic e => simp [built] at run
      | hang => simp [built] at run
    | ok p =>
      obtain ⟨h', data⟩ := p
      obtain ⟨kind, keeps⟩ := EntriesHolder.build_keeps built
      simp only [built] at run
      obtain ⟨rfl, rfl⟩ := Prod.mk.inj (Except.ok.inj run)
      have of' : h'.Of desc.container := by
        rw [EntriesHolder.Of, kind]
        exact of
      have frame : ∀ d, h' = .default d → ∀ term, term.fieldID ≠ desc.id →
          d.plEntries term = c.defaultHolder.plEntries term := by
        intro d isDefault _ _
        rw [shared d (keeps d isDefault)]
      have twice := Indexed.trans _ _ _ step (Indexed.setContainer _ conjID.size (c.setHolder desc h'))
      refine ⟨Later.trans _ _ _ later twice.later, ?_, ?_⟩
      · exact (shows.wf.setContainer fits).setContainer (EntriesContainer.setHolder_fits fits known of' frame)
      · rintro _ ⟨⟩
        exact ⟨by rw [← field] at known; exact known, of.registered⟩

theorem indexingConjunction_leaves (wf : b.WF) (loops : MapLoops) (conjID : ConjID) (conj : Conjunction) :
    Leaves Later WF (fun b fieldData => b.indexer.HasContainer conjID.size ∧ ∀ tx ∈ fieldData, b.Knows tx) b
      (b.indexingConjunction loops conjID conj) := by
  intro b' r run
  have grown := (wf.shows.newContainer conjID.size).wf
  have first := Indexed.newContainer b conjID.size
  obtain ⟨later, wf', outs⟩ := Leaves.mapCalls Later.refl Later.trans (fun _ _ _ later known => known.later later)
    (fun expr _ b wf => indexingExpr_leaves wf loops conjID expr) grown b' r run
  refine ⟨Later.trans _ _ _ first.later later, wf', fun fieldData returned => ⟨?_, outs fieldData returned⟩⟩
  exact later.sizes _ BEIndex.newContainer_has

theorem prepareConj_leaves (wf : b.WF) (loops : MapLoops) (docID : DocID) (conj : Conjunction × Nat) :
    Leaves Later WF (fun b cd => ∀ d ∈ cd, b.Prepared d) b (prepareConj loops docID b conj) := by
  intro b' r run
  obtain ⟨conjID, packed, rest⟩ := bind_eq_ok.mp run
  obtain ⟨⟨b₁, prepared⟩, indexed, rest⟩ := bind_eq_ok.mp rest
  obtain ⟨later, wf', outs⟩ := indexingConjunction_leaves wf loops conjID conj.1 _ _ indexed
  have size : conjID.size = conj.1.calcConjSize := by
    have := (newConjID_fields packed).2.1
    omega
  cases prepared with
  | ok fieldData =>
    obtain ⟨rfl, rfl⟩ := Prod.mk.inj (Except.ok.inj rest)
    refine ⟨later, wf', ?_⟩
    rintro _ ⟨⟩ _ ⟨⟩
    obtain ⟨has, known⟩ := outs fieldData rfl
    exact ⟨size ▸ has, known⟩
  | error err =>
    simp only at rest
    split at rest
    · obtain ⟨rfl, rfl⟩ := Prod.mk.inj (Except.ok.inj rest)
      refine ⟨later, wf', ?_⟩
      rintro _ ⟨⟩ _ ⟨⟩
    · obtain ⟨rfl, rfl⟩ := Prod.mk.inj (Except.ok.inj rest)
      exact ⟨later, wf', by rintro _ ⟨⟩⟩
    · cases rest

end Prepare

/-! ### Documents -/

section

variable [Codec]

theorem addDocIndexingData_leaves (wf : b.WF) (cached : DocIdxCache) :
    Leaves Later WF (fun _ _ => True) b (b.addDocIndexingData cached) := by
  intro b' r run
  have follows := addDocIndexingData_follows wf.shows cached
  rw [run] at follows
  obtain ⟨later, _, shows, _⟩ := follows.ok_left
  exact ⟨later, shows.wf, fun _ _ => trivial⟩

variable [FloatOps]

theorem buildEntries_leaves (wf : b.WF) (loops : MapLoops) (doc : Document) (cons : List (Conjunction × Nat)) :
    Leaves Later WF (fun _ _ => True) b (b.buildEntries loops doc cons) := by
  have prepared : Leaves Later WF (fun b cds => ∀ cd ∈ cds, ∀ d ∈ cd, b.Prepared d) b
      (mapCalls (prepareConj loops doc.id) b cons) :=
    Leaves.mapCalls Later.refl Later.trans (fun _ _ _ later out d mem => (out d mem).later later)
      (fun conj _ b wf => prepareConj_leaves wf loops doc.id conj) wf
  refine Leaves.andThen Later.trans prepared fun b₁ found _ wf₁ ready => ?_
  intro b' r run
  obtain ⟨b₂, commits, done⟩ := map_eq_ok.mp run
  obtain ⟨rfl, rfl⟩ := Prod.mk.inj done
  have tracks := commitConjs_tracks wf₁.shows fun cd mem => ready _ (List.reduceOption_mem_iff.mp mem) cd rfl
  rw [commits] at tracks
  obtain ⟨_, _, indexed, shows⟩ := tracks.ok_left
  exact ⟨Later.trans _ _ _ indexed.later (Later.saveEntry ..), (shows.saveEntry ..).wf, fun _ _ => trivial⟩

theorem addOne_leaves (wf : b.WF) (loops : MapLoops) (doc : Document) :
    Leaves Later WF (fun _ _ => True) b (addOne loops b doc) := by
  have first : Leaves Later WF (fun _ _ => True) b (settle b (validDocument doc)) := settle_leaves Later.refl wf
  refine Leaves.andThen Later.trans first fun b₁ _ _ wf₁ _ => ?_
  intro b' r run
  obtain ⟨_, _, rest⟩ := bind_eq_ok.mp run
  obtain ⟨_, _, rest⟩ := bind_eq_ok.mp rest
  split at rest
  · exact addDocIndexingData_leaves wf₁ _ b' r rest
  · exact buildEntries_leaves wf₁ loops doc _ b' r rest

theorem addDocument_leaves (wf : b.WF) (loops : MapLoops) (docs : List Document) :
    Leaves Later WF (fun _ _ => True) b (b.addDocument loops docs) := by
  have loop : Leaves Later WF (fun _ done => ∀ turn ∈ done, True) b (mapCalls (addOne loops) b docs) :=
    Leaves.mapCalls Later.refl Later.trans (fun _ _ _ _ out => out)
      (fun doc _ b wf => addOne_leaves wf loops doc) wf
  exact Leaves.andThen Later.trans loop fun b' _ _ wf' _ => Leaves.done Later.refl wf' trivial

end

/-! ### All calls -/

theorem initIndexer_wf {type : IndexerType} {idx : BEIndex} (made : initIndexer type = .ok idx) (t : FieldTable) :
    (∀ k, (idx.container k).Fits t) ∧ idx.base.wildcardEntries = [] := by
  cases type with
  | default =>
    obtain rfl := Except.ok.inj made
    exact ⟨fun k => EntriesContainer.fresh_fits t, rfl⟩
  | compact =>
    obtain rfl := Except.ok.inj made
    exact ⟨fun k => EntriesContainer.fresh_fits t, rfl⟩
  | other n => cases made

theorem configField_wf (wf : b.WF) {field : BEField} {container : GoString}
    (run : b.configField loops field container = .ok b') : b'.WF :=
  (configField_shows wf.shows run).2.wf

theorem buildIndex_wf [AhoMachine] (wf : b.WF) (run : b.buildIndex = .ok b') : b'.WF := by
  obtain ⟨only, containers, sizes, _, _, wildcard⟩ := buildIndex_spec run
  refine ⟨fun k => ?_, fun nonempty => ?_⟩
  · rw [only]
    exact EntriesContainer.compile_fits (wf.fits k) (containers k)
  · rw [wildcard, ne_eq, sortEntries_eq_nil] at nonempty
    exact (sizes 0).mpr (wf.wildcard nonempty)

variable [FloatOps] [Codec] [AhoMachine]

theorem step_wf (wf : b.WF) {op : Op} (run : b.step op = .ok b') : b'.WF := by
  cases op with
  | configField loops field container => exact configField_wf wf run
  | addDocument loops docs =>
    obtain ⟨⟨b₁, r⟩, added, rfl⟩ := map_eq_ok.mp run
    exact (addDocument_leaves wf loops docs _ _ added).2.1
  | addDocIndexingData cached =>
    obtain ⟨⟨b₁, r⟩, added, rfl⟩ := map_eq_ok.mp run
    exact (addDocIndexingData_leaves wf cached _ _ added).2.1
  | buildIndex => exact buildIndex_wf wf run
  | reset =>
    obtain ⟨idx, made, done⟩ := bind_eq_ok.mp run
    obtain rfl := Except.ok.inj done
    obtain ⟨fits, empty⟩ := initIndexer_wf made b.fieldsData
    exact ⟨fits, fun nonempty => absurd empty nonempty⟩
  | shareCache cache =>
    obtain rfl := Except.ok.inj run
    exact ⟨wf.fits, wf.wildcard⟩

theorem run_wf {option : BuilderOption} {ops : List Op} (reached : run option ops = .ok b) : b.WF := by
  obtain ⟨b₀, made, steps⟩ := bind_eq_ok.mp reached
  have start : b₀.WF := by
    obtain ⟨idx, init, done⟩ := bind_eq_ok.mp made
    obtain rfl := Except.ok.inj done
    obtain ⟨fits, empty⟩ := initIndexer_wf init .empty
    exact ⟨fits, fun nonempty => absurd empty nonempty⟩
  clear made reached
  induction ops generalizing b₀ with
  | nil =>
    obtain rfl := Except.ok.inj steps
    exact start
  | cons op ops ih =>
    rw [List.foldlM_cons] at steps
    obtain ⟨b₁, step, rest⟩ := bind_eq_ok.mp steps
    exact ih b₁ rest (step_wf start step)

end IndexerBuilder

end BeIndexer
