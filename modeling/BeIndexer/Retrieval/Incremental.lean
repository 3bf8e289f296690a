import BeIndexer.Retrieval.Agreement

/-!
# Building an index several times

A builder goes on taking documents after `BuildIndex`. The default container keeps what it has, but
compiling the range container moves the cells of its intervals to where a second `Compile` drops them,
and leaves none for intervals that come later. As long as no interval meets either, it does not matter
when an index was built.
-/

namespace BeIndexer

open Calls IndexerBuilder

/-! ### Compiling again -/

/-- Nothing was placed in the cells since they were compiled. -/
def RangeIdx.Idle (rix : RangeIdx) : Prop := ∀ pl ∈ rix.items, pl.entries = []

theorem RangeIdx.Idle.covers {rix : RangeIdx} (idle : rix.Idle) (v : Int64) (e : EntryID) : ¬ rix.Covers v e := by
  intro covers
  rw [Covers, cellEntries] at covers
  cases found : rix.items.find? fun pl => pl.containValue v with
  | none => rw [found] at covers; cases covers
  | some pl =>
    rw [found] at covers
    have empty := idle pl (List.mem_of_find?_eq_some found)
    change e ∈ pl.entries at covers
    rw [empty] at covers
    cases covers

theorem RangeHolder.compile_covers_iff {h : RangeHolder} (idle : h.rangeIdx.Idle) (v : Int64) (e : EntryID) :
    h.compileEntries.Covers v e ↔ h.Covers v e := by
  constructor
  · intro covers
    exact Or.inl (compile_covers covers)
  · rintro (point | interval)
    · exact Or.inl (mem_sortEntries.mpr point)
    · exact absurd interval (idle.covers v e)

namespace Postings

def Idle : Postings → Prop
  | .range h => h.rangeIdx.Idle
  | _ => True

theorem fresh_idle {container : GoString} (named : container ∈ servedNames) : (fresh container).Idle := by
  simp only [servedNames, List.mem_cons, List.not_mem_nil, or_false] at named
  rcases named with rfl | rfl
  · trivial
  · intro pl mem
    obtain rfl := List.mem_singleton.mp mem
    rfl

/-- Compiling changes no answer if nothing is lost. -/
theorem compile_standard [FloatOps] [AhoMachine] {h h' : EntriesHolder} {id : Nat} (standard : (ofHolder id h).Standard)
    (idle : (ofHolder id h).Idle) (run : h.compileEntries = .ok h') :
    (ofHolder id h').Standard ∧ ∀ v e, (ofHolder id h').Answers v e ↔ (ofHolder id h).Answers v e := by
  cases h with
  | default h =>
    obtain rfl := Except.ok.inj run
    refine ⟨trivial, fun v e => ?_⟩
    simp only [ofHolder, Answers, DefaultEntriesHolder.compileEntries, mem_sortEntries]
  | range h =>
    obtain rfl := Except.ok.inj run
    refine ⟨standard, fun v e => ?_⟩
    have covers : ∀ id, h.compileEntries.Covers id e ↔ h.Covers id e :=
      fun id => RangeHolder.compile_covers_iff idle id e
    simp only [ofHolder, Answers, covers]
    rfl
  | optimizedRange h => exact standard.elim
  | acMatcher h => exact standard.elim

end Postings

namespace IndexerBuilder

variable [AhoMachine] {b b' : IndexerBuilder}

/-- No range is in cells that another compile would drop. -/
def Idle (b : IndexerBuilder) : Prop := ∀ k f, (b.store.posts k f).Idle

theorem buildIndex_marked (run : b.buildIndex = .ok b') (m : Mark) : b'.Marked m ↔ b.Marked m := by
  obtain ⟨only, containers, sizes, _, _, _⟩ := buildIndex_spec run
  cases m with
  | size k => exact sizes k
  | holder k f =>
    have table : b'.fieldsData = b.fieldsData := by rw [only]
    simp only [Marked, table]
    refine exists_congr fun desc => and_congr_right fun _ => not_congr ?_
    rcases EntriesContainer.compile_getFieldHolder (containers k) desc with ⟨before, after⟩ | ⟨h, h', before, after, _⟩
    · rw [before, after]
    · rw [before, after]
      simp

omit [AhoMachine] in
theorem unused_idle (unused : ∀ k, b.indexer.container k = newFieldEntriesContainer)
    (named : ∀ f, b.containers f ∈ Postings.servedNames) : b.Idle ∧ b.store.Uncompiled := by
  have posts : ∀ k f, b.store.posts k f = .fresh (b.containers f) := by
    intro k f
    simp only [IndexerBuilder.store, unused]
    exact fresh_postings b f
  refine ⟨fun k f => ?_, fun k f => ?_⟩
  · rw [posts]
    exact Postings.fresh_idle (named f)
  · rw [posts]
    exact (Postings.open_iff.mp (Postings.fresh_open (named f))).2

theorem buildIndex_unused (unused : ∀ k, b.indexer.container k = newFieldEntriesContainer)
    (run : b.buildIndex = .ok b') (k : Nat) : b'.indexer.container k = newFieldEntriesContainer := by
  have compiled := (buildIndex_spec run).2.1 k
  rw [unused, EntriesContainer.compile_fresh] at compiled
  exact (Except.ok.inj compiled).symm

variable [FloatOps] {C : BEField → GoString} {B : BadConjBehavior} {came : Set DocID} {ids : List DocID}
  {all : List ConjTx}

theorem Taking.buildIndex (taking : Taking C B came ids b all) (idle : b.Idle) (run : b.buildIndex = .ok b') :
    Taking C B came ids b' all := by
  have wf := buildIndex_wf taking.shows.wf run
  obtain ⟨only, containers, _, kind, _, wildcard⟩ := buildIndex_spec run
  have table : b'.fieldsData = b.fieldsData := by rw [only]
  have each : ∀ k f, (b'.store.posts k f).Standard ∧
      ∀ v e, (b'.store.posts k f).Answers v e ↔ (b.store.posts k f).Answers v e := by
    intro k f
    have standard := taking.took.keeps.recalls.standard k f
    have idle := idle k f
    simp only [IndexerBuilder.store, table] at standard idle ⊢
    rcases EntriesContainer.compile_postings b.fieldsData f (containers k) with
      same | ⟨id, h, h', before, after, compiled⟩
    · rw [same]
      exact ⟨standard, fun _ _ => Iff.rfl⟩
    · rw [before] at standard idle ⊢
      rw [after]
      exact Postings.compile_standard standard idle compiled
  have slot : ∀ k k', b'.store.Slot k k' ↔ b.store.Slot k k' := fun k k' => by
    simp only [Store.Slot, IndexerBuilder.store, kind]
  refine ⟨⟨wf, rfl, ?_, ?_⟩, ?_, ⟨⟨fun k f => (each k f).1, fun k f v e => ?_⟩, fun e => ?_⟩, taking.took.formed,
    taking.took.taken, taking.took.distinct⟩
  · rw [← taking.shows.containers, only]
    rfl
  · rw [← taking.shows.behavior, only]
  · rw [only]
    exact taking.cached
  · rw [(each k f).2, taking.took.keeps.recalls.answers]
    simp only [slot]
  · rw [← taking.took.keeps.wildcard]
    simp only [IndexerBuilder.store, wildcard, mem_sortEntries]

end IndexerBuilder

section InStep

variable [FloatOps] {C : BEField → GoString}

theorem Conjunction.InStep.symm {c d : Conjunction} (inStep : c.InStep C d) : d.InStep C c := by
  rcases inStep with rfl | ⟨same, prepared⟩
  · exact Or.inl rfl
  · exact Or.inr ⟨same.symm, fun expr mem => prepared expr ((exprList_perm same).mem_iff.mpr mem)⟩

theorem Document.InStep.symm {d e : Document} (inStep : d.InStep C e) : e.InStep C d :=
  ⟨inStep.1.symm, inStep.2.1.symm, inStep.2.2.flip.imp fun _ _ inStep => Conjunction.InStep.symm inStep⟩

theorem inStep_ids {ds es : List Document} (inStep : List.Forall₂ (Document.InStep C) ds es) :
    es.map Document.id = ds.map Document.id := by
  induction inStep with
  | nil => rfl
  | cons head _ ih => rw [List.map_cons, List.map_cons, head.1, ih]

end InStep

/-! ### Two builders, one of them built in between -/

/-- Calls on two builders: the first is built again and again, the second gets the same documents and is
not. `InStep` says which visits of one document are meant, `MayAdd` and `MayBuild` limit the calls on the
first builder. -/
inductive Interleaved [FloatOps] [Codec] [AhoMachine] (InStep : (BEField → GoString) → Document → Document → Prop)
    (MayAdd : IndexerBuilder → Document → Prop) (MayBuild : IndexerBuilder → Prop) (option : BuilderOption) :
    List Document → List Document → IndexerBuilder → IndexerBuilder → Prop
  | new {b : IndexerBuilder} (made : newIndexerBuilder option = .ok b) :
      Interleaved InStep MayAdd MayBuild option [] [] b b
  | configured {docs₁ docs₂ : List Document} {b₁ b₁' b₂ b₂' : IndexerBuilder} {loops₁ loops₂ : MapLoops}
      {field : BEField} {container : GoString} (before : Interleaved InStep MayAdd MayBuild option docs₁ docs₂ b₁ b₂)
      (named : container.isEmpty = true ∨ container ∈ Postings.servedNames)
      (run₁ : b₁.configField loops₁ field container = .ok b₁')
      (run₂ : b₂.configField loops₂ field container = .ok b₂') :
      Interleaved InStep MayAdd MayBuild option docs₁ docs₂ b₁' b₂'
  | added {docs₁ docs₂ more₁ more₂ : List Document} {b₁ b₁' b₂ b₂' : IndexerBuilder} {loops₁ loops₂ : MapLoops}
      {r₁ r₂ : Except GoError Unit} (before : Interleaved InStep MayAdd MayBuild option docs₁ docs₂ b₁ b₂)
      (inStep : List.Forall₂ (InStep b₁.containers) more₁ more₂) (may : ∀ doc ∈ more₁, MayAdd b₁ doc)
      (run₁ : b₁.addDocument loops₁ more₁ = .ok (b₁', r₁)) (run₂ : b₂.addDocument loops₂ more₂ = .ok (b₂', r₂)) :
      Interleaved InStep MayAdd MayBuild option (docs₁ ++ more₁) (docs₂ ++ more₂) b₁' b₂'
  | built {docs₁ docs₂ : List Document} {b₁ b₁' b₂ : IndexerBuilder}
      (before : Interleaved InStep MayAdd MayBuild option docs₁ docs₂ b₁ b₂) (may : MayBuild b₁)
      (run : b₁.buildIndex = .ok b₁') : Interleaved InStep MayAdd MayBuild option docs₁ docs₂ b₁' b₂

section

variable [FloatOps] [Codec] [AhoMachine] {option : BuilderOption} {docs₁ docs₂ : List Document}
  {b₁ b₁' b₂ b₂' : IndexerBuilder}

theorem Interleaved.twins {came : Set DocID}
    (run : Interleaved Document.InStep
      (fun b doc => b.store.Fits b.containers doc) IndexerBuilder.Idle option docs₁ docs₂ b₁ b₂)
    (cached : ∀ cache ∈ option.docLevelCache, ∀ key entry, cache key = some entry → key.docID ∈ came)
    (unseen : ∀ doc ∈ docs₁, doc.id ∉ came) (distinct : (docs₁.map Document.id).Nodup) :
    ∃ C, Twins C option.badConjBehavior came (docs₁.map Document.id) b₁ b₂ ∧
      Twins C option.badConjBehavior came (docs₁.map Document.id) b₂ b₁ ∧ b₂.store.Uncompiled := by
  induction run with
  | new made =>
    obtain ⟨taking, uncompiled, _, _⟩ := new_taking made cached
    have twins : Twins _ option.badConjBehavior came [] _ _ :=
      ⟨fun _ => List.mem_cons_self, fun compact => compact, fun _ marked => marked, [], [], taking, taking, .nil⟩
    exact ⟨_, twins, twins, uncompiled⟩
  | configured before named run₁ run₂ ih =>
    obtain ⟨C, forth, back, uncompiled⟩ := ih unseen distinct
    obtain ⟨forth', _, grows⟩ := forth.configField named run₁ run₂
    exact ⟨_, forth', (back.configField named run₂ run₁).1, grows.uncompiled uncompiled⟩
  | @added docs₁ docs₂ more₁ more₂ b₁ _ b₂ _ loops₁ loops₂ _ _ before inStep may run₁ run₂ ih =>
    rw [List.map_append] at distinct ⊢
    obtain ⟨C, forth, back, uncompiled⟩ :=
      ih (fun doc mem => unseen doc (List.mem_append_left _ mem)) (List.nodup_append.mp distinct).1
    obtain ⟨_, _, taking, _, _⟩ := forth.taken
    simp only [taking.shows.containers] at inStep may
    obtain ⟨_, loop₁⟩ := andThen_left run₁
    obtain ⟨_, loop₂⟩ := andThen_left run₂
    have unseen₁ : ∀ doc ∈ more₁, doc.id ∉ came := fun doc mem => unseen doc (List.mem_append_right _ mem)
    have ids := inStep_ids inStep
    have unseen₂ : ∀ doc ∈ more₂, doc.id ∉ came := by
      intro doc mem
      have listed : doc.id ∈ more₂.map Document.id := List.mem_map_of_mem mem
      rw [ids] at listed
      obtain ⟨doc', mem', same⟩ := List.mem_map.mp listed
      rw [← same]
      exact unseen₁ doc' mem'
    have fits₂ : ∀ doc ∈ more₂, b₂.store.Fits C doc := fun doc _ => uncompiled.fits C doc
    obtain ⟨forth', _, grows⟩ := forth.addDocs inStep unseen₁ distinct may fits₂ loop₁ loop₂
    have swapped := inStep.flip.imp fun _ _ inStep => Document.InStep.symm inStep
    rw [← ids] at distinct
    obtain ⟨back', _, _⟩ := back.addDocs swapped unseen₂ distinct fits₂ may loop₂ loop₁
    rw [ids] at back'
    exact ⟨C, forth', back', grows.uncompiled uncompiled⟩
  | built before may run ih =>
    obtain ⟨C, forth, back, uncompiled⟩ := ih unseen distinct
    have marks := buildIndex_marked run
    have kind := (buildIndex_spec run).2.2.2.1
    obtain ⟨all₁, all₂, taking₁, taking₂, same⟩ := forth.taken
    have taking₁' := taking₁.buildIndex may run
    have same' : List.Forall₂ ConjTx.Same all₂ all₁ := same.flip.imp fun _ _ same => ConjTx.Same.symm same
    refine ⟨C, ⟨forth.named, ?_, ?_, all₁, all₂, taking₁', taking₂, same⟩,
      ⟨back.named, ?_, ?_, all₂, all₁, taking₂, taking₁', same'⟩, uncompiled⟩
    · rw [kind]
      exact forth.kinds
    · exact fun m marked => forth.marks m ((marks m).mp marked)
    · rw [kind]
      exact back.kinds
    · exact fun m marked => (marks m).mpr (back.marks m marked)

/-- As long as `BuildIndex` finds no interval in the cells of a range field, no interval comes to cells that
are compiled, and no document is restored from what the cache came with, an index that was built in
between answers as one that was built once. -/
theorem build_incremental
    (run : Interleaved Document.InStep
      (fun b doc => b.store.Fits b.containers doc) IndexerBuilder.Idle option docs₁ docs₂ b₁ b₂)
    (unseen : ∀ cache ∈ option.docLevelCache, ∀ doc ∈ docs₁, ∀ version, cache ⟨doc.id, version⟩ = none)
    (distinct : (docs₁.map Document.id).Nodup) (built₁ : b₁.buildIndex = .ok b₁') (built₂ : b₂.buildIndex = .ok b₂')
    (q : Assignments) (visits₁ visits₂ : Nat → GoMap.Visit q) (found : List DocID) :
    b₁'.indexer.retrieve q visits₁ = .ok found ↔ b₂'.indexer.retrieve q visits₂ = .ok found := by
  let came : Set DocID := {id | ∃ cache ∈ option.docLevelCache, ∃ version, cache ⟨id, version⟩ ≠ none}
  have cached : ∀ cache ∈ option.docLevelCache, ∀ key entry, cache key = some entry → key.docID ∈ came :=
    fun cache had key entry held => ⟨cache, had, key.version, by rw [held]; simp⟩
  have others : ∀ doc ∈ docs₁, doc.id ∉ came := by
    rintro doc mem ⟨cache, had, version, held⟩
    exact held (unseen cache had doc mem version)
  obtain ⟨C, forth, back, _⟩ := run.twins cached others distinct
  have grouped : ∀ {x y : IndexerBuilder}, (y.indexer.isCompact = true → x.indexer.isCompact = true) →
      x.indexer.isCompact = false → y.indexer.isCompact = false := by
    intro x y kinds grouped
    rw [← Bool.not_eq_true] at grouped ⊢
    exact fun compact => grouped (kinds compact)
  constructor
  · intro ran
    have canRead := retrieve_canRead built₁ ran
    exact back.agree built₂ built₁ (fun kind => canRead.plain (grouped forth.kinds kind)) visits₂ visits₁ ran
  · intro ran
    have canRead := retrieve_canRead built₂ ran
    exact forth.agree built₁ built₂ (fun kind => canRead.plain (grouped back.kinds kind)) visits₁ visits₂ ran

omit [FloatOps] [Codec] [AhoMachine] in
/-- The index is built before the range field has a holder, and again when it has an interval. -/
theorem build_incremental_early :
    letI := FloatOps.noFloats
    letI := Codec.single [] [] ⟨.eq, false, []⟩ []
    letI := AhoMachine.naive
    let doc : Document := ⟨7, 0, [⟨AList.singleton (str "age") [⟨true, .int64Pair 0 1000, .between⟩]⟩]⟩
    let q : Assignments := AList.singleton (str "age") (.scalar (.int .int 5))
    ∃ b₁ b₁' b₂ b₂', Interleaved Document.InStep (fun b doc => b.store.Fits b.containers doc) IndexerBuilder.Idle
        ⟨.default, .error, none⟩ [doc] [doc] b₁ b₂ ∧ b₁.buildIndex = .ok b₁' ∧ b₂.buildIndex = .ok b₂' ∧
      b₂'.indexer.retrieve q (fun _ => ⟨q.entries, .refl _⟩) = .ok [7] ∧
      b₁'.indexer.retrieve q (fun _ => ⟨q.entries, .refl _⟩) = .ok [7] := by
  let _ := FloatOps.noFloats
  let _ := Codec.single [] [] ⟨.eq, false, []⟩ []
  let _ := AhoMachine.naive
  intro doc q
  obtain ⟨x, made, run⟩ := okAnd_iff.mp (show okAnd (fun b => okAnd (fun b =>
    okAnd (fun b₁ => finished (fun b₁ _ => okAnd (fun _ => finished (fun b₂ _ => okAnd (fun b₂' =>
      okAnd (fun found => found == [7]) (b₂'.indexer.retrieve q fun _ => ⟨q.entries, .refl _⟩)) b₂.buildIndex)
      (b.addDocument .id [doc])) b₁.buildIndex) (b₁.addDocument .id [doc])) b.buildIndex)
    (b.configField .id (str "age") HolderNameExtendRange))
      (newIndexerBuilder ⟨.default, .error, none⟩) = true by decide +kernel)
  obtain ⟨y, configured, run⟩ := okAnd_iff.mp run
  obtain ⟨z, early, run⟩ := okAnd_iff.mp run
  obtain ⟨b₁, _, added₁, run⟩ := finished_iff.mp run
  obtain ⟨b₁', built₁, run⟩ := okAnd_iff.mp run
  obtain ⟨b₂, _, added₂, run⟩ := finished_iff.mp run
  obtain ⟨b₂', built₂, run⟩ := okAnd_iff.mp run
  obtain ⟨found, ran, isSeven⟩ := okAnd_iff.mp run
  obtain rfl := beq_iff_eq.mp isSeven
  have named : HolderNameExtendRange ∈ Postings.servedNames := List.mem_cons_of_mem _ List.mem_cons_self
  have containers := (configField_shows (Accepted.new_shows made).1 configured).2.containers
  have served : ∀ f, y.containers f ∈ Postings.servedNames := by
    intro f
    rw [containers, Function.update_apply]
    split
    · exact named
    · exact List.mem_cons_self
  have unused : ∀ k, y.indexer.container k = newFieldEntriesContainer := by
    obtain ⟨_, _, same⟩ := configField_cases configured
    obtain rfl := Except.ok.inj made
    rw [same]
    exact fun k => rfl
  have later : z.containers = y.containers := by
    rw [(buildIndex_spec early).1]
    rfl
  have idle := (unused_idle unused served).1
  have uncompiled := (unused_idle (buildIndex_unused unused early) (later ▸ served)).2
  have inStep : doc.InStep z.containers doc := ⟨rfl, rfl, .cons (Or.inl rfl) .nil⟩
  have whole : Interleaved Document.InStep (fun b doc => b.store.Fits b.containers doc) IndexerBuilder.Idle
      ⟨.default, .error, none⟩ [doc] [doc] b₁ b₂ :=
    .added (.built (.configured (.new made) (Or.inr named) configured configured) idle early) (.cons inStep .nil)
      (fun doc _ => uncompiled.fits _ doc) added₁ added₂
  refine ⟨b₁, b₁', b₂, b₂', whole, built₁, built₂, ran, ?_⟩
  exact (build_incremental whole (by rintro _ ⟨⟩) (by simp) built₁ built₂ q _ _ [7]).mpr ran

omit [FloatOps] [Codec] [AhoMachine] in
/-- The interval is gone after `BuildIndex` was called twice. -/
theorem build_incremental_twice :
    letI := FloatOps.noFloats
    letI := Codec.single [] [] ⟨.eq, false, []⟩ []
    letI := AhoMachine.naive
    let doc : Document := ⟨7, 0, [⟨AList.singleton (str "age") [⟨true, .int64Pair 0 1000, .between⟩]⟩]⟩
    let q : Assignments := AList.singleton (str "age") (.scalar (.int .int 5))
    ∃ b₁ b₁' b₂ b₂', Interleaved Document.InStep (fun _ _ => True) (fun _ => True)
      ⟨.default, .error, none⟩ [doc] [doc] b₁ b₂ ∧
      b₁.buildIndex = .ok b₁' ∧ b₂.buildIndex = .ok b₂' ∧
      b₂'.indexer.retrieve q (fun _ => ⟨q.entries, .refl _⟩) = .ok [7] ∧
      b₁'.indexer.retrieve q (fun _ => ⟨q.entries, .refl _⟩) = .ok [] := by
  let _ := FloatOps.noFloats
  let _ := Codec.single [] [] ⟨.eq, false, []⟩ []
  let _ := AhoMachine.naive
  intro doc q
  obtain ⟨x, made, run⟩ := okAnd_iff.mp (show okAnd (fun b => okAnd (fun b => finished (fun b _ => okAnd (fun b' =>
      okAnd (fun b'' => okAnd (fun found => found == [])
        (b''.indexer.retrieve q fun _ => ⟨q.entries, .refl _⟩)) b'.buildIndex &&
      okAnd (fun found => found == [7]) (b'.indexer.retrieve q fun _ => ⟨q.entries, .refl _⟩)) b.buildIndex)
      (b.addDocument .id [doc])) (b.configField .id (str "age") HolderNameExtendRange))
    (newIndexerBuilder ⟨.default, .error, none⟩) = true by decide +kernel)
  obtain ⟨y, configured, run⟩ := okAnd_iff.mp run
  obtain ⟨b, _, added, run⟩ := finished_iff.mp run
  obtain ⟨b', built, run⟩ := okAnd_iff.mp run
  obtain ⟨again, once⟩ := Bool.and_eq_true_iff.mp run
  obtain ⟨b'', built', run⟩ := okAnd_iff.mp again
  obtain ⟨_, lost, isEmpty⟩ := okAnd_iff.mp run
  obtain rfl := beq_iff_eq.mp isEmpty
  obtain ⟨_, found, isSeven⟩ := okAnd_iff.mp once
  obtain rfl := beq_iff_eq.mp isSeven
  have named : HolderNameExtendRange ∈ Postings.servedNames := List.mem_cons_of_mem _ List.mem_cons_self
  have inStep : doc.InStep y.containers doc := ⟨rfl, rfl, .cons (Or.inl rfl) .nil⟩
  exact ⟨b', b'', b, b', .built (.added (.configured (.new made) (Or.inr named) configured configured)
    (.cons inStep .nil) (fun _ _ => trivial) added added) trivial built, built', built, found, lost⟩

end

end BeIndexer
