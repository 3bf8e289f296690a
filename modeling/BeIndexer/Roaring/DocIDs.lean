import BeIndexer.Roaring.Hints

/-!
# Document ids through the roaring index (`conjunction_types.go`)

A conjunction id is a word that has the document id above the index of the conjunction. Both are read
back from it. `Retrieve` returns document ids as unsigned words; as every id that a scanner holds was
made for a document that was added, or for a hint, these words are their ids.
-/

namespace BeIndexer.Roaring

open Calls

/-! ### One word -/

/-- The indices and document ids that `NewConjunctionID` accepts. -/
def Fits (idx : Int) (doc : Int64) : Prop := 0 ≤ idx ∧ idx ≤ 255 ∧ |doc.toInt| ≤ MaxDocumentID

theorem newConjunctionID_fits {idx : Int} {doc : Int64} (fits : Fits idx doc) :
    newConjunctionID idx doc = .ok ((doc <<< 8).toUInt64 ||| idx.toNat.toUInt64) := by
  obtain ⟨low, high, small⟩ := fits
  obtain ⟨below, above⟩ := abs_le.mp small
  unfold newConjunctionID validIdxOrSize validRoaringIdxDocID
  rw [if_neg]
  simp only [Bool.or_eq_true, Bool.not_eq_true', Bool.and_eq_false_iff, decide_eq_false_iff_not]
  omega

theorem newConjunctionID_rejects {idx : Int} {doc : Int64} (unfit : ¬ Fits idx doc) :
    ∃ e, newConjunctionID idx doc = .error (.err e) := by
  unfold newConjunctionID
  rw [if_pos]
  · exact ⟨_, rfl⟩
  · unfold Fits at unfit
    rw [abs_le] at unfit
    simp only [validIdxOrSize, validRoaringIdxDocID, Bool.or_eq_true, Bool.not_eq_true', Bool.and_eq_false_iff,
      decide_eq_false_iff_not]
    omega

theorem idx_newConjunctionID {idx : Nat} {doc : Int64} {id : ConjunctionID}
    (made : newConjunctionID idx doc = .ok id) : (ConjunctionID.idx id).toNat = idx := by
  have packed := newConjunctionID_toNat made
  obtain ⟨small, _⟩ := newConjunctionID_ok made
  unfold ConjunctionID.idx MaxConjunctions
  rw [UInt64.toNat_toUInt8, UInt64.toNat_and, show (0xFF : UInt64).toNat = 2 ^ 8 - 1 from rfl,
    Nat.and_two_pow_sub_one_eq_mod]
  omega

theorem natural_of_made {idx : Int} {doc : Int64} {id : ConjunctionID} (made : newConjunctionID idx doc = .ok id) :
    ∃ n : Nat, idx = n := by
  by_contra none
  have unfit : ¬ Fits idx doc := fun fits => none ⟨idx.toNat, (Int.toNat_of_nonneg fits.1).symm⟩
  obtain ⟨e, refused⟩ := newConjunctionID_rejects unfit
  rw [made] at refused
  cases refused

/-! ### Ids in the bitmaps -/

namespace IvtBEIndexerBuilder

variable {b b' : IvtBEIndexerBuilder} {docs : List Document}

/-- A builder after any calls that returned. `docs` are the documents it was given, accepted or not. -/
def Given (b : IvtBEIndexerBuilder) (docs : List Document) : Prop := Run (fun _ => True) (fun _ => True) b docs

/-- Every id in a bitmap names a conjunction of one of the documents. -/
def Named (b : IvtBEIndexerBuilder) (docs : List Document) : Prop :=
  ∀ field slot id, id ∈ b.bitmap field slot → ∃ conj, Names docs id conj

theorem write_named {orders : Nat → KeyOrder} {doc : Document} {w : Write} (mem : w ∈ upTo (docSteps orders b doc)) :
    ∃ conj, Names [doc] w.id conj := by
  obtain ⟨ws, listed, held⟩ := exists_of_mem_upTo mem
  obtain ⟨conj, inside, listed⟩ := List.mem_flatMap.mp listed
  unfold conjSteps at listed
  cases made : newConjunctionID conj.2 doc.id with
  | error fault => simp [made] at listed
  | ok id =>
    simp only [made] at listed
    split at listed
    · simp [errorf] at listed
    · obtain ⟨field, _, listed⟩ := List.mem_flatMap.mp listed
      unfold fieldSteps at listed
      split at listed
      · cases listed
      · obtain ⟨step, _, same⟩ := List.mem_map.mp listed
        obtain ⟨slots, _, rfl⟩ := map_eq_ok.mp same
        obtain ⟨slot, _, rfl⟩ := List.mem_map.mp held
        exact ⟨conj.1, doc, List.mem_singleton_self doc, conj.2, inside, made⟩

theorem addDocument_named {orders : Nat → KeyOrder} {doc : Document} {r : Except GoError Unit} (named : b.Named docs)
    (run : b.addDocument orders doc = .ok (b', r)) : b'.Named (docs ++ [doc]) := by
  intro field slot id mem
  rcases ((addDocument_wrote run).2 field slot id).mp mem with before | new
  · obtain ⟨conj, other, inDocs, rest⟩ := named field slot id before
    exact ⟨conj, other, List.mem_append_left _ inDocs, rest⟩
  · obtain ⟨conj, other, isDoc, rest⟩ := write_named new
    exact ⟨conj, other, List.mem_append_right _ isDoc, rest⟩

theorem Given.named (given : b.Given docs) : b.Named docs := by
  induction given with
  | new defaultParser => exact fun _ _ _ mem => absurd mem (Finset.notMem_empty _)
  | withErrPanic panics _ ih => exact ih
  | configured _ _ run ih =>
    exact fun field slot id mem => ih field slot id ((configureField_bitmap run).2 field slot id mem)
  | added _ run _ ih => exact addDocument_named ih run

end IvtBEIndexerBuilder

/-! ### Ids in a scanner -/

namespace IvtScanner

variable {indexer : IvtBEIndexer} {q : Assignments} {s s' : IvtScanner} {hints : List Int64}

/-- A scanner of an index after any calls that returned. `hints` are those it was given since it was new or reset. -/
def Used (indexer : IvtBEIndexer) (s : IvtScanner) (hints : List Int64) : Prop :=
  ∃ calls, Run indexer s calls ∧ calls.flatMap Request.hints = hints

/-- The id was made for a document, or for a hint. -/
def Known (docs : List Document) (hints : List Int64) (id : ConjunctionID) : Prop :=
  ∃ (idx : Nat) (doc : Int64), newConjunctionID idx doc = .ok id ∧ (doc ∈ docs.map Document.id ∨ doc ∈ hints)

theorem mergeFieldResult_subset (s : IvtScanner) (pl : PostingList) :
    (s.mergeFieldResult pl).indexer = s.indexer ∧ (s.mergeFieldResult pl).conjIDResults ⊆ s.conjIDResults ∪ pl := by
  unfold mergeFieldResult
  simp only
  split
  · exact ⟨rfl, Finset.subset_union_left⟩
  · split
    · exact ⟨rfl, Finset.inter_subset_left.trans Finset.subset_union_left⟩
    · exact ⟨rfl, subset_rfl⟩

theorem retrieveFrom_holds {es : List (Sigma fun _ : BEField => BEContainer)} {r : Except GoError Unit}
    (run : s.retrieveFrom q es = .ok (s', r)) :
    s'.indexer = s.indexer ∧ ∀ id ∈ s'.conjIDResults, id ∈ s.conjIDResults ∨
      ∃ e ∈ es, ∃ pl, answer q e = .ok pl ∧ id ∈ pl := by
  induction es generalizing s with
  | nil =>
    obtain ⟨rfl, _⟩ := Prod.mk.inj (Except.ok.inj run)
    exact ⟨rfl, fun id mem => Or.inl mem⟩
  | cons e es ih =>
    cases ended : s.ended with
    | true =>
      rw [retrieveFrom_ended ended] at run
      obtain ⟨rfl, _⟩ := Prod.mk.inj (Except.ok.inj run)
      exact ⟨rfl, fun id mem => Or.inl mem⟩
    | false =>
      cases answered : answer q e with
      | ok pl =>
        rw [retrieveFrom_step ended answered] at run
        obtain ⟨same, merged⟩ := s.mergeFieldResult_subset pl
        obtain ⟨kept, held⟩ := ih run
        refine ⟨kept.trans same, fun id mem => ?_⟩
        rcases held id mem with before | ⟨e', listed, rest⟩
        · rcases Finset.mem_union.mp (merged before) with old | new
          · exact Or.inl old
          · exact Or.inr ⟨e, List.mem_cons_self, pl, answered, new⟩
        · exact Or.inr ⟨e', List.mem_cons_of_mem _ listed, rest⟩
      | error fault =>
        cases fault with
        | err err =>
          rw [retrieveFrom_error ended answered] at run
          obtain ⟨rfl, _⟩ := Prod.mk.inj (Except.ok.inj run)
          exact ⟨rfl, fun id mem => Or.inl mem⟩
        | panic err =>
          rw [retrieveFrom_fault ended answered nofun] at run
          cases run
        | hang =>
          rw [retrieveFrom_fault ended answered nofun] at run
          cases run

theorem Known.mono {docs : List Document} {more : List Int64} {id : ConjunctionID} (known : Known docs hints id) :
    Known docs (hints ++ more) id := by
  obtain ⟨idx, doc, made, source⟩ := known
  exact ⟨idx, doc, made, source.imp_right (List.mem_append_left more)⟩

variable [AhoMachine] {b : IvtBEIndexerBuilder} {docs : List Document}

theorem Run.known {calls : List Request} (given : b.Given docs) (built : b.buildIndexer = .ok indexer)
    (ran : Run indexer s calls) : ∀ id ∈ s.conjIDResults, Known docs (calls.flatMap Request.hints) id := by
  induction ran with
  | new => exact fun id mem => absurd mem (Finset.notMem_empty id)
  | reset => exact fun id mem => absurd mem (Finset.notMem_empty id)
  | @hinted s s' calls more _ run ih =>
    obtain ⟨_, _, done⟩ := bind_eq_ok.mp run
    obtain rfl := Except.ok.inj done
    intro id mem
    rw [List.flatMap_append]
    rcases Finset.mem_union.mp mem with before | new
    · exact (ih id before).mono
    · obtain ⟨hint, inMore, idx, _, made⟩ := mem_hintConjIDs.mp (List.mem_toFinset.mp new)
      exact ⟨idx, hint, made, Or.inr (List.mem_append_right _ (by simpa [Request.hints] using inMore))⟩
  | @retrieved s s' calls q visit r before run ih =>
    intro id mem
    rw [List.flatMap_append]
    rcases (retrieveFrom_holds run).2 id mem with held | ⟨e, listed, pl, answered, inside⟩
    · exact (ih id held).mono
    · have entry : e ∈ indexer.data.entries := before.indexer ▸ visit.2.mem_iff.mp listed
      obtain ⟨slot, stored⟩ := answer_bitmap_of built entry answered inside
      obtain ⟨_, doc, inDocs, i, _, made⟩ := given.named e.1 slot id stored
      exact ⟨i, doc.id, made, Or.inl (List.mem_map_of_mem inDocs)⟩

/-- The words that `Retrieve` returns are the ids of the documents, or hinted ids, that the conjunctions
it found were made for. -/
theorem retrieve_docIDs (given : b.Given docs) (built : b.buildIndexer = .ok indexer) (used : Used indexer s hints)
    {visit : s.indexer.data.Visit} {ids : List UInt64} (run : s.retrieve q visit = .ok (s', .ok ids)) (doc : Int64) :
    doc ∈ ids.map UInt64.toInt64 ↔ (doc ∈ docs.map Document.id ∨ doc ∈ hints) ∧
      ∃ idx id, newConjunctionID idx doc = .ok id ∧ id ∈ s'.conjIDResults := by
  obtain ⟨calls, ran, rfl⟩ := used
  obtain ⟨scanned, rfl⟩ := retrieve_eq_ok.mp run
  have known : ∀ id ∈ s'.conjIDResults, Known docs (calls.flatMap Request.hints) id := by
    simpa [Request.hints] using Run.known given built (.retrieved ran scanned)
  simp only [docsOf, List.mem_map, Finset.mem_sort, Finset.mem_image]
  constructor
  · intro returned
    obtain ⟨word, ⟨id, held, asWord⟩, back⟩ := returned
    obtain ⟨idx, doc', made, source⟩ := known id held
    have same : doc' = doc := by
      rw [← back, ← asWord, docID_newConjunctionID made]
      rfl
    subst same
    exact ⟨by simpa using source, idx, id, made, held⟩
  · intro found
    obtain ⟨_, idx, id, made, held⟩ := found
    obtain ⟨n, rfl⟩ := natural_of_made made
    exact ⟨_, ⟨id, held, rfl⟩, by rw [docID_newConjunctionID made]; rfl⟩

end IvtScanner

/-- Conjunction ids are made for the indices up to 255 and the document ids up to `MaxDocumentID`, negative
ones included, and for no others. They are different for different arguments, which are read back from
them, and `Retrieve` returns the document ids that they were made for. -/
theorem newConjunctionID_faithful [AhoMachine] :
    (∀ idx doc, Fits idx doc → ∃ id, newConjunctionID idx doc = .ok id ∧ ConjunctionID.docID id = doc ∧
      (ConjunctionID.idx id).toNat = idx) ∧
    (∀ idx doc idx' doc' id, newConjunctionID idx doc = .ok id → newConjunctionID idx' doc' = .ok id →
      idx = idx' ∧ doc = doc') ∧
    (∀ idx doc, ¬ Fits idx doc → ∃ e, newConjunctionID idx doc = .error (.err e)) ∧
    (∀ (b : IvtBEIndexerBuilder) (docs : List Document) (indexer : IvtBEIndexer) (s : IvtScanner) (hints : List Int64)
      (q : Assignments) (visit : s.indexer.data.Visit) (s' : IvtScanner) (ids : List UInt64),
      b.Given docs → b.buildIndexer = .ok indexer → s.Used indexer hints → s.retrieve q visit = .ok (s', .ok ids) →
      ∀ doc : Int64, doc ∈ ids.map UInt64.toInt64 ↔ (doc ∈ docs.map Document.id ∨ doc ∈ hints) ∧
        ∃ idx id, newConjunctionID idx doc = .ok id ∧ id ∈ s'.conjIDResults) := by
  refine ⟨?_, ?_, ?_, ?_⟩
  · intro idx doc fits
    have made := newConjunctionID_fits fits
    obtain ⟨n, rfl⟩ := natural_of_made made
    exact ⟨_, made, docID_newConjunctionID made, by rw [idx_newConjunctionID made]⟩
  · intro idx doc idx' doc' id made made'
    obtain ⟨n, rfl⟩ := natural_of_made made
    obtain ⟨n', rfl⟩ := natural_of_made made'
    obtain ⟨rfl, rfl⟩ := newConjunctionID_inj made made'
    exact ⟨rfl, rfl⟩
  · intro idx doc unfit
    exact newConjunctionID_rejects unfit
  · intro b docs indexer s hints q visit s' ids given built used run
    exact IvtScanner.retrieve_docIDs given built used run

/-- A document with a negative id is found, and its id is read back from the word that is returned. -/
theorem newConjunctionID_faithful_negative :
    letI := AhoMachine.naive
    let conj : Conjunction := ⟨.singleton (str "a") [⟨true, .scalar (.string (str "x")), .eq⟩]⟩
    let q : Assignments := .singleton (str "a") (.scalar (.string (str "x")))
    ∃ b₁ b₂ indexer s ids,
      (IvtBEIndexerBuilder.newIndexerBuilder StrHashParser.generator).configureField (str "a")
        ⟨none, ContainerNameDefault⟩ = .ok (b₁, .ok ()) ∧
      b₁.addDocument (fun _ => .id) ⟨-5, 0, [conj]⟩ = .ok (b₂, .ok ()) ∧ b₂.buildIndexer = .ok indexer ∧
      (newScanner indexer).retrieve q ⟨indexer.data.entries, .refl _⟩ = .ok (s, .ok ids) ∧
      -5 ∈ ids.map UInt64.toInt64 := by
  let _ := AhoMachine.naive
  intro conj q
  let id : ConjunctionID := 0xFFFFFFFFFFFFFB00
  obtain ⟨b₁, _, configured, run⟩ := finished_iff.mp (show finished (fun b₁ _ => finished (fun b₂ _ =>
      okAnd (fun indexer => finished (fun s _ => decide (id ∈ s.conjIDResults))
        ((newScanner indexer).retrieve q ⟨indexer.data.entries, .refl _⟩)) b₂.buildIndexer)
      (b₁.addDocument (fun _ => .id) ⟨-5, 0, [conj]⟩))
    ((IvtBEIndexerBuilder.newIndexerBuilder StrHashParser.generator).configureField (str "a")
      ⟨none, ContainerNameDefault⟩) = true by decide +kernel)
  obtain ⟨b₂, _, added, run⟩ := finished_iff.mp run
  obtain ⟨indexer, built, run⟩ := okAnd_iff.mp run
  obtain ⟨s, ids, run, held⟩ := finished_iff.mp run
  have given : b₂.Given [⟨-5, 0, [conj]⟩] := .added (.configured (.new _) trivial configured) added trivial
  have returned := newConjunctionID_faithful.2.2.2 b₂ _ indexer _ [] q _ s ids given built ⟨_, .new, rfl⟩ run (-5)
  refine ⟨b₁, b₂, indexer, s, ids, configured, added, built, run, returned.mpr ⟨Or.inl (by simp), 0, id, ?_, ?_⟩⟩
  · decide +kernel
  · exact of_decide_eq_true held

end BeIndexer.Roaring
