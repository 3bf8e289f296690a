import BeIndexer.Roaring.Exact
import BeIndexer.Roaring.Keywords

/-!
# Hints

`WithHint` starts a scan with the conjunction ids that the hinted documents can have: one for each index
below the most conjunctions that any document has. As every id in a bitmap has an index below that bound,
the scan finds what it finds without hints, restricted to the hinted documents.
-/

namespace BeIndexer.Roaring

open Calls

/-! ### Ids below the bound -/

namespace IvtBEIndexerBuilder

variable {b b' : IvtBEIndexerBuilder}

/-- A builder after any calls, of which those that add a document succeeded. -/
def Accepted (b : IvtBEIndexerBuilder) : Prop := ∃ docs, Run (fun _ => True) (fun r => r = .ok ()) b docs

/-- The id of a conjunction of some document, with an index below `bound`. -/
def IdBelow (bound : Nat) (id : ConjunctionID) : Prop := ∃ idx doc, idx < bound ∧ newConjunctionID idx doc = .ok id

/-- Every id in a bitmap is below the bound of the builder. -/
def Counted (b : IvtBEIndexerBuilder) : Prop := ∀ field slot id, id ∈ b.bitmap field slot → IdBelow b.docMaxConjSize id

theorem IdBelow.mono {bound bound' : Nat} {id : ConjunctionID} (below : IdBelow bound id) (le : bound ≤ bound') :
    IdBelow bound' id := by
  obtain ⟨idx, doc, lt, made⟩ := below
  exact ⟨idx, doc, by omega, made⟩

theorem newContainerBuilder_bitmap {container : GoString} {parser : ValueIDGenerator} {c : BEContainerBuilder}
    (made : newContainerBuilder container parser = some c) (slot : AnySlot) : c.bitmap slot = ∅ := by
  have blank : ∀ {κ : Type} [DecidableEq κ] (slot : Slot κ), (Postings.empty : Postings κ).bitmap slot = ∅ := by
    intro κ _ slot
    cases slot <;> rfl
  unfold newContainerBuilder at made
  split at made
  · obtain rfl := Option.some.inj made
    cases slot with
    | number slot => exact blank slot
    | word slot => rfl
  · split at made
    · obtain rfl := Option.some.inj made
      cases slot with
      | number slot => rfl
      | word slot => exact blank slot
    · cases made

theorem configureField_bitmap {field : BEField} {option : FieldSetting} {r : Except GoError Unit}
    (run : b.configureField field option = .ok (b', r)) :
    b'.docMaxConjSize = b.docMaxConjSize ∧ ∀ g slot id, id ∈ b'.bitmap g slot → id ∈ b.bitmap g slot := by
  unfold configureField at run
  split at run
  · obtain ⟨rfl, _⟩ := failure_eq_ok run
    exact ⟨rfl, fun _ _ _ mem => mem⟩
  · rename_i c made
    obtain ⟨rfl, _⟩ := Prod.mk.inj (Except.ok.inj run)
    refine ⟨rfl, fun g slot id mem => ?_⟩
    by_cases same : g = field
    · subst same
      simp [IvtBEIndexerBuilder.bitmap, newContainerBuilder_bitmap made] at mem
    · simpa [IvtBEIndexerBuilder.bitmap, AList.lookup_insert_ne same] using mem

theorem configureField_counted {field : BEField} {option : FieldSetting} {r : Except GoError Unit} (counted : b.Counted)
    (run : b.configureField field option = .ok (b', r)) : b'.Counted := by
  obtain ⟨size, fewer⟩ := configureField_bitmap run
  intro g slot id mem
  rw [size]
  exact counted g slot id (fewer g slot id mem)

theorem addDocument_docMaxConjSize {orders : Nat → KeyOrder} {doc : Document}
    (run : b.addDocument orders doc = .ok (b', .ok ())) : b'.docMaxConjSize = max doc.cons.length b.docMaxConjSize := by
  obtain ⟨b₁, us, ran, rfl⟩ := addDocument_eq_ok run
  obtain ⟨wrote, _⟩ := addConjs_performs orders b doc b₁ _ ran
  show max doc.cons.length b₁.docMaxConjSize = _
  rw [wrote.docMaxConjSize]

theorem addDocument_counted {orders : Nat → KeyOrder} {doc : Document} (counted : b.Counted)
    (run : b.addDocument orders doc = .ok (b', .ok ())) : b'.Counted := by
  have size := addDocument_docMaxConjSize run
  intro field slot id mem
  rw [size]
  rcases ((addDocument_loaded run).mem field slot id).mp mem with held | ⟨conj, ⟨doc', inDocs, i, listed, made⟩, _⟩
  · exact (counted field slot id held).mono (Nat.le_max_right _ _)
  · obtain rfl := List.mem_singleton.mp inDocs
    have bound : i < doc'.cons.length := by simpa using List.snd_lt_of_mem_zipIdx listed
    exact ⟨i, doc'.id, by omega, made⟩

theorem Accepted.counted (accepted : b.Accepted) : b.Counted := by
  obtain ⟨docs, accepted⟩ := accepted
  induction accepted with
  | new defaultParser => exact fun _ _ _ mem => absurd mem (Finset.notMem_empty _)
  | withErrPanic panics _ ih => exact ih
  | configured _ _ run ih => exact configureField_counted ih run
  | added _ run returned ih => exact addDocument_counted ih (returned ▸ run)

end IvtBEIndexerBuilder

/-! ### Answers -/

theorem DefaultBEContainer.retrieve_bitmap {c : DefaultBEContainer} {v : Value} {pl : PostingList} {id : ConjunctionID}
    (run : c.retrieve v ∅ = .ok pl) (mem : id ∈ pl) : ∃ slot, id ∈ c.postings.bitmap slot := by
  cases array : v.isArray with
  | true =>
    obtain ⟨e, panicked⟩ := c.retrieve_array array
    rw [panicked] at run
    cases run
  | false =>
    rw [c.retrieve_eq array, map_eq_ok] at run
    obtain ⟨ids, _, rfl⟩ := run
    rcases (mem_answers.mp mem).1 with held | ⟨value, _, held⟩
    · exact ⟨_, held⟩
    · exact ⟨_, held⟩

section

variable [AhoMachine]

theorem ACBEContainer.retrieve_bitmap {c : ACBEContainer} {v : Value} {pl : PostingList} {id : ConjunctionID}
    (run : c.retrieve v ∅ = .ok pl) (mem : id ∈ pl) : ∃ slot, id ∈ c.postings.bitmap slot := by
  obtain ⟨isNil, asked, rest⟩ := bind_eq_ok.mp (show (nilInterface v >>= _) = _ from run)
  cases isNil with
  | true =>
    rw [retrieve_nil asked, Finset.empty_union] at run
    obtain rfl := Except.ok.inj run
    exact ⟨.wildcard, mem⟩
  | false =>
    obtain ⟨content, built, _⟩ := bind_eq_ok.mp (show (buildAcMatchContent v c.querySep >>= _) = _ from rest)
    rw [retrieve_search asked built, Finset.empty_union] at run
    obtain ⟨ins, read, run⟩ := bind_eq_ok.mp run
    obtain ⟨outs, _, run⟩ := bind_eq_ok.mp run
    obtain rfl := Except.ok.inj run
    rcases mem_foldl_union.mp (mem_foldl_diff.mp mem).1 with held | held
    · exact ⟨.wildcard, held⟩
    · obtain ⟨w, _, held⟩ := (mem_wordLists read).mp held
      exact ⟨.inc (stringOfRunes w), held⟩

theorem BEContainerBuilder.retrieve_bitmap {c : BEContainerBuilder} {can : BEContainer} {v : Value} {pl : PostingList}
    {id : ConjunctionID} (built : c.buildBEContainer = .ok can) (run : can.retrieve v ∅ = .ok pl) (mem : id ∈ pl) :
    ∃ slot, id ∈ c.bitmap slot := by
  cases c with
  | default c =>
    obtain rfl := Except.ok.inj built
    obtain ⟨slot, held⟩ := DefaultBEContainer.retrieve_bitmap run mem
    exact ⟨.number slot, held⟩
  | ac c =>
    obtain ⟨c', made, done⟩ := bind_eq_ok.mp built
    obtain rfl := Except.ok.inj done
    have same : c'.postings = c.postings := by
      obtain ⟨inc, _, made⟩ := bind_eq_ok.mp made
      obtain ⟨exc, _, made⟩ := bind_eq_ok.mp made
      obtain rfl := Except.ok.inj made
      rfl
    obtain ⟨slot, held⟩ := ACBEContainer.retrieve_bitmap run mem
    rw [same] at held
    exact ⟨.word slot, held⟩

end

/-! ### Scans -/

namespace IvtScanner

variable {indexer : IvtBEIndexer} {q : Assignments} {s s' : IvtScanner} {hints : List Int64}

/-- A new scanner after `WithHint`. -/
def hinted (indexer : IvtBEIndexer) (hints : List Int64) : IvtScanner :=
  ⟨true, false, indexer, ((newScanner indexer).hintConjIDs hints).toFinset⟩

theorem withHint_new : (newScanner indexer).withHint hints = .ok (hinted indexer hints) := by
  unfold withHint hinted newScanner
  simp only [Finset.empty_union]
  rfl

theorem mem_hintConjIDs {id : ConjunctionID} : id ∈ s.hintConjIDs hints ↔
    ∃ hint ∈ hints, ∃ idx < s.indexer.docMaxConjSize, newConjunctionID idx hint = .ok id := by
  simp only [hintConjIDs, List.mem_flatMap, List.mem_filterMap, List.mem_range]
  refine exists_congr fun hint => and_congr_right fun _ => exists_congr fun idx => and_congr_right fun _ => ?_
  cases newConjunctionID idx hint with
  | error fault => simp
  | ok made => simp

theorem mem_hinted {id : ConjunctionID} : id ∈ (hinted indexer hints).conjIDResults ↔
    ∃ hint ∈ hints, ∃ idx < indexer.docMaxConjSize, newConjunctionID idx hint = .ok id := by
  unfold hinted
  rw [List.mem_toFinset, mem_hintConjIDs]
  rfl

theorem retrieveFrom_new_common {e : Sigma fun _ : BEField => BEContainer}
    {es : List (Sigma fun _ : BEField => BEContainer)}
    (run : (newScanner indexer).retrieveFrom q (e :: es) = .ok (s, .ok ())) (id : ConjunctionID) :
    id ∈ s.conjIDResults ↔ Common q (e :: es) id := by
  obtain ⟨pl, answered, later⟩ := retrieveFrom_answered rfl run
  obtain ⟨under, merged⟩ := mergeFieldResult_new indexer pl
  rw [retrieveFrom_common under later, merged, common_cons answered]

theorem retrieve_eq_ok {visit : s.indexer.data.Visit} {docs : List UInt64} :
    s.retrieve q visit = .ok (s', .ok docs) ↔
      s.retrieveFrom q visit.1 = .ok (s', .ok ()) ∧ docs = docsOf s'.conjIDResults := by
  rw [retrieve, andThen_eq_ok]
  constructor
  · intro ran
    obtain ⟨s₁, u, scanned, done⟩ := ran
    obtain ⟨rfl, same⟩ := Prod.mk.inj (Except.ok.inj done)
    exact ⟨scanned, (Except.ok.inj same).symm⟩
  · intro both
    exact ⟨s', (), both.1, by rw [both.2]; rfl⟩

variable [AhoMachine] {b : IvtBEIndexerBuilder}

theorem answer_bitmap_of (built : b.buildIndexer = .ok indexer) {e : Sigma fun _ : BEField => BEContainer}
    (mem : e ∈ indexer.data.entries) {pl : PostingList} (answered : answer q e = .ok pl) {id : ConjunctionID}
    (held : id ∈ pl) : ∃ slot, id ∈ b.bitmap e.1 slot := by
  obtain ⟨c, found, compiled⟩ := (IvtBEIndexerBuilder.mem_entries_built built).mp mem
  obtain ⟨slot, inside⟩ := BEContainerBuilder.retrieve_bitmap compiled answered held
  refine ⟨slot, ?_⟩
  rw [IvtBEIndexerBuilder.bitmap, found]
  exact inside

end IvtScanner

end BeIndexer.Roaring
