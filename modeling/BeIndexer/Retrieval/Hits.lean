import BeIndexer.Retrieval.Cursors

/-!
# What an index returns

Both indexes scan the answers of the posting lists: the size-grouped one size by size, the compact
one all at once. A retrieval that can read its query returns the documents of the conjunctions that
the scans hit.
-/

namespace BeIndexer

open Leapfrog FieldCursors

variable [FloatOps]

namespace Store

/-- The entry ids that the lists of size `k` give for the value of a field. -/
def answer (s : Store) (k : Nat) (assign : Sigma fun _ : BEField => Value) : Set EntryID :=
  {e | (s.posts k assign.1).Answers assign.2 e}

omit [FloatOps] in
/-- The entry ids of the conjunctions without include expressions, which are met at size 0. -/
def zeros (s : Store) (k : Nat) : Set EntryID := {e | k = 0 ∧ e ∈ s.wildcard}

/-- The scan of size `k` hits the conjunction. -/
def HitsAt (s : Store) (k : Nat) (q : Assignments) (id : ConjID) : Prop :=
  Hit byConj (fun _ => max k 1) ((s.zeros k :: q.entries.map (s.answer k)).map Tape.unread) id

/-- The scan over all sizes hits the conjunction. -/
def HitsAll (s : Store) (q : Assignments) (id : ConjID) : Prop :=
  Hit byConj needMatch ((s.zeros 0 :: q.entries.map (s.answer 0)).map Tape.unread) id

/-- What a retrieval needs: posting lists of the two containers, with entry ids of conjunctions. -/
structure Usable (s : Store) : Prop where
  served : ∀ k f, (s.posts k f).Served
  valid : ∀ k f v e, (s.posts k f).Answers v e → ValidEntry e
  zeros : ∀ e ∈ s.wildcard, ValidEntry e

end Store

omit [FloatOps] in
theorem hit_visit {need : ConjID → Nat} {zeros : Set EntryID} {answer : (Sigma fun _ : BEField => Value) → Set EntryID}
    {q : Assignments} (visit : GoMap.Visit q) (id : ConjID) :
    Hit byConj need ((zeros :: visit.1.map answer).map Tape.unread) id ↔
      Hit byConj need ((zeros :: q.entries.map answer).map Tape.unread) id :=
  hit_perm (((visit.2.map answer).cons zeros).map Tape.unread)

omit [FloatOps] in
theorem DocIDCollector.mem_addAll {adds : List ConjID} {docBits : DocIDCollector} {x : UInt64} :
    x ∈ adds.foldl DocIDCollector.add docBits ↔ x ∈ docBits ∨ ∃ id ∈ adds, id.docID.toUInt64 = x := by
  induction adds generalizing docBits with
  | nil => simp
  | cons id adds ih =>
    rw [List.foldl_cons, ih]
    simp only [DocIDCollector.add, Finset.mem_insert, List.mem_cons, exists_eq_or_imp, eq_comm (a := x)]
    tauto

/-! ### Scans of any posting lists -/

section Scans

variable [AhoMachine] {q : Assignments}

def EntriesContainer.AnswersWith (c : EntriesContainer) (t : FieldTable) (q : Assignments)
    (answer : (Sigma fun _ : BEField => Value) → Set EntryID) : Prop :=
  ∀ a ∈ q.entries, ∃ cs, initFieldCursor t c a = .ok cs ∧ Answered (answer a) cs

theorem EntriesContainer.AnswersWith.initCursors {c : EntriesContainer} {t : FieldTable} {wild : FieldCursors}
    {zeros : Set EntryID} {answer : (Sigma fun _ : BEField => Value) → Set EntryID} (answers : c.AnswersWith t q answer)
    (wildcard : Answered zeros wild) (visit : GoMap.Visit q) :
    ∃ cursors, initCursorsFrom wild t c visit.1 = .ok cursors ∧ Sorted cursors ∧ Unread cursors ∧
      (∀ fc ∈ cursors, fc.getCurEntryID ≠ NULLENTRY) ∧
      ∀ need id, Hit byConj need (tapes cursors) id ↔
        Hit byConj need ((zeros :: q.entries.map answer).map Tape.unread) id := by
  obtain ⟨cursors, run, sorted, unread, live, hits⟩ :=
    initCursorsFrom_answers wildcard fun a mem => answers a (visit.2.mem_iff.mp mem)
  exact ⟨cursors, run, sorted, unread, live, fun need id => (hits need id).trans (hit_visit visit id)⟩

theorem CompactBEIndex.retrieve_hits {bi : CompactBEIndex} {zeros : Set EntryID}
    {answer : (Sigma fun _ : BEField => Value) → Set EntryID}
    (wildcard : Answered zeros (wildcardCursor bi.wildcardEntries))
    (answers : bi.container.AnswersWith bi.fieldsData q answer) (visit : GoMap.Visit q) :
    ∃ docBits : DocIDCollector, bi.retrieve q visit = .ok docBits.getDocIDs ∧
      ∀ x, x ∈ docBits ↔ ∃ id, Hit byConj needMatch ((zeros :: q.entries.map answer).map Tape.unread) id ∧
        id.docID.toUInt64 = x := by
  obtain ⟨cursors, start, sorted, unread, live, hits⟩ := answers.initCursors wildcard visit
  obtain ⟨adds, scanned, added⟩ := retrieveLoop_adds sorted unread live
  have start : bi.initCursors visit.1 = .ok cursors := start
  refine ⟨adds.foldl DocIDCollector.add ∅, ?_, fun x => ?_⟩
  · simp only [CompactBEIndex.retrieve, start, scanned, bind, Except.bind]
    rfl
  · rw [DocIDCollector.mem_addAll]
    simp only [Finset.notMem_empty, false_or, added, hits]

namespace KGroupsBEIndex

variable {bi : KGroupsBEIndex} {zeros : Nat → Set EntryID}
  {answer : Nat → (Sigma fun _ : BEField => Value) → Set EntryID}

theorem scan_hits {k : Nat} (wildcard : Answered (zeros k) (if k = 0 then wildcardCursor bi.wildcardEntries else []))
    {c : EntriesContainer} (found : bi.kSizeContainers[k]? = some c)
    (answers : c.AnswersWith bi.fieldsData q (answer k)) (visit : GoMap.Visit q) :
    ∃ cursors adds, bi.initCursors visit.1 k = .ok cursors ∧
      retrieveK cursors (max k 1) (Nat.lt_of_lt_of_le Nat.zero_lt_one (Nat.le_max_right k 1)) = .ok adds ∧
      ∀ id, id ∈ adds ↔ Hit byConj (fun _ => max k 1) ((zeros k :: q.entries.map (answer k)).map Tape.unread) id := by
  obtain ⟨cursors, start, sorted, unread, _, hits⟩ := answers.initCursors wildcard visit
  obtain ⟨adds, scanned, added⟩ :=
    retrieveK_adds (Nat.lt_of_lt_of_le Nat.zero_lt_one (Nat.le_max_right k 1)) sorted unread
  refine ⟨cursors, adds, ?_, scanned, fun id => (added id).trans (hits _ id)⟩
  unfold initCursors getKSizeEntries
  rw [found]
  exact start

theorem retrieveBelow_hits
    (wildcard : ∀ k, Answered (zeros k) (if k = 0 then wildcardCursor bi.wildcardEntries else []))
    (visits : Nat → GoMap.Visit q) {n : Nat}
    (answers : ∀ k < n, ∃ c, bi.kSizeContainers[k]? = some c ∧ c.AnswersWith bi.fieldsData q (answer k))
    (collector : DocIDCollector) :
    ∃ docBits, bi.retrieveBelow q visits n collector = .ok docBits ∧
      ∀ x, x ∈ docBits ↔ x ∈ collector ∨ ∃ k < n, ∃ id,
        Hit byConj (fun _ => max k 1) ((zeros k :: q.entries.map (answer k)).map Tape.unread) id ∧
          id.docID.toUInt64 = x := by
  induction n generalizing collector with
  | zero => exact ⟨collector, rfl, by simp⟩
  | succ k ih =>
    obtain ⟨c, found, here⟩ := answers k (Nat.lt_succ_self k)
    obtain ⟨cursors, adds, start, scanned, added⟩ := scan_hits (wildcard k) found here (visits k)
    obtain ⟨docBits, rest, members⟩ := ih (fun k' below => answers k' (Nat.lt_succ_of_lt below))
      (adds.foldl DocIDCollector.add collector)
    refine ⟨docBits, ?_, fun x => ?_⟩
    · simp only [retrieveBelow, start, scanned, bind, Except.bind]
      exact rest
    · rw [members x, DocIDCollector.mem_addAll]
      constructor
      · rintro ((old | ⟨id, hit, doc⟩) | ⟨k', below, found⟩)
        · exact Or.inl old
        · exact Or.inr ⟨k, Nat.lt_succ_self k, id, (added id).mp hit, doc⟩
        · exact Or.inr ⟨k', Nat.lt_succ_of_lt below, found⟩
      · rintro (old | ⟨k', below, id, hit, doc⟩)
        · exact Or.inl (Or.inl old)
        · rcases Nat.lt_succ_iff_lt_or_eq.mp below with less | rfl
          · exact Or.inr ⟨k', less, id, hit, doc⟩
          · exact Or.inl (Or.inr ⟨id, (added id).mpr hit, doc⟩)

end KGroupsBEIndex

end Scans

namespace IndexerBuilder

variable [AhoMachine] {b b' : IndexerBuilder} {q : Assignments}

theorem answersWith (usable : b.store.Usable) (built : b.buildIndex = .ok b') {k : Nat}
    (reads : ∀ a ∈ q.entries, (b.indexer.container k).Reads b.fieldsData a) :
    (b'.indexer.container k).AnswersWith b'.indexer.base.fieldsData q (b.store.answer k) := by
  obtain ⟨_, containers, _, _, table, _⟩ := buildIndex_spec built
  rw [table]
  exact fun a mem => EntriesContainer.initFieldCursor_answers (containers k) (usable.served k a.1)
    (usable.valid k a.1 a.2) (reads a mem)

theorem wildcard_answered (usable : b.store.Usable) (built : b.buildIndex = .ok b') :
    Answered (b.store.zeros 0) (wildcardCursor b'.indexer.base.wildcardEntries) := by
  obtain ⟨_, _, _, _, _, wildcard⟩ := buildIndex_spec built
  have same : b.store.zeros 0 = {e | e ∈ sortEntries b.indexer.base.wildcardEntries} := by
    ext e
    simp only [Store.zeros, Set.mem_ofPred_eq, true_and, mem_sortEntries]
    rfl
  rw [wildcard, same]
  exact wildcardCursor_answered (sortEntries_sorted _) fun e he => usable.zeros e (mem_sortEntries.mp he)

/-! ### The compact index -/

theorem compact_retrieve (usable : b.store.Usable) (built : b.buildIndex = .ok b')
    (compact : b.indexer.isCompact = true) (visits : Nat → GoMap.Visit q)
    (reads : ∀ a ∈ q.entries, (b.indexer.container 0).Reads b.fieldsData a) :
    ∃ docBits : DocIDCollector, b'.indexer.retrieve q visits = .ok docBits.getDocIDs ∧
      ∀ x, x ∈ docBits ↔ ∃ id, b.store.HitsAll q id ∧ id.docID.toUInt64 = x := by
  have kind := (buildIndex_spec built).2.2.2.1
  have wildcard := wildcard_answered usable built
  have answers := answersWith usable built reads
  obtain ⟨bi, index⟩ := BEIndex.compact_eq (kind.trans compact)
  rw [index] at wildcard answers ⊢
  exact CompactBEIndex.retrieve_hits wildcard answers (visits 0)

theorem compact_starts (built : b.buildIndex = .ok b') {bi : CompactBEIndex} (index : b'.indexer = .compact bi)
    (visit : GoMap.Visit q) {cursors : FieldCursors} (start : bi.initCursors visit.1 = .ok cursors) :
    ∀ a ∈ q.entries, (b.indexer.container 0).Reads b.fieldsData a := by
  obtain ⟨_, containers, _, _, table, _⟩ := buildIndex_spec built
  intro a mem
  obtain ⟨found, each, _⟩ := bind_eq_ok.mp start
  obtain ⟨cs, _, made⟩ := mapM_mem each (visit.2.mem_iff.mpr mem)
  have compiled := containers 0
  rw [index] at table compiled
  have same : bi.fieldsData = b.fieldsData := table
  rw [same] at made
  exact EntriesContainer.initFieldCursor_reads compiled made

/-- A retrieval that returns no error has read every value of the query. -/
theorem compact_reads {docs : List DocID} (built : b.buildIndex = .ok b') (compact : b.indexer.isCompact = true)
    {visits : Nat → GoMap.Visit q} (run : b'.indexer.retrieve q visits = .ok docs) :
    ∀ a ∈ q.entries, (b.indexer.container 0).Reads b.fieldsData a := by
  have kind := (buildIndex_spec built).2.2.2.1
  obtain ⟨bi, index⟩ := BEIndex.compact_eq (kind.trans compact)
  rw [index] at run
  obtain ⟨cursors, start, _⟩ := bind_eq_ok.mp run
  exact compact_starts built index (visits 0) start

/-! ### The size-grouped index -/

theorem wildcard_zeros (usable : b.store.Usable) (built : b.buildIndex = .ok b') (k : Nat) :
    Answered (b.store.zeros k) (if k = 0 then wildcardCursor b'.indexer.base.wildcardEntries else []) := by
  split
  · rename_i zero
    rw [zero]
    exact wildcard_answered usable built
  · rename_i positive
    have none : b.store.zeros k = ∅ := by
      ext e
      simp [Store.zeros, positive]
    rw [none]
    exact answered_none

theorem kgroups_answers (usable : b.store.Usable) (built : b.buildIndex = .ok b') {bi : KGroupsBEIndex}
    (index : b'.indexer = .kgroups bi) {k : Nat} (has : k < bi.kSizeContainers.length)
    (reads : ∀ a ∈ q.entries, (b.indexer.container k).Reads b.fieldsData a) :
    ∃ c, bi.kSizeContainers[k]? = some c ∧ c.AnswersWith bi.fieldsData q (b.store.answer k) := by
  have answers := answersWith usable built reads
  rw [index, BEIndex.container, List.getD_eq_getElem _ _ has] at answers
  exact ⟨_, List.getElem?_eq_getElem has, answers⟩

theorem kgroups_scan (usable : b.store.Usable) (built : b.buildIndex = .ok b') {bi : KGroupsBEIndex}
    (index : b'.indexer = .kgroups bi) {k : Nat} (has : k < bi.kSizeContainers.length) (visit : GoMap.Visit q)
    (reads : ∀ a ∈ q.entries, (b.indexer.container k).Reads b.fieldsData a) :
    ∃ cursors adds, bi.initCursors visit.1 k = .ok cursors ∧
      retrieveK cursors (max k 1) (Nat.lt_of_lt_of_le Nat.zero_lt_one (Nat.le_max_right k 1)) = .ok adds ∧
      ∀ id, id ∈ adds ↔ b.store.HitsAt k q id := by
  have wildcard := wildcard_zeros usable built k
  rw [index] at wildcard
  obtain ⟨c, found, answers⟩ := kgroups_answers usable built index has reads
  exact KGroupsBEIndex.scan_hits wildcard found answers visit

theorem retrieveBelow_starts {bi : KGroupsBEIndex} {visits : Nat → GoMap.Visit q} {n : Nat}
    {collector docBits : DocIDCollector} (run : bi.retrieveBelow q visits n collector = .ok docBits) :
    ∀ k < n, ∃ cursors, bi.initCursors (visits k).1 k = .ok cursors := by
  induction n generalizing collector with
  | zero => exact fun k below => absurd below (Nat.not_lt_zero k)
  | succ n ih =>
    obtain ⟨cursors, start, rest⟩ := bind_eq_ok.mp run
    obtain ⟨adds, _, rest⟩ := bind_eq_ok.mp rest
    intro k below
    rcases Nat.lt_succ_iff_lt_or_eq.mp below with less | rfl
    · exact ih rest k less
    · exact ⟨cursors, start⟩

theorem kgroups_starts (built : b.buildIndex = .ok b') {bi : KGroupsBEIndex}
    (index : b'.indexer = .kgroups bi) {k : Nat}
    (inside : k < bi.kSizeContainers.length) (visit : GoMap.Visit q) {cursors : FieldCursors}
    (start : bi.initCursors visit.1 k = .ok cursors) :
    ∀ a ∈ q.entries, (b.indexer.container k).Reads b.fieldsData a := by
  obtain ⟨_, containers, _, _, table, _⟩ := buildIndex_spec built
  obtain ⟨container, found, start⟩ := bind_eq_ok.mp start
  obtain ⟨fields, each, _⟩ := bind_eq_ok.mp start
  have compiled := containers k
  have same : (BEIndex.kgroups bi).container k = container := by
    rw [KGroupsBEIndex.getKSizeEntries, List.getElem?_eq_getElem inside] at found
    rw [BEIndex.container, List.getD_eq_getElem _ _ inside]
    exact Except.ok.inj found
  rw [index, same] at compiled
  intro a mem
  obtain ⟨cs, _, made⟩ := mapM_mem each (visit.2.mem_iff.mpr mem)
  rw [index] at table
  have known : bi.fieldsData = b.fieldsData := table
  rw [known] at made
  exact EntriesContainer.initFieldCursor_reads compiled made

/-- A retrieval that returns no error has read every value of the query at each size it went through,
which is none if the index is empty. -/
theorem kgroups_reads {docs : List DocID} (built : b.buildIndex = .ok b') (grouped : b.indexer.isCompact = false)
    {visits : Nat → GoMap.Visit q} (run : b'.indexer.retrieve q visits = .ok docs) :
    (docs = [] ∨ b.indexer.HasContainer 0) ∧ ∃ size, Assignments.size q = .ok size ∧
      ∀ k ≤ size, b.indexer.HasContainer k → ∀ a ∈ q.entries, (b.indexer.container k).Reads b.fieldsData a := by
  obtain ⟨_, containers, sizes, kind, table, _⟩ := buildIndex_spec built
  obtain ⟨bi, index⟩ := BEIndex.kgroups_eq (kind.trans grouped)
  have has : ∀ k, b.indexer.HasContainer k ↔ k < bi.kSizeContainers.length := by
    intro k
    rw [← sizes k, index]
    rfl
  rw [index] at run table
  obtain ⟨size, sized, rest⟩ := bind_eq_ok.mp run
  obtain ⟨docBits, loop, done⟩ := bind_eq_ok.mp rest
  obtain rfl := Except.ok.inj done
  refine ⟨?_, size, sized, fun k le here => ?_⟩
  · by_cases empty : bi.kSizeContainers = []
    · have none : (min (size : Int) bi.maxK + 1).toNat = 0 := by
        simp only [KGroupsBEIndex.maxK, empty, List.length_nil]
        omega
      rw [none] at loop
      obtain rfl := Except.ok.inj loop
      exact Or.inl (by simp [DocIDCollector.getDocIDs])
    · exact Or.inr ((has 0).mpr (List.length_pos_of_ne_nil empty))
  · have inside := (has k).mp here
    obtain ⟨cursors, start⟩ := retrieveBelow_starts loop k (by simp only [KGroupsBEIndex.maxK]; omega)
    exact kgroups_starts built index inside (visits k) start

omit [AhoMachine] in
theorem no_hits (wf : b.WF) (usable : b.store.Usable) {k : Nat} (missing : ¬ b.indexer.HasContainer k) (id : ConjID) :
    ¬ b.store.HitsAt k q id := by
  have noZeros : b.store.zeros k = ∅ := by
    ext e
    simp only [Store.zeros, Set.mem_ofPred_eq, Set.mem_empty_iff_false, iff_false]
    rintro ⟨rfl, mem⟩
    exact missing (wf.wildcard (List.ne_nil_of_mem mem))
  have noAnswers : ∀ a, b.store.answer k a = ∅ := by
    intro a
    ext e
    have served := usable.served k a.1
    simp only [Store.answer, IndexerBuilder.store, Set.mem_ofPred_eq, Set.mem_empty_iff_false, iff_false,
      BEIndex.container_fresh missing, fresh_postings] at served ⊢
    exact Postings.fresh_answers served _ _
  intro hit
  have none : count (byConj.Holds id) ((b.store.zeros k :: q.entries.map (b.store.answer k)).map Tape.unread) = 0 := by
    apply count_eq_zero
    rintro t ht ⟨e, he, _⟩
    obtain ⟨s, hs, rfl⟩ := List.mem_map.mp ht
    rcases List.mem_cons.mp hs with rfl | later
    · rw [noZeros] at he
      exact absurd he (Set.notMem_empty e)
    · obtain ⟨a, _, rfl⟩ := List.mem_map.mp later
      rw [noAnswers] at he
      exact absurd he (Set.notMem_empty e)
  have enough : max k 1 ≤ _ := hit.1
  rw [none] at enough
  omega

theorem kgroups_retrieve (wf : b.WF) (usable : b.store.Usable) (built : b.buildIndex = .ok b')
    (grouped : b.indexer.isCompact = false) (visits : Nat → GoMap.Visit q) {size : Nat}
    (sized : Assignments.size q = .ok size)
    (reads : ∀ k ≤ size, b.indexer.HasContainer k → ∀ a ∈ q.entries, (b.indexer.container k).Reads b.fieldsData a) :
    ∃ docBits : DocIDCollector, b'.indexer.retrieve q visits = .ok docBits.getDocIDs ∧
      ∀ x, x ∈ docBits ↔ ∃ k ≤ size, ∃ id, b.store.HitsAt k q id ∧ id.docID.toUInt64 = x := by
  obtain ⟨_, _, sizes, kind, _, _⟩ := buildIndex_spec built
  obtain ⟨bi, index⟩ := BEIndex.kgroups_eq (kind.trans grouped)
  have bound : (min (size : Int) bi.maxK + 1).toNat ≤ bi.kSizeContainers.length := by
    simp only [KGroupsBEIndex.maxK]
    omega
  have scanned : ∀ k < (min (size : Int) bi.maxK + 1).toNat, ∀ a ∈ q.entries,
      (b.indexer.container k).Reads b.fieldsData a := by
    intro k below
    refine reads k ?_ ((sizes k).mp ?_)
    · omega
    · rw [index]
      exact Nat.lt_of_lt_of_le below bound
  have wildcard := wildcard_zeros usable built
  rw [index] at wildcard
  obtain ⟨docBits, run, members⟩ := KGroupsBEIndex.retrieveBelow_hits wildcard visits
    (fun k below => kgroups_answers usable built index (Nat.lt_of_lt_of_le below bound) (scanned k below)) ∅
  refine ⟨docBits, ?_, fun x => ?_⟩
  · simp only [index, BEIndex.retrieve, KGroupsBEIndex.retrieve, sized, run, bind, Except.bind]
    rfl
  · rw [members x]
    simp only [Finset.notMem_empty, false_or]
    constructor
    · rintro ⟨k, below, id, hit, doc⟩
      simp only [KGroupsBEIndex.maxK] at below
      exact ⟨k, by omega, id, hit, doc⟩
    · rintro ⟨k, le, id, hit, doc⟩
      have has : b.indexer.HasContainer k := by
        by_contra missing
        exact no_hits wf usable missing id hit
      have has' := (sizes k).mpr has
      rw [index] at has'
      have inside : k < bi.kSizeContainers.length := has'
      refine ⟨k, ?_, id, hit, doc⟩
      simp only [KGroupsBEIndex.maxK]
      omega

/-- A retrieval of this query looks at the container of size `k`. -/
def Scans (b : IndexerBuilder) (q : Assignments) (k : Nat) : Prop :=
  b.indexer.HasContainer k ∧ (b.indexer.isCompact = false → ∀ size, Assignments.size q = .ok size → k ≤ size)

/-- Every value of the query can be read wherever a retrieval looks at it. -/
structure CanRead (b : IndexerBuilder) (q : Assignments) : Prop where
  plain : b.indexer.isCompact = false → ∀ a ∈ q.entries, a.2.isArray = false
  reads : ∀ k, b.Scans q k → ∀ a ∈ q.entries, (b.indexer.container k).Reads b.fieldsData a

theorem retrieve_canRead {docs : List DocID} (built : b.buildIndex = .ok b') {visits : Nat → GoMap.Visit q}
    (run : b'.indexer.retrieve q visits = .ok docs) : b.CanRead q := by
  cases kind : b.indexer.isCompact with
  | true =>
    refine ⟨fun grouped => ?_, fun k _ => ?_⟩
    · rw [kind] at grouped
      cases grouped
    · rw [BEIndex.shared_container kind k 0]
      exact compact_reads built kind run
  | false =>
    obtain ⟨_, size, sized, reads⟩ := kgroups_reads built kind run
    exact ⟨fun _ => Assignments.plain_of_size sized, fun k scans => reads k (scans.2 kind size sized) scans.1⟩

end IndexerBuilder

end BeIndexer
