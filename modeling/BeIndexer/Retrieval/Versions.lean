import BeIndexer.Retrieval.Exact

/-!
# Versions of a document

A conjunction id is made of the document's id, the position of the conjunction and its size. When a
document is added again, its conjunctions share the ids of the earlier ones at the same position and
of the same size, and their posting lists are read as those of one conjunction.
-/

namespace BeIndexer

open Calls IndexerBuilder Leapfrog FieldCursors

def Conjunction.Alike (c d : Conjunction) : Prop := ∀ f bv, bv ∈ c.exprs f ↔ bv ∈ d.exprs f

/-- Conjunctions of the two documents that get the same id are alike. -/
def Document.Compatible (d e : Document) : Prop :=
  d.id = e.id → ∀ (i : Nat) (c c' : Conjunction), d.cons[i]? = some c → e.cons[i]? = some c' →
    c.calcConjSize = c'.calcConjSize → c.Alike c'

instance : Std.Symm Document.Compatible where
  symm _ _ compatible same i c c' here there size f bv :=
    (compatible same.symm i c' c there here size.symm f bv).symm

theorem Document.Compatible.refl (d : Document) : d.Compatible d := by
  intro _ i c c' here there _ f bv
  rw [Option.some.inj (here.symm.trans there)]

theorem Store.Loaded.single_of_compatible [FloatOps] {s : Store} {C : BEField → GoString} {B : BadConjBehavior}
    {docs : List Document} {all : List ConjTx} (loaded : s.Loaded C B docs all)
    (compatible : docs.Pairwise Document.Compatible) : Store.Single all := by
  have each : ∀ d ∈ docs, ∀ e ∈ docs, d.Compatible e :=
    fun d hd e he => compatible.forall_of_forall (fun d _ => Document.Compatible.refl d) hd he
  intro c hc d hd same tx htx
  obtain ⟨doc, mem, ⟨conj, i⟩, hconj, run⟩ := loaded.only c hc
  obtain ⟨doc', mem', ⟨conj', i'⟩, hconj', run'⟩ := loaded.only d hd
  obtain ⟨packed, _, _, prepared⟩ := prepareConjTx_some run
  obtain ⟨packed', _, _, prepared'⟩ := prepareConjTx_some run'
  obtain ⟨_, size, index, id⟩ := newConjID_fields packed
  obtain ⟨_, size', index', id'⟩ := newConjID_fields packed'
  rw [same] at size index id prepared
  dsimp only at size size' index index'
  obtain rfl : i = i' := by omega
  have here := List.mk_mem_zipIdx_iff_getElem?.mp hconj
  have here' := List.mk_mem_zipIdx_iff_getElem?.mp hconj'
  have alike := each doc mem doc' mem' (id.symm.trans id') i conj conj' here here' (by omega)
  obtain ⟨⟨f, bv⟩, listed, made⟩ := mem_mapM prepared' htx
  obtain ⟨tx', mem, made'⟩ := mapM_mem prepared (mem_exprList.mpr ((alike f bv).mpr (mem_exprList.mp listed)))
  obtain rfl := Except.ok.inj (made.symm.trans made')
  exact mem

namespace Accepted

variable [FloatOps] [Codec] [AhoMachine] {option : BuilderOption} {docs : List Document} {b b' : IndexerBuilder}

omit [Codec] in
theorem retrieve_reads {B : BadConjBehavior} {s : Store} {q : Assignments} {ids : List DocID} {id : DocID}
    (shows : Shows (fun _ => HolderNameDefault) B b s) (built : b.buildIndex = .ok b')
    {visits : Nat → GoMap.Visit q} (run : b'.indexer.retrieve q visits = .ok ids) (mem : id ∈ ids) :
    (b.indexer.isCompact = false → ∀ a ∈ q.entries, a.2.isArray = false) ∧
      ∀ k, ∀ a ∈ q.entries, (b.indexer.container k).Reads b.fieldsData a := by
  have first : (b.indexer.isCompact = false → ∀ a ∈ q.entries, a.2.isArray = false) ∧
      ∀ a ∈ q.entries, (b.indexer.container 0).Reads b.fieldsData a := by
    cases kind : b.indexer.isCompact with
    | true => exact ⟨fun grouped => (by cases grouped), compact_reads built kind run⟩
    | false =>
      obtain ⟨rfl | has, size, sized, reads⟩ := kgroups_reads built kind run
      · cases mem
      · exact ⟨fun _ => Assignments.plain_of_size sized, reads 0 (Nat.zero_le size) has⟩
  refine ⟨first.1, fun k a ha desc h known held => ?_⟩
  -- the shared holder is there at every size
  rw [EntriesContainer.getFieldHolder, if_pos (shows.container known)] at held
  obtain rfl := Option.some.inj held
  have tokenised := first.2 a ha desc (.default (b.indexer.container 0).defaultHolder) known
    (by rw [EntriesContainer.getFieldHolder, if_pos (shows.container known)])
  exact tokenised

/-- As long as no document is restored from a cache, and one is only added again with conjunctions that are
alike at the positions where their sizes agree, a match is one of a single conjunction of a single addition. -/
theorem retrieve_single {tried : List Document} {q : Assignments} {ids : List DocID} {id : DocID}
    {visits : Nat → GoMap.Visit q}
    (handed : Handed option defaultNames tried docs b) (unseen : option.Unseen tried)
    (compatible : docs.Pairwise Document.Compatible) (built : b.buildIndex = .ok b')
    (run : b'.indexer.retrieve q visits = .ok ids) (mem : id ∈ ids) :
    ∃ doc ∈ docs, doc.id = id ∧ ∃ conj ∈ doc.cons, conj.MatchedBy q := by
  have took := tookIn handed unseen
  obtain ⟨all, loaded⟩ := took.loaded
  obtain ⟨kinds, reads⟩ := retrieve_reads took.shows built run mem
  obtain ⟨docBits, run', members⟩ := retrieve_satisfied took.shows.wf loaded.holds.keeps loaded.formed
    (loaded.single_of_compatible compatible) built visits
    ⟨kinds, fun k _ => reads k⟩
  obtain rfl := Except.ok.inj (run.symm.trans run')
  rw [DocIDCollector.mem_getDocIDs, members] at mem
  simp only [toUInt64_inj] at mem
  obtain ⟨doc, hdoc, same, conj, hconj, _, matched⟩ := (satisfied_iff loaded id).mp mem
  exact ⟨doc, hdoc, same, conj, hconj, matched⟩

omit [FloatOps] [Codec] [AhoMachine] in
/-- Two versions of a document with the same content, in a builder with a cache. -/
theorem retrieve_single_again :
    let _ := FloatOps.noFloats
    let _ := Codec.single [str "3"] [0x0A, 1, 0x33] ⟨.eq, false, []⟩ []
    let _ := AhoMachine.naive
    let conj : Conjunction := ⟨AList.singleton (str "age") [⟨true, .ints .int (some [3]), .eq⟩]⟩
    let docs : List Document := [⟨1, 1, [conj]⟩, ⟨1, 2, [conj]⟩]
    let q : Assignments := AList.singleton (str "age") (.ints .int64 (some [3]))
    ∃ b b' ids, Handed ⟨.compact, .error, some .clear⟩ defaultNames docs docs b ∧ b.buildIndex = .ok b' ∧
      b'.indexer.retrieve q (fun _ => ⟨q.entries, .refl _⟩) = .ok ids ∧ 1 ∈ ids ∧
      ∃ d ∈ docs, d.id = 1 ∧ ∃ conj ∈ d.cons, conj.MatchedBy q := by
  intro _ _ _ conj docs q
  obtain ⟨b₀, made, b, _, added, built⟩ : ∃ b₀, newIndexerBuilder ⟨.compact, .error, some .clear⟩ = .ok b₀ ∧
      ∃ b u, b₀.addDocument .id docs = .ok (b, .ok u) ∧ okAnd (fun _ => true) b.buildIndex = true :=
    ⟨_, rfl, finished_iff.mp (by decide +kernel)⟩
  have handed : Handed ⟨.compact, .error, some .clear⟩ defaultNames docs docs b := .added (.new made) added
  have unseen : BuilderOption.Unseen ⟨.compact, .error, some .clear⟩ docs := by
    rintro cache ⟨⟩
    exact ⟨fun _ _ _ => rfl, by decide⟩
  have compatible : docs.Pairwise Document.Compatible := by
    simp only [docs, List.pairwise_pair]
    exact fun _ => Document.Compatible.refl ⟨1, 1, [conj]⟩ rfl
  have took := tookIn handed unseen
  obtain ⟨all, loaded⟩ := took.loaded
  obtain ⟨b', compiled, _⟩ := okAnd_iff.mp built
  obtain ⟨docBits, run, members⟩ := retrieve_satisfied (q := q) took.shows.wf loaded.holds.keeps loaded.formed
    (loaded.single_of_compatible compatible) compiled (fun _ => ⟨q.entries, .refl _⟩)
    ⟨fun grouped => absurd (took.kind.symm.trans grouped) (by decide), fun k _ a mem => by
      obtain rfl := List.mem_singleton.mp mem
      exact default_reads took.shows rfl k⟩
  have found : (1 : DocID) ∈ docBits.getDocIDs := by
    rw [DocIDCollector.mem_getDocIDs, members]
    simp only [toUInt64_inj]
    exact (satisfied_iff loaded 1).mpr ⟨⟨1, 1, [conj]⟩, List.mem_cons_self, rfl, _, List.mem_singleton.mpr rfl,
      fun skips => (by cases skips), by decide⟩
  exact ⟨b, b', _, handed, compiled, run, found, retrieve_single handed unseen compatible compiled run found⟩

/-! ### A document added twice -/

def twoFields (x y : GoString) : Conjunction :=
  ⟨(AList.singleton (str "b") [⟨true, .strings (some [y]), .eq⟩]).insert (str "a") [⟨true, .strings (some [x]), .eq⟩]⟩

def twoValues (x y : GoString) : Assignments :=
  (AList.singleton (str "b") (.strings (some [y]))).insert (str "a") (.strings (some [x]))

/-- The data of `twoFields`, at position 0 of document 1. -/
def twoFieldsTx (x y : GoString) : ConjTx where
  idx := 0
  incSize := 2
  conjID := packConjID 1 0 2
  txs := [⟨2, str "a", newEntryID (packConjID 1 0 2) true, .strTokens [x]⟩,
    ⟨2, str "b", newEntryID (packConjID 1 0 2) true, .strTokens [y]⟩]

omit [Codec] [AhoMachine] in
theorem prepare_twoFields (x y : GoString) :
    prepareConjTx (fun _ => HolderNameDefault) .error 1 (twoFields x y, 0) = .ok (some (twoFieldsTx x y)) := by
  have packed : newConjID 1 (0 : Nat) (2 : Nat) = .ok (packConjID 1 0 2) := by decide +kernel
  have size : (packConjID 1 0 2).size = 2 := by decide +kernel
  have listed : exprList (twoFields x y) = [(str "a", ⟨true, .strings (some [x]), .eq⟩),
      (str "b", ⟨true, .strings (some [y]), .eq⟩)] := rfl
  have each : ∀ (f z : GoString), prepareTx (fun _ => HolderNameDefault) (packConjID 1 0 2)
      (f, ⟨true, .strings (some [z]), .eq⟩) = .ok ⟨2, f, newEntryID (packConjID 1 0 2) true, .strTokens [z]⟩ := by
    intro f z
    rw [prepareTx, size]
    rfl
  rw [prepareConjTx, show (twoFields x y).calcConjSize = 2 from rfl]
  simp only [packed, bind, Except.bind, prepareTxs, listed, List.mapM_cons, List.mapM_nil,
    each]
  rfl

omit [Codec] [AhoMachine] in
/-- Values of two additions are enough for the conjunction id that both have. -/
theorem twoFields_hit {s : Store} {all : List ConjTx} {x y x' y' : GoString}
    (loaded : s.Loaded (fun _ => HolderNameDefault) .error
      [⟨1, 1, [twoFields x y]⟩, ⟨1, 2, [twoFields x' y']⟩] all) :
    s.HitsAt 2 (twoValues x y') (packConjID 1 0 2) := by
  have first : twoFieldsTx x y ∈ all := by
    obtain ⟨r, run, kept⟩ := loaded.whole ⟨1, 1, [twoFields x y]⟩ (by simp) (twoFields x y, 0) (by simp)
    rw [prepare_twoFields] at run
    exact kept _ (Except.ok.inj run ▸ rfl)
  have second : twoFieldsTx x' y' ∈ all := by
    obtain ⟨r, run, kept⟩ := loaded.whole ⟨1, 2, [twoFields x' y']⟩ (by simp) (twoFields x' y', 0) (by simp)
    rw [prepare_twoFields] at run
    exact kept _ (Except.ok.inj run ▸ rfl)
  have only : ∀ c ∈ all, ∀ tx ∈ c.txs, tx.eid = newEntryID (packConjID 1 0 2) true := by
    intro c mem tx htx
    obtain ⟨doc, hdoc, conj, hconj, run⟩ := loaded.only c mem
    obtain ⟨z, z', rfl⟩ : ∃ z z', c = twoFieldsTx z z' := by
      simp only [List.mem_cons, List.not_mem_nil, or_false] at hdoc
      rcases hdoc with rfl | rfl
      · obtain rfl : conj = (twoFields x y, 0) := by simpa using hconj
        exact ⟨x, y, (Option.some.inj (Except.ok.inj ((prepare_twoFields x y).symm.trans run))).symm⟩
      · obtain rfl : conj = (twoFields x' y', 0) := by simpa using hconj
        exact ⟨x', y', (Option.some.inj (Except.ok.inj ((prepare_twoFields x' y').symm.trans run))).symm⟩
    simp only [twoFieldsTx, List.mem_cons, List.not_mem_nil, or_false] at htx
    rcases htx with rfl | rfl <;> rfl
  have valid : ValidConjID (packConjID 1 0 2) := packConjID_valid (by decide) (by decide) (by decide)
  have entries : (twoValues x y').entries = [⟨str "a", .strings (some [x])⟩, ⟨str "b", .strings (some [y'])⟩] := rfl
  have answered : ∀ a ∈ (twoValues x y').entries, newEntryID (packConjID 1 0 2) true ∈ s.answer 2 a := by
    intro a ha
    rw [loaded.holds.keeps.answer_iff]
    rw [entries] at ha
    simp only [List.mem_cons, List.not_mem_nil, or_false] at ha
    rcases ha with rfl | rfl
    · exact ⟨_, first, _, List.mem_cons_self, Or.inr rfl, rfl, rfl, [x], rfl, x, List.mem_cons_self, List.mem_cons_self⟩
    · exact ⟨_, second, _, List.mem_cons_of_mem _ List.mem_cons_self, Or.inr rfl, rfl, rfl, [y'], rfl, y',
        List.mem_cons_self, List.mem_cons_self⟩
  constructor
  · have split : (s.zeros 2 :: (twoValues x y').entries.map (s.answer 2)).map Tape.unread =
        [Tape.unread (s.zeros 2)] ++ ((twoValues x y').entries.map (s.answer 2)).map Tape.unread := rfl
    have both : ∀ t ∈ ((twoValues x y').entries.map (s.answer 2)).map Tape.unread,
      byConj.Holds (packConjID 1 0 2) t := by
      intro t ht
      obtain ⟨_, hs, rfl⟩ := List.mem_map.mp ht
      obtain ⟨a, ha, rfl⟩ := List.mem_map.mp hs
      exact ⟨_, answered a ha, getConjID_newEntryID valid true⟩
    rw [split, count_append, count_eq_length both]
    simp [entries]
  · intro t ht e he _ veto
    obtain ⟨_, hs, rfl⟩ := List.mem_map.mp ht
    rcases List.mem_cons.mp hs with rfl | later
    · cases he.1
    · obtain ⟨a, _, rfl⟩ := List.mem_map.mp later
      obtain ⟨c, mem, tx, htx, _, _, rfl, _⟩ := (loaded.holds.keeps.answer_iff 2 a e).mp he
      rw [only c mem tx htx] at veto
      exact absurd veto (by simp [byConj, isInclude_newEntryID valid])

omit [FloatOps] [Codec] [AhoMachine] in
/-- Two versions of document 1, neither of which the query matches, are matched together. -/
theorem retrieve_mixes_versions :
    let _ := FloatOps.noFloats
    let _ := Codec.single [] [] ⟨.eq, false, []⟩ []
    let _ := AhoMachine.naive
    let docs : List Document := [⟨1, 1, [twoFields (str "x") (str "y")]⟩, ⟨1, 2, [twoFields (str "z") (str "w")]⟩]
    let q := twoValues (str "x") (str "w")
    ∃ b b' ids, Accepted ⟨.default, .error, none⟩ defaultNames docs b ∧ b.buildIndex = .ok b' ∧
      b'.indexer.retrieve q (fun _ => ⟨q.entries, .refl _⟩) = .ok ids ∧ 1 ∈ ids ∧
      ∀ doc ∈ docs, ∀ conj ∈ doc.cons, ¬ conj.MatchedBy q := by
  intro _ _ _ docs q
  obtain ⟨b₀, made, b, _, added, built⟩ : ∃ b₀, newIndexerBuilder ⟨.default, .error, none⟩ = .ok b₀ ∧
      ∃ b u, b₀.addDocument .id docs = .ok (b, .ok u) ∧ okAnd (fun _ => true) b.buildIndex = true :=
    ⟨_, rfl, finished_iff.mp (by decide +kernel)⟩
  have accepted : Accepted ⟨.default, .error, none⟩ defaultNames docs b := .added (.new made) added
  obtain ⟨shows, kind, all, loaded⟩ := loaded rfl accepted
  obtain ⟨b', compiled, _⟩ := okAnd_iff.mp built
  have tokenises : ∀ a ∈ q.entries, ∃ tokens, tokenizeAssign a.2 = .ok tokens := by
    intro a mem
    rcases List.mem_cons.mp mem with rfl | later
    · exact ⟨_, rfl⟩
    · obtain rfl := List.mem_singleton.mp later
      exact ⟨_, rfl⟩
  have sized : Assignments.size q = .ok 2 := rfl
  obtain ⟨docBits, run, members⟩ := kgroups_retrieve shows.1.wf (loaded.holds.keeps.usable loaded.formed) compiled kind
    (fun _ => ⟨q.entries, .refl _⟩) sized fun k _ _ a mem => by
      obtain ⟨tokens, tokenized⟩ := tokenises a mem
      exact default_reads shows.1 tokenized k
  refine ⟨b, b', _, accepted, compiled, run, ?_, by decide⟩
  rw [DocIDCollector.mem_getDocIDs, members]
  exact ⟨2, le_refl 2, packConjID 1 0 2, twoFields_hit loaded, by decide +kernel⟩

end Accepted

end BeIndexer
