import BeIndexer.Refinement.Holders
import BeIndexer.Retrieval.Safety

/-!
# The two indexes agree

One list of documents is given to a builder of the size-grouped index and to one of the compact index.
Both take in the same conjunctions, so what their retrievals return can differ only if one of them
fails to read a value of the query, and that depends on the fields which have a holder.
-/

namespace BeIndexer

open Calls IndexerBuilder

/-! ### What a store has taken in -/

theorem ConjTx.Same.refl (c : ConjTx) : c.Same c := ⟨rfl, rfl, fun _ => rfl⟩

theorem ConjTx.Same.mem {c d : ConjTx} (same : c.Same d) {tx : Tx} (mem : tx ∈ c.txs) : tx ∈ d.txs := by
  have here : tx ∈ txsOf tx.field c.txs := mem_txsOf.mpr ⟨mem, rfl⟩
  rw [same.txs] at here
  exact (mem_txsOf.mp here).1

theorem ConjTx.Same.satisfied [FloatOps] {c d : ConjTx} (same : c.Same d) {q : Assignments}
    (satisfied : c.SatisfiedBy q) : d.SatisfiedBy q := by
  refine ⟨fun tx mem incl => ?_, fun tx mem => satisfied.excludes tx (same.symm.mem mem)⟩
  obtain ⟨tx', mem', met⟩ := satisfied.includes tx (same.symm.mem mem) incl
  exact ⟨tx', same.mem mem', met⟩

theorem Postings.fresh_open {container : GoString} (named : container ∈ servedNames) : (fresh container).Open := by
  simp only [servedNames, List.mem_cons, List.not_mem_nil, or_false] at named
  rcases named with rfl | rfl
  · trivial
  · exact ⟨rfl, rfl, rfl, rfl⟩

namespace Store

variable [FloatOps] {s s' : Store} {all : List ConjTx} {ids : List DocID}

theorem Keeps.configure (keeps : s.Keeps all) {f : BEField} (unused : ∀ k, s.posts k f = .empty) {container : GoString}
    (named : container ∈ Postings.servedNames) :
    (s.configure f container).Keeps all ∧ s.Extends (s.configure f container) := by
  obtain ⟨standard, uncompiled⟩ := Postings.open_iff.mp (Postings.fresh_open named)
  refine ⟨⟨⟨fun k g => ?_, fun k g v e => ?_⟩, keeps.wildcard⟩, rfl, fun k g => ?_⟩
  · simp only [Store.configure]
    split
    · exact standard
    · exact keeps.recalls.standard k g
  · refine Iff.trans ?_ (keeps.recalls.answers k g v e)
    simp only [Store.configure]
    split
    · rename_i same
      rw [same, unused]
      exact iff_of_false (Postings.fresh_answers (Postings.fresh_served named).1 v e) (Postings.empty_answers v e)
    · rfl
  · simp only [Store.configure]
    split
    · exact fun compiled => absurd compiled uncompiled
    · exact fun compiled => compiled

/-- The store answers with conjunctions of the documents with the given ids, each under an id of its own. -/
structure Took (s : Store) (ids : List DocID) (all : List ConjTx) : Prop where
  keeps : s.Keeps all
  formed : ∀ c ∈ all, c.Formed
  taken : ∀ c ∈ all, c.conjID.docID ∈ ids
  distinct : (all.map ConjTx.conjID).Nodup

theorem Took.single (took : s.Took ids all) : Single all := by
  intro c hc d hd same tx htx
  rwa [List.inj_on_of_nodup_map took.distinct hc hd same]

theorem Took.mono (took : s.Took ids all) {more : List DocID} (sub : ids ⊆ more) : s.Took more all :=
  ⟨took.keeps, took.formed, fun c mem => sub (took.taken c mem), took.distinct⟩

/-- No range of the document that is kept as an interval comes too late for the cells of its field. -/
def Fits (s : Store) (C : BEField → GoString) (doc : Document) : Prop :=
  ∀ conj ∈ doc.cons, ∀ expr ∈ exprList conj, C expr.1 = HolderNameExtendRange →
    RangeHolder.KeepsInterval newRangeHolderOption expr.2 → ¬ (s.posts conj.calcConjSize expr.1).Compiled

theorem Uncompiled.fits (uncompiled : s.Uncompiled) (C : BEField → GoString) (doc : Document) : s.Fits C doc :=
  fun _ _ _ _ _ _ => uncompiled _ _

theorem Fits.later {C : BEField → GoString} {doc : Document} (fits : s.Fits C doc) (grows : s.Extends s') :
    s'.Fits C doc :=
  fun conj mem expr listed named kept compiled => fits conj mem expr listed named kept (grows.compiled _ _ compiled)

/-- Data that is kept as an interval comes from a range in the range container. -/
theorem prepareExpr_kept {container : GoString} {f : BEField} {bv : BoolValues} {data : IndexingData}
    (named : container ∈ Postings.servedNames) (run : prepareExpr container f bv = .ok data) (kept : data.Kept) :
    container = HolderNameExtendRange ∧ RangeHolder.KeepsInterval newRangeHolderOption bv := by
  simp only [Postings.servedNames, List.mem_cons, List.not_mem_nil, or_false] at named
  rcases named with rfl | rfl
  · obtain ⟨_, made, rfl⟩ := map_eq_ok.mp run
    obtain ⟨values, _, done⟩ := bind_eq_ok.mp made
    obtain rfl := Except.ok.inj done
    exact kept.elim
  · obtain ⟨_, made, rfl⟩ := map_eq_ok.mp run
    obtain ⟨data, built, done⟩ := bind_eq_ok.mp made
    obtain rfl := Except.ok.inj done
    exact ⟨rfl, RangeHolder.buildFieldIndexingData_kept built kept⟩

theorem Fits.places {C : BEField → GoString} {B : BadConjBehavior} {doc : Document} (fits : s.Fits C doc)
    (named : ∀ f, C f ∈ Postings.servedNames) {found : List (Option ConjTx)}
    (prepared : doc.cons.zipIdx.mapM (prepareConjTx C B doc.id) = .ok found) :
    ∀ c ∈ found.reduceOption, s.Places c.txs := by
  intro c mem tx inside compiled kept
  obtain ⟨conj, listed, made⟩ := mem_mapM prepared (List.reduceOption_mem_iff.mp mem)
  obtain ⟨packed, _, _, prepared⟩ := prepareConjTx_some made
  obtain ⟨expr, listed', made⟩ := mem_mapM prepared inside
  obtain ⟨data, size, field⟩ := prepareTx_ok made
  have same := Int.ofNat.inj (newConjID_fields packed).2.1
  rw [size, same, field] at compiled
  obtain ⟨isRange, interval⟩ := prepareExpr_kept (named expr.1) data kept
  exact fits conj.1 (List.fst_mem_of_mem_zipIdx listed) expr listed' isRange interval compiled

theorem prepared_nodup {C : BEField → GoString} {B : BadConjBehavior} {docID : DocID}
    {cons : List Conjunction} {n : Nat}
    {found : List (Option ConjTx)} (run : (cons.zipIdx n).mapM (prepareConjTx C B docID) = .ok found) :
    (found.reduceOption.map ConjTx.conjID).Nodup := by
  induction cons generalizing n found with
  | nil =>
    obtain rfl := Except.ok.inj run
    exact List.nodup_nil
  | cons conj cons ih =>
    rw [List.zipIdx_cons, List.mapM_cons] at run
    obtain ⟨c, first, rest⟩ := bind_eq_ok.mp run
    obtain ⟨cs, later, done⟩ := bind_eq_ok.mp rest
    obtain rfl := Except.ok.inj done
    cases c with
    | none =>
      rw [List.reduceOption_cons_of_none]
      exact ih later
    | some c =>
      rw [List.reduceOption_cons_of_some, List.map_cons, List.nodup_cons]
      refine ⟨fun mem => ?_, ih later⟩
      obtain ⟨d, hd, same⟩ := List.mem_map.mp mem
      obtain ⟨⟨conj', i⟩, listed, made⟩ := mem_mapM later (List.reduceOption_mem_iff.mp hd)
      obtain ⟨_, _, index, _⟩ := newConjID_fields (prepareConjTx_some first).1
      obtain ⟨_, _, index', _⟩ := newConjID_fields (prepareConjTx_some made).1
      have after := List.le_snd_of_mem_zipIdx listed
      rw [same] at index'
      dsimp only at index index' after
      omega

theorem Took.commits (took : s.Took ids all) {C : BEField → GoString} {B : BadConjBehavior} {docID : DocID}
    (fresh : docID ∉ ids) {cons : List Conjunction} {found : List (Option ConjTx)}
    (prepared : cons.zipIdx.mapM (prepareConjTx C B docID) = .ok found)
    (places : ∀ c ∈ found.reduceOption, s.Places c.txs)
    (run : found.reduceOption.foldlM commitConj s = .ok s') :
    s'.Took (ids ++ [docID]) (all ++ found.reduceOption) ∧ s.Extends s' := by
  have made : ∀ c ∈ found.reduceOption, c.Formed ∧ c.conjID.docID = docID := by
    intro c mem
    obtain ⟨conj, _, made⟩ := mem_mapM prepared (List.reduceOption_mem_iff.mp mem)
    exact ⟨prepareConjTx_formed made, (newConjID_fields (prepareConjTx_some made).1).2.2.2⟩
  obtain ⟨keeps, grows⟩ := commitConjs_keeps took.keeps places run
  refine ⟨⟨keeps, fun c mem => ?_, fun c mem => ?_, ?_⟩, grows⟩
  · exact (List.mem_append.mp mem).elim (took.formed c) fun new => (made c new).1
  · rcases List.mem_append.mp mem with old | new
    · exact List.mem_append_left _ (took.taken c old)
    · rw [(made c new).2]
      exact List.mem_append_right _ List.mem_cons_self
  · rw [List.map_append, List.nodup_append]
    refine ⟨took.distinct, prepared_nodup prepared, ?_⟩
    rintro _ hid _ hid' rfl
    obtain ⟨c, old, rfl⟩ := List.mem_map.mp hid
    obtain ⟨d, new, same⟩ := List.mem_map.mp hid'
    have known := took.taken c old
    rw [← same, (made d new).2] at known
    exact fresh known

end Store

/-! ### Visits that do not matter -/

section InStep

variable [FloatOps] {C : BEField → GoString} {B : BadConjBehavior}

/-- One conjunction as two builders visit it: its fields come in the same order, or all of its
expressions can be prepared. -/
def Conjunction.InStep (C : BEField → GoString) (c d : Conjunction) : Prop :=
  c = d ∨ c.Same d ∧ ∀ expr ∈ exprList c, ∃ data, prepareExpr (C expr.1) expr.1 expr.2 = .ok data

def Document.InStep (C : BEField → GoString) (d e : Document) : Prop :=
  d.id = e.id ∧ d.version = e.version ∧ List.Forall₂ (Conjunction.InStep C) d.cons e.cons

theorem Conjunction.InStep.steps {c d : Conjunction} (inStep : c.InStep C d) :
    SamePlan (conjSteps C B c) (conjSteps C B d) := by
  rcases inStep with rfl | ⟨same, prepared⟩
  · exact SamePlan.refl _
  · have prepared' : ∀ expr ∈ exprList d, ∃ data, prepareExpr (C expr.1) expr.1 expr.2 = .ok data :=
      fun expr mem => prepared expr ((exprList_perm same).mem_iff.mpr mem)
    have marks : ∀ m, m ∈ visited C c ↔ m ∈ visited C d := by
      intro m
      rw [visited_all prepared, visited_all prepared', same.calcConjSize]
      simp only [(exprList_perm same).mem_iff]
    unfold conjSteps
    split
    · exact ⟨by simp [Succeed], by simpa [upTo] using marks⟩
    · exact ⟨iff_of_true (conjPlan_succeed.mpr prepared) (conjPlan_succeed.mpr prepared'), marks⟩

theorem Document.InStep.steps {d e : Document} (inStep : d.InStep C e) :
    SamePlan (docSteps C B d) (docSteps C B e) := by
  have valid : validDocument d = validDocument e := by
    rw [validDocument, validDocument, inStep.2.2.length_eq]
  unfold docSteps
  rw [valid]
  exact (SamePlan.refl [_]).append (SamePlan.flatMap (inStep.2.2.imp fun _ _ inStep => inStep.steps))

theorem prepareConjTx_inStep {c d : Conjunction} {docID : DocID} {i : Nat} {r r' : Option ConjTx}
    (inStep : c.InStep C d)
    (run : prepareConjTx C B docID (c, i) = .ok r) (run' : prepareConjTx C B docID (d, i) = .ok r') :
    Option.Rel ConjTx.Same r r' := by
  rcases inStep with rfl | ⟨same, prepared⟩
  · obtain rfl := Except.ok.inj (run.symm.trans run')
    cases r with
    | none => exact .none
    | some c => exact .some (ConjTx.Same.refl c)
  · have settled : Settled C B d := fun expr mem => Or.inl (prepared expr ((exprList_perm same).mem_iff.mpr mem))
    obtain ⟨r'', again, rel⟩ := prepareConjTx_same same (fun _ _ => rfl) settled run
    obtain rfl := Except.ok.inj (run'.symm.trans again)
    exact rel

theorem prepareConjs_inStep {cs ds : List Conjunction} {docID : DocID} {n : Nat} {found found' : List (Option ConjTx)}
    (inStep : List.Forall₂ (Conjunction.InStep C) cs ds)
    (run : (cs.zipIdx n).mapM (prepareConjTx C B docID) = .ok found)
    (run' : (ds.zipIdx n).mapM (prepareConjTx C B docID) = .ok found') :
    List.Forall₂ ConjTx.Same found.reduceOption found'.reduceOption := by
  induction inStep generalizing n found found' with
  | nil =>
    obtain rfl := Except.ok.inj run
    obtain rfl := Except.ok.inj run'
    exact .nil
  | cons head _ ih =>
    rw [List.zipIdx_cons, List.mapM_cons] at run run'
    obtain ⟨c, first, rest⟩ := bind_eq_ok.mp run
    obtain ⟨cs, later, done⟩ := bind_eq_ok.mp rest
    obtain rfl := Except.ok.inj done
    obtain ⟨c', first', rest'⟩ := bind_eq_ok.mp run'
    obtain ⟨cs', later', done'⟩ := bind_eq_ok.mp rest'
    obtain rfl := Except.ok.inj done'
    cases prepareConjTx_inStep head first first' with
    | none =>
      rw [List.reduceOption_cons_of_none, List.reduceOption_cons_of_none]
      exact ih later later'
    | some same => exact .cons same (ih later later')

end InStep

/-! ### Builders in step -/

namespace IndexerBuilder

variable [FloatOps] {C : BEField → GoString} {B : BadConjBehavior} {b b' b₁ b₁' b₂ b₂' : IndexerBuilder}
  {ids : List DocID}
  {all : List ConjTx} {came : Set DocID}

/-- A builder that has taken in `all` from the documents with the given ids. Its cache has entries for these
and for the documents it came with. -/
structure Taking (C : BEField → GoString) (B : BadConjBehavior) (came : Set DocID) (ids : List DocID)
    (b : IndexerBuilder) (all : List ConjTx) : Prop where
  shows : Shows C B b b.store
  cached : b.CachesOnly {key | key.docID ∈ came ∨ key.docID ∈ ids}
  took : b.store.Took ids all

theorem Taking.mono (taking : Taking C B came ids b all) {more : List DocID} (sub : ids ⊆ more) :
    Taking C B came more b all :=
  ⟨taking.shows, taking.cached.mono fun _ mem => mem.imp_right fun mem => sub mem, taking.took.mono sub⟩

variable [Codec] {loops loops₁ loops₂ : MapLoops}

omit [Codec] in
theorem Taking.misses (taking : Taking C B came ids b all) {doc : Document} (unseen : doc.id ∉ came)
    (fresh : doc.id ∉ ids) : b.cachedEntry doc = none :=
  taking.cached.misses fun _ => not_or.mpr ⟨unseen, fresh⟩

theorem Taking.addOne (taking : Taking C B came ids b all) (named : ∀ f, C f ∈ Postings.servedNames) {doc : Document}
    (unseen : doc.id ∉ came) (fresh : doc.id ∉ ids) (fits : b.store.Fits C doc) {r : Except GoError Unit}
    (run : addOne loops b doc = .ok (b', r)) :
    b.store.Extends b'.store ∧ ((∃ err, r = .error err ∧ Taking C B came (ids ++ [doc.id]) b' all) ∨
      ∃ found, r = .ok () ∧ doc.cons.zipIdx.mapM (prepareConjTx C B doc.id) = .ok found ∧
        Taking C B came (ids ++ [doc.id]) b' (all ++ found.reduceOption)) := by
  have plain : ∀ f, C f ≠ HolderNameOptimizedRange := fun f => servedNames_plain (named f)
  have follows := addOne_misses taking.shows loops (taking.misses unseen fresh) fun _ _ _ _ =>
    EntriesHolder.quiet_of_ne (plain _)
  rw [run] at follows
  obtain ⟨s', shows, added⟩ := follows.returns_left
  obtain rfl := shows.store
  have cached : b'.CachesOnly {key | key.docID ∈ came ∨ key.docID ∈ ids ++ [doc.id]} := by
    refine (taking.cached.addOne run).mono (Set.insert_subset ?_ fun key mem => ?_)
    · exact Or.inr (List.mem_append_right _ List.mem_cons_self)
    · exact mem.imp_right fun mem => List.mem_append_left _ mem
  rcases addOne_cases added with ⟨err, failed, kept⟩ | ⟨found, prepared, done, commits⟩
  · refine ⟨kept ▸ Store.Extends.refl _, Or.inl ⟨err, failed, shows, cached, ?_⟩⟩
    rw [kept]
    exact taking.took.mono (List.subset_append_left _ _)
  · obtain ⟨took, grows⟩ := taking.took.commits fresh prepared (fits.places named prepared) commits
    exact ⟨grows, Or.inr ⟨found, done, prepared, shows, cached, took⟩⟩

omit [Codec] in
theorem Taking.configField (taking : Taking C B came ids b all) {f : BEField} {container : GoString}
    (named : container.isEmpty = true ∨ container ∈ Postings.servedNames)
    (run : b.configField loops f container = .ok b') :
    Taking (Function.update C f (if container.isEmpty then HolderNameDefault else container)) B came ids b' all ∧
      b.store.Extends b'.store := by
  obtain ⟨unused, shows⟩ := configField_shows taking.shows run
  have store := shows.store
  obtain ⟨keeps, grows⟩ := taking.took.keeps.configure unused (chosen_served named)
  rw [← store] at keeps grows
  exact ⟨⟨store ▸ shows, .configField run, keeps, taking.took.formed, taking.took.taken, taking.took.distinct⟩, grows⟩

/-- Two builders that have taken in the same conjunctions, where the second has every container and
holder that the first has. -/
structure Twins (C : BEField → GoString) (B : BadConjBehavior) (came : Set DocID) (ids : List DocID)
    (b₁ b₂ : IndexerBuilder) : Prop where
  named : ∀ f, C f ∈ Postings.servedNames
  kinds : b₁.indexer.isCompact = true → b₂.indexer.isCompact = true
  marks : ∀ m, b₁.Marked m → b₂.Marked m
  taken : ∃ all₁ all₂, Taking C B came ids b₁ all₁ ∧ Taking C B came ids b₂ all₂ ∧ List.Forall₂ ConjTx.Same all₁ all₂

omit [Codec] in
theorem Twins.mono (twins : Twins C B came ids b₁ b₂) {more : List DocID} (sub : ids ⊆ more) :
    Twins C B came more b₁ b₂ := by
  obtain ⟨all₁, all₂, taking₁, taking₂, same⟩ := twins.taken
  exact ⟨twins.named, twins.kinds, twins.marks, all₁, all₂, taking₁.mono sub, taking₂.mono sub, same⟩

omit [FloatOps] [Codec] in
theorem brings_mono {m m' : Mark} {c d : Bool} (le : c = true → d = true) (brings : m.Brings c C m') :
    m.Brings d C m' := by
  cases m <;> cases m' <;> simp only [Mark.Brings] at brings ⊢ <;> tauto

theorem Twins.addOne (twins : Twins C B came ids b₁ b₂) {d e : Document} (inStep : d.InStep C e) (unseen : d.id ∉ came)
    (fresh : d.id ∉ ids) (fits₁ : b₁.store.Fits C d) (fits₂ : b₂.store.Fits C e) {r₁ r₂ : Except GoError Unit}
    (run₁ : addOne loops₁ b₁ d = .ok (b₁', r₁)) (run₂ : addOne loops₂ b₂ e = .ok (b₂', r₂)) :
    Twins C B came (ids ++ [d.id]) b₁' b₂' ∧ ((∃ u, r₁ = .ok u) ↔ ∃ u, r₂ = .ok u) ∧
      b₁.store.Extends b₁'.store ∧ b₂.store.Extends b₂'.store := by
  have plain : ∀ f, C f ≠ HolderNameOptimizedRange := fun f => servedNames_plain (twins.named f)
  obtain ⟨all₁, all₂, taking₁, taking₂, same⟩ := twins.taken
  have unseen₂ : e.id ∉ came := inStep.1 ▸ unseen
  have fresh₂ : e.id ∉ ids := inStep.1 ▸ fresh
  obtain ⟨kind₁, marks₁, status₁⟩ := addOne_marked taking₁.shows (taking₁.misses unseen fresh) plain run₁
  obtain ⟨kind₂, marks₂, status₂⟩ := addOne_marked taking₂.shows (taking₂.misses unseen₂ fresh₂) plain run₂
  have steps := inStep.steps (B := B)
  have status : (∃ u, r₁ = .ok u) ↔ ∃ u, r₂ = .ok u := by rw [status₁, status₂, steps.succeed]
  have kinds : b₁'.indexer.isCompact = true → b₂'.indexer.isCompact = true := by
    rw [kind₁, kind₂]
    exact twins.kinds
  have marks : ∀ m, b₁'.Marked m → b₂'.Marked m := by
    intro m
    rw [marks₁, marks₂]
    rintro (old | ⟨m', made, brings⟩)
    · exact Or.inl (twins.marks m old)
    · exact Or.inr ⟨m', (steps.writes m').mp made, brings_mono twins.kinds brings⟩
  obtain ⟨grows₁, ends₁⟩ := taking₁.addOne twins.named unseen fresh fits₁ run₁
  obtain ⟨grows₂, ends₂⟩ := taking₂.addOne twins.named unseen₂ fresh₂ fits₂ run₂
  rw [← inStep.1] at ends₂
  refine ⟨⟨twins.named, kinds, marks, ?_⟩, status, grows₁, grows₂⟩
  rcases ends₁ with ⟨_, rfl, taking₁'⟩ | ⟨found₁, rfl, prepared₁, taking₁'⟩
  · rcases ends₂ with ⟨_, rfl, taking₂'⟩ | ⟨_, rfl, _, _⟩
    · exact ⟨all₁, all₂, taking₁', taking₂', same⟩
    · obtain ⟨_, absurd⟩ := status.mpr ⟨_, rfl⟩
      cases absurd
  · rcases ends₂ with ⟨_, rfl, _⟩ | ⟨found₂, _, prepared₂, taking₂'⟩
    · obtain ⟨_, absurd⟩ := status.mp ⟨_, rfl⟩
      cases absurd
    · exact ⟨_, _, taking₁', taking₂', List.rel_append same (prepareConjs_inStep inStep.2.2 prepared₁ prepared₂)⟩

/-- A call that stops at a document that fails does so on both sides. -/
theorem Twins.addDocs {ds es : List Document} (twins : Twins C B came ids b₁ b₂)
    (inStep : List.Forall₂ (Document.InStep C) ds es) (unseen : ∀ d ∈ ds, d.id ∉ came)
    (distinct : (ids ++ ds.map Document.id).Nodup)
    (fits₁ : ∀ d ∈ ds, b₁.store.Fits C d) (fits₂ : ∀ e ∈ es, b₂.store.Fits C e)
    {r₁ r₂ : Except GoError (List Unit)} (run₁ : mapCalls (IndexerBuilder.addOne loops₁) b₁ ds = .ok (b₁', r₁))
    (run₂ : mapCalls (IndexerBuilder.addOne loops₂) b₂ es = .ok (b₂', r₂)) :
    Twins C B came (ids ++ ds.map Document.id) b₁' b₂' ∧ b₁.store.Extends b₁'.store ∧ b₂.store.Extends b₂'.store := by
  induction inStep generalizing ids b₁ b₂ r₁ r₂ with
  | nil =>
    obtain ⟨rfl, _⟩ := Prod.mk.inj (Except.ok.inj run₁)
    obtain ⟨rfl, _⟩ := Prod.mk.inj (Except.ok.inj run₂)
    exact ⟨by simpa using twins, Store.Extends.refl _, Store.Extends.refl _⟩
  | @cons d e ds es head _ ih =>
    have fresh : d.id ∉ ids := by
      intro mem
      exact (List.nodup_append.mp distinct).2.2 d.id mem d.id List.mem_cons_self rfl
    have unseen' := unseen d List.mem_cons_self
    have fits₁' := fits₁ d List.mem_cons_self
    have fits₂' := fits₂ e List.mem_cons_self
    rw [List.map_cons, ← List.singleton_append, ← List.append_assoc] at distinct ⊢
    rcases mapCalls_cons_cases run₁ with ⟨_, failed₁, _⟩ | ⟨_, _, _, first₁, rest₁, _⟩
    · rcases mapCalls_cons_cases run₂ with ⟨_, failed₂, _⟩ | ⟨_, _, _, first₂, _, _⟩
      · obtain ⟨twins', _, grows₁, grows₂⟩ := twins.addOne head unseen' fresh fits₁' fits₂' failed₁ failed₂
        exact ⟨twins'.mono (List.subset_append_left _ _), grows₁, grows₂⟩
      · obtain ⟨_, absurd⟩ := (twins.addOne head unseen' fresh fits₁' fits₂' failed₁ first₂).2.1.mpr ⟨_, rfl⟩
        cases absurd
    · rcases mapCalls_cons_cases run₂ with ⟨_, failed₂, _⟩ | ⟨_, _, _, first₂, rest₂, _⟩
      · obtain ⟨_, absurd⟩ := (twins.addOne head unseen' fresh fits₁' fits₂' first₁ failed₂).2.1.mp ⟨_, rfl⟩
        cases absurd
      · obtain ⟨twins', _, grows₁, grows₂⟩ := twins.addOne head unseen' fresh fits₁' fits₂' first₁ first₂
        obtain ⟨twins'', grows₁', grows₂'⟩ := ih twins' (fun d mem => unseen d (List.mem_cons_of_mem _ mem)) distinct
          (fun d mem => (fits₁ d (List.mem_cons_of_mem _ mem)).later grows₁)
          (fun e mem => (fits₂ e (List.mem_cons_of_mem _ mem)).later grows₂) rest₁ rest₂
        exact ⟨twins'', grows₁.trans grows₁', grows₂.trans grows₂'⟩

omit [FloatOps] [Codec] in
theorem configField_marked (wf : b.WF) {f : BEField} {container : GoString}
    (run : b.configField loops f container = .ok b') (m : Mark) : b'.Marked m ↔ b.Marked m ∨
      ((if container.isEmpty then HolderNameDefault else container) = HolderNameDefault ∧ ∃ k, m = .holder k f) := by
  obtain ⟨fresh, _, same⟩ := configField_cases run
  exact add_marked wf fresh (by rw [same]) (by rw [same]) m

omit [Codec] in
theorem Twins.configField (twins : Twins C B came ids b₁ b₂) {f : BEField} {container : GoString}
    (named : container.isEmpty = true ∨ container ∈ Postings.servedNames)
    (run₁ : b₁.configField loops₁ f container = .ok b₁') (run₂ : b₂.configField loops₂ f container = .ok b₂') :
    Twins (Function.update C f (if container.isEmpty then HolderNameDefault else container)) B came ids b₁' b₂' ∧
      b₁.store.Extends b₁'.store ∧ b₂.store.Extends b₂'.store := by
  obtain ⟨all₁, all₂, taking₁, taking₂, same⟩ := twins.taken
  obtain ⟨taking₁', grows₁⟩ := taking₁.configField named run₁
  obtain ⟨taking₂', grows₂⟩ := taking₂.configField named run₂
  refine ⟨⟨fun g => ?_, fun compact => ?_, fun m => ?_, all₁, all₂, taking₁', taking₂', same⟩, grows₁, grows₂⟩
  · rw [Function.update_apply]
    split
    · exact chosen_served named
    · exact twins.named g
  · have before : b₁.indexer.isCompact = true := grows₁.compact.symm.trans compact
    exact grows₂.compact.trans (twins.kinds before)
  · rw [configField_marked taking₁.shows.wf run₁, configField_marked taking₂.shows.wf run₂]
    exact Or.imp_left (twins.marks m)

end IndexerBuilder

/-! ### Retrieval -/

theorem EntriesHolder.reads_kind [FloatOps] {h h' : EntriesHolder} (same : h.kind = h'.kind) {v : Value}
    (reads : h.Reads v) : h'.Reads v := by
  cases h with
  | default h =>
    cases h' with
    | default h' => exact reads
    | _ => cases same
  | range h =>
    cases h' with
    | range h' =>
      injection same with option
      rw [Reads, ← option]
      exact reads
    | _ => cases same
  | optimizedRange h =>
    cases h' with
    | optimizedRange h' => trivial
    | _ => cases same
  | acMatcher h =>
    cases h' with
    | acMatcher h' => trivial
    | _ => cases same

namespace IndexerBuilder

variable [FloatOps] [AhoMachine] {C : BEField → GoString} {B : BadConjBehavior} {b₁ b₁' b₂ b₂' : IndexerBuilder}
  {ids : List DocID} {came : Set DocID} {q : Assignments}

omit [AhoMachine] in
theorem Twins.reads (twins : Twins C B came ids b₁ b₂) {a : Sigma fun _ : BEField => Value} {k : Nat}
    (reads : (b₂.indexer.container k).Reads b₂.fieldsData a) : (b₁.indexer.container k).Reads b₁.fieldsData a := by
  obtain ⟨_, _, taking₁, taking₂, _⟩ := twins.taken
  intro desc h known held
  obtain ⟨desc', known', has⟩ := twins.marks (.holder k a.1) ⟨desc, known, by simp [held]⟩
  obtain ⟨h', held'⟩ := Option.ne_none_iff_exists'.mp has
  have of : h.Of (C a.1) := by
    rw [← taking₁.shows.container known]
    exact EntriesContainer.heldBy_of (taking₁.shows.wf.fits k) known (by rw [EntriesContainer.heldBy, held]; rfl)
  have of' : h'.Of (C a.1) := by
    rw [← taking₂.shows.container known']
    exact EntriesContainer.heldBy_of (taking₂.shows.wf.fits k) known' (by rw [EntriesContainer.heldBy, held']; rfl)
  have same : h'.kind = h.kind := Option.some.inj (of'.symm.trans of)
  exact EntriesHolder.reads_kind same (reads desc' h' known' held')

omit [AhoMachine] in
theorem Twins.canRead (twins : Twins C B came ids b₁ b₂)
    (plain : b₁.indexer.isCompact = false → ∀ a ∈ q.entries, a.2.isArray = false) (canRead : b₂.CanRead q) :
    b₁.CanRead q := by
  refine ⟨plain, fun k scans a mem => twins.reads (canRead.reads k ⟨?_, fun grouped => scans.2 ?_⟩ a mem)⟩
  · exact twins.marks (.size k) scans.1
  · cases kind : b₁.indexer.isCompact with
    | false => rfl
    | true => rw [← grouped, twins.kinds kind]

theorem Twins.agree (twins : Twins C B came ids b₁ b₂) (built₁ : b₁.buildIndex = .ok b₁')
    (built₂ : b₂.buildIndex = .ok b₂')
    (plain : b₁.indexer.isCompact = false → ∀ a ∈ q.entries, a.2.isArray = false)
    (visits₁ visits₂ : Nat → GoMap.Visit q)
    {found : List DocID} (run : b₂'.indexer.retrieve q visits₂ = .ok found) :
    b₁'.indexer.retrieve q visits₁ = .ok found := by
  obtain ⟨all₁, all₂, ⟨shows₁, _, took₁⟩, ⟨shows₂, _, took₂⟩, same⟩ := twins.taken
  have canRead := retrieve_canRead built₂ run
  obtain ⟨docBits₁, run₁, members₁⟩ := retrieve_satisfied shows₁.wf took₁.keeps took₁.formed took₁.single built₁ visits₁
    (twins.canRead plain canRead)
  obtain ⟨docBits₂, run₂, members₂⟩ := retrieve_satisfied shows₂.wf took₂.keeps took₂.formed took₂.single built₂ visits₂
    canRead
  have bits : docBits₁ = docBits₂ := by
    ext x
    rw [members₁, members₂]
    constructor
    · rintro ⟨c, mem, satisfied, doc⟩
      obtain ⟨d, mem', same⟩ := forall₂_left same mem
      exact ⟨d, mem', same.satisfied satisfied, same.conjID ▸ doc⟩
    · rintro ⟨d, mem, satisfied, doc⟩
      obtain ⟨c, mem', same⟩ := forall₂_right same mem
      exact ⟨c, mem', same.symm.satisfied satisfied, same.conjID ▸ doc⟩
  rw [run₁, bits, ← run₂, run]

end IndexerBuilder

/-! ### The same documents -/

/-- A builder of each index that the same calls were made on, each with or without a cache. The documents are
listed as each builder visited their maps; `InStep` says which visits of one document are meant, given the
containers of the fields. -/
inductive Paired [FloatOps] [Codec] (InStep : (BEField → GoString) → Document → Document → Prop) (B : BadConjBehavior)
    (cache₁ cache₂ : Option DocLevelCache) : List Document → List Document → IndexerBuilder → IndexerBuilder → Prop
  | new {b₁ b₂ : IndexerBuilder} (made₁ : newIndexerBuilder ⟨.default, B, cache₁⟩ = .ok b₁)
      (made₂ : newIndexerBuilder ⟨.compact, B, cache₂⟩ = .ok b₂) : Paired InStep B cache₁ cache₂ [] [] b₁ b₂
  | configured {docs₁ docs₂ : List Document} {b₁ b₁' b₂ b₂' : IndexerBuilder} {loops₁ loops₂ : MapLoops}
      {field : BEField} {container : GoString} (before : Paired InStep B cache₁ cache₂ docs₁ docs₂ b₁ b₂)
      (named : container.isEmpty = true ∨ container ∈ Postings.servedNames)
      (run₁ : b₁.configField loops₁ field container = .ok b₁')
      (run₂ : b₂.configField loops₂ field container = .ok b₂') : Paired InStep B cache₁ cache₂ docs₁ docs₂ b₁' b₂'
  | added {docs₁ docs₂ more₁ more₂ : List Document} {b₁ b₁' b₂ b₂' : IndexerBuilder} {loops₁ loops₂ : MapLoops}
      {r₁ r₂ : Except GoError Unit} (before : Paired InStep B cache₁ cache₂ docs₁ docs₂ b₁ b₂)
      (inStep : List.Forall₂ (InStep b₁.containers) more₁ more₂) (run₁ : b₁.addDocument loops₁ more₁ = .ok (b₁', r₁))
      (run₂ : b₂.addDocument loops₂ more₂ = .ok (b₂', r₂)) :
      Paired InStep B cache₁ cache₂ (docs₁ ++ more₁) (docs₂ ++ more₂) b₁' b₂'

section

variable [FloatOps] [Codec] {B : BadConjBehavior} {cache₁ cache₂ : Option DocLevelCache} {docs₁ docs₂ : List Document}
  {b₁ b₁' b₂ b₂' : IndexerBuilder}

omit [Codec] in
theorem new_taking {option : BuilderOption} {b : IndexerBuilder} (made : newIndexerBuilder option = .ok b)
    {came : Set DocID}
    (cached : ∀ cache ∈ option.docLevelCache, ∀ key entry, cache key = some entry → key.docID ∈ came) :
    Taking (fun _ => HolderNameDefault) option.badConjBehavior came [] b [] ∧ b.store.Uncompiled ∧
      b.indexer.isCompact = (option.indexerType == .compact) ∧ ∀ k f, ¬ b.Marked (.holder k f) := by
  obtain ⟨keeps, uncompiled⟩ := Store.holds_iff.mp (Accepted.new_loaded (B := .error) made).holds
  obtain ⟨shows, kind⟩ := Accepted.new_shows made
  obtain ⟨idx, _, done⟩ := bind_eq_ok.mp made
  have only : b.CachesOnly {key | key.docID ∈ came ∨ key.docID ∈ []} := by
    intro cache had key entry found
    have same : option.docLevelCache = some cache := by rw [← had, ← Except.ok.inj done]
    exact Or.inl (cached cache same key entry found)
  refine ⟨⟨shows, only, keeps, by simp, by simp, List.nodup_nil⟩, uncompiled, kind, fun k f => ?_⟩
  obtain rfl := Except.ok.inj done
  rintro ⟨_, ⟨⟩, _⟩

theorem Paired.twins {came : Set DocID} (paired : Paired Document.InStep B cache₁ cache₂ docs₁ docs₂ b₁ b₂)
    (cached₁ : ∀ cache ∈ cache₁, ∀ key entry, cache key = some entry → key.docID ∈ came)
    (cached₂ : ∀ cache ∈ cache₂, ∀ key entry, cache key = some entry → key.docID ∈ came)
    (unseen : ∀ doc ∈ docs₁, doc.id ∉ came) (distinct : (docs₁.map Document.id).Nodup) :
    ∃ C, Twins C B came (docs₁.map Document.id) b₁ b₂ ∧ b₁.store.Uncompiled ∧ b₂.store.Uncompiled := by
  induction paired with
  | new made₁ made₂ =>
    obtain ⟨taking₁, uncompiled₁, kind₁, none⟩ := new_taking made₁ cached₁
    obtain ⟨taking₂, uncompiled₂, compact, _⟩ := new_taking made₂ cached₂
    refine ⟨_, ⟨fun _ => List.mem_cons_self, fun _ => compact, fun m marked => ?_, [], [], taking₁, taking₂, .nil⟩,
      uncompiled₁, uncompiled₂⟩
    cases m with
    | size k =>
      obtain ⟨bi, index⟩ := BEIndex.compact_eq compact
      rw [Marked, index]
      trivial
    | holder k f => exact absurd marked (none k f)
  | configured before named run₁ run₂ ih =>
    obtain ⟨C, twins, uncompiled₁, uncompiled₂⟩ := ih unseen distinct
    obtain ⟨twins', grows₁, grows₂⟩ := twins.configField named run₁ run₂
    exact ⟨_, twins', grows₁.uncompiled uncompiled₁, grows₂.uncompiled uncompiled₂⟩
  | added before inStep run₁ run₂ ih =>
    rw [List.map_append] at distinct ⊢
    obtain ⟨C, twins, uncompiled₁, uncompiled₂⟩ :=
      ih (fun doc mem => unseen doc (List.mem_append_left _ mem)) (List.nodup_append.mp distinct).1
    obtain ⟨_, _, taking₁, _, _⟩ := twins.taken
    rw [taking₁.shows.containers] at inStep
    obtain ⟨_, loop₁⟩ := andThen_left run₁
    obtain ⟨_, loop₂⟩ := andThen_left run₂
    obtain ⟨twins', grows₁, grows₂⟩ := twins.addDocs inStep
      (fun doc mem => unseen doc (List.mem_append_right _ mem)) distinct (fun d _ => uncompiled₁.fits C d)
        (fun e _ => uncompiled₂.fits C e) loop₁ loop₂
    exact ⟨C, twins', grows₁.uncompiled uncompiled₁, grows₂.uncompiled uncompiled₂⟩

variable [AhoMachine]

theorem paired_once (InStep : (BEField → GoString) → Document → Document → Prop) (B : BadConjBehavior) (f : BEField)
    {d e : Document} (p₁ p₂ : IndexerBuilder → Bool)
    (inStep : InStep (Function.update (fun _ => HolderNameDefault) f HolderNameExtendRange) d e)
    (run₁ : okAnd (fun b => okAnd (fun b => finished (fun b _ => okAnd p₁ b.buildIndex) (b.addDocument .id [d]))
      (b.configField .id f HolderNameExtendRange)) (newIndexerBuilder ⟨.default, B, none⟩) = true)
    (run₂ : okAnd (fun b => okAnd (fun b => finished (fun b _ => okAnd p₂ b.buildIndex) (b.addDocument .id [e]))
      (b.configField .id f HolderNameExtendRange)) (newIndexerBuilder ⟨.compact, B, none⟩) = true) :
    ∃ b₁ b₁' b₂ b₂', Paired InStep B none none [d] [e] b₁ b₂ ∧ b₁.buildIndex = .ok b₁' ∧ b₂.buildIndex = .ok b₂' ∧
      p₁ b₁' = true ∧ p₂ b₂' = true := by
  obtain ⟨x₁, made₁, run₁⟩ := okAnd_iff.mp run₁
  obtain ⟨y₁, configured₁, run₁⟩ := okAnd_iff.mp run₁
  obtain ⟨b₁, _, added₁, run₁⟩ := finished_iff.mp run₁
  obtain ⟨b₁', built₁, seen₁⟩ := okAnd_iff.mp run₁
  obtain ⟨x₂, made₂, run₂⟩ := okAnd_iff.mp run₂
  obtain ⟨y₂, configured₂, run₂⟩ := okAnd_iff.mp run₂
  obtain ⟨b₂, _, added₂, run₂⟩ := finished_iff.mp run₂
  obtain ⟨b₂', built₂, seen₂⟩ := okAnd_iff.mp run₂
  have containers := (configField_shows (Accepted.new_shows made₁).1 configured₁).2.containers
  rw [if_neg (by decide)] at containers
  have named : HolderNameExtendRange ∈ Postings.servedNames := List.mem_cons_of_mem _ List.mem_cons_self
  have paired : Paired InStep B none none [] [] y₁ y₂ :=
    .configured (.new made₁ made₂) (Or.inr named) configured₁ configured₂
  exact ⟨b₁, b₁', b₂, b₂', .added paired (.cons (containers ▸ inStep) .nil) added₁ added₂, built₁, built₂, seen₁, seen₂⟩

/-- As long as a conjunction is visited in the same order by both builders or can be prepared as a whole, and no
document is restored from what a cache came with, a query without arrays that the compact index answers is
answered by the size-grouped one, with the same list. -/
theorem retrieve_agrees {q : Assignments} {found : List DocID}
    (paired : Paired Document.InStep B cache₁ cache₂ docs₁ docs₂ b₁ b₂)
    (unseen : ∀ cache, cache ∈ cache₁ ∨ cache ∈ cache₂ → ∀ doc ∈ docs₁, ∀ version, cache ⟨doc.id, version⟩ = none)
    (distinct : (docs₁.map Document.id).Nodup) (built₁ : b₁.buildIndex = .ok b₁') (built₂ : b₂.buildIndex = .ok b₂')
    (plain : ∀ a ∈ q.entries, a.2.isArray = false) (visits₁ visits₂ : Nat → GoMap.Visit q)
    (run : b₂'.indexer.retrieve q visits₂ = .ok found) : b₁'.indexer.retrieve q visits₁ = .ok found := by
  let came : Set DocID := {id | ∃ cache, (cache ∈ cache₁ ∨ cache ∈ cache₂) ∧ ∃ version, cache ⟨id, version⟩ ≠ none}
  have others : ∀ doc ∈ docs₁, doc.id ∉ came := by
    rintro doc mem ⟨cache, had, version, held⟩
    exact held (unseen cache had doc mem version)
  have inCame : ∀ cache, cache ∈ cache₁ ∨ cache ∈ cache₂ → ∀ key entry, cache key = some entry → key.docID ∈ came :=
    fun cache had key entry held => ⟨cache, had, key.version, by rw [held]; simp⟩
  obtain ⟨_, twins, _, _⟩ := paired.twins (fun cache had => inCame cache (Or.inl had))
    (fun cache had => inCame cache (Or.inr had)) others distinct
  exact twins.agree built₁ built₂ (fun _ => plain) visits₁ visits₂ run

omit [FloatOps] [Codec] [AhoMachine] in
/-- A range field and a default field, visited in either order. -/
theorem retrieve_agrees_swapped :
    letI := FloatOps.noFloats
    letI := Codec.single [] [] ⟨.eq, false, []⟩ []
    letI := AhoMachine.naive
    let age : List BoolValues := [⟨true, .ints .int (some [3, 4]), .eq⟩]
    let city : List BoolValues := [⟨false, .strings (some [str "sh"]), .eq⟩]
    let d : Document := ⟨7, 0, [⟨(AList.singleton (str "city") city).insert (str "age") age⟩]⟩
    let e : Document := ⟨7, 0, [⟨(AList.singleton (str "age") age).insert (str "city") city⟩]⟩
    let q : Assignments := AList.singleton (str "age") (.scalar (.int .int 4))
    ∃ b₁ b₁' b₂ b₂', Paired Document.InStep .error none none [d] [e] b₁ b₂ ∧ b₁.buildIndex = .ok b₁' ∧
      b₂.buildIndex = .ok b₂' ∧
      b₂'.indexer.retrieve q (fun _ => ⟨q.entries, .refl _⟩) = .ok [7] ∧
      b₁'.indexer.retrieve q (fun _ => ⟨q.entries, .refl _⟩) = .ok [7] := by
  let _ := FloatOps.noFloats
  let _ := Codec.single [] [] ⟨.eq, false, []⟩ []
  let _ := AhoMachine.naive
  intro age city d e q
  have same : Conjunction.Same ⟨(AList.singleton (str "city") city).insert (str "age") age⟩
      ⟨(AList.singleton (str "age") age).insert (str "city") city⟩ := List.Perm.swap _ _ _
  have inStep : d.InStep (Function.update (fun _ => HolderNameDefault) (str "age") HolderNameExtendRange) e := by
    refine ⟨rfl, rfl, .cons (Or.inr ⟨same, fun expr mem => ?_⟩) .nil⟩
    rcases List.mem_pair.mp mem with rfl | rfl <;> exact ⟨_, rfl⟩
  obtain ⟨b₁, b₁', b₂, b₂', paired, built₁, built₂, _, seen⟩ :=
    paired_once Document.InStep .error (str "age") (fun _ => true)
    (fun b => okAnd (fun found => found == [7]) (b.indexer.retrieve q fun _ => ⟨q.entries, .refl _⟩))
    inStep (by decide +kernel) (by decide +kernel)
  obtain ⟨found, run, isSeven⟩ := okAnd_iff.mp seen
  obtain rfl := beq_iff_eq.mp isSeven
  refine ⟨b₁, b₁', b₂, b₂', paired, built₁, built₂, run, ?_⟩
  exact retrieve_agrees paired (by simp) (by simp) built₁ built₂ (by simp [q, Value.isArray]) _ _ run

omit [FloatOps] [Codec] [AhoMachine] in
/-- Under `SkipBadConj` the conjunction is left out by both builders, but one of them has come past the
range field before the value that cannot be tokenised, and reads the query on it. -/
theorem retrieve_disagrees :
    letI := FloatOps.noFloats
    letI := Codec.single [] [] ⟨.eq, false, []⟩ []
    letI := AhoMachine.naive
    let age : List BoolValues := [⟨true, .ints .int (some [3, 4]), .eq⟩]
    let city : List BoolValues := [⟨false, .scalar (.other .bool false), .eq⟩]
    let d : Document := ⟨7, 0, [⟨(AList.singleton (str "city") city).insert (str "age") age⟩]⟩
    let e : Document := ⟨7, 0, [⟨(AList.singleton (str "age") age).insert (str "city") city⟩]⟩
    let q : Assignments := AList.singleton (str "age") (.scalar (.string (str "abc")))
    ∃ b₁ b₁' b₂ b₂' err, Paired (fun _ => Document.Same) .skip none none [d] [e] b₁ b₂ ∧ b₁.buildIndex = .ok b₁' ∧
      b₂.buildIndex = .ok b₂' ∧ b₂'.indexer.retrieve q (fun _ => ⟨q.entries, .refl _⟩) = .ok [] ∧
      b₁'.indexer.retrieve q (fun _ => ⟨q.entries, .refl _⟩) = .error (.err err) := by
  let _ := FloatOps.noFloats
  let _ := Codec.single [] [] ⟨.eq, false, []⟩ []
  let _ := AhoMachine.naive
  intro age city d e q
  have same : d.Same e := ⟨rfl, rfl, .cons (List.Perm.swap _ _ _) .nil⟩
  obtain ⟨b₁, b₁', b₂, b₂', paired, built₁, built₂, fails, seen⟩ :=
    paired_once (fun _ => Document.Same) .skip (str "age")
    (fun b => returnsErr (b.indexer.retrieve q fun _ => ⟨q.entries, .refl _⟩))
    (fun b => okAnd (fun found => found == []) (b.indexer.retrieve q fun _ => ⟨q.entries, .refl _⟩))
    same (by decide +kernel) (by decide +kernel)
  obtain ⟨found, run, isEmpty⟩ := okAnd_iff.mp seen
  obtain rfl := beq_iff_eq.mp isEmpty
  obtain ⟨err, failed⟩ := returnsErr_iff.mp fails
  exact ⟨b₁, b₁', b₂, b₂', err, paired, built₁, built₂, run, failed⟩

end

end BeIndexer
