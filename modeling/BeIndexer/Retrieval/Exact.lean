import BeIndexer.Atomicity
import BeIndexer.Refinement.Frame
import BeIndexer.Retrieval.Satisfied

/-!
# Retrieval is exact

The documents that a builder accepted, and what a retrieval on the index built from them returns:
with all fields in the default container, the ids of the documents that have a conjunction whose
expressions the tokens of the query meet.
-/

namespace BeIndexer

open Calls
open IndexerBuilder (exprList)

/-! ### The size of a query -/

section Size

variable [FloatOps]

theorem IndexingData.Matches.not_nil {data : IndexingData} {v : Value} (matched : data.Matches v) :
    v.isNil = false := by
  rw [← Bool.not_eq_true]
  intro isNil
  cases data with
  | strTokens values =>
    obtain ⟨tokens, tokenized, token, mem, _⟩ := matched
    have none : tokens = [] := by
      cases v with
      | scalar s =>
        cases s with
        | nil => exact (Except.ok.inj tokenized).symm
        | other kind _ => cases tokenized
        | _ => cases isNil
      | int64Pair l r => cases isNil
      | float64Pair x y => cases isNil
      | ints kind vs | floats kind vs | strings vs | jsonNumbers vs | ifaces vs =>
        obtain rfl : vs = none := by simpa [Value.isNil] using isNil
        exact (Except.ok.inj tokenized).symm
    rw [none] at mem
    cases mem
  | range data =>
    obtain ⟨ids, parsed, id, mem, _⟩ := matched
    rw [parseIntegers, nilInterface_eq, isNil] at parsed
    split at parsed
    · cases parsed
    · obtain rfl := Except.ok.inj parsed
      cases mem
  | optimizedRange data => exact matched
  | acKeys keys => exact matched

/-- A query has at least as many values as a conjunction that it satisfies has include fields. -/
theorem ConjTx.SatisfiedBy.incSize_le {c : ConjTx} {q : Assignments} (formed : c.Formed) (satisfied : c.SatisfiedBy q) :
    c.incSize ≤ q.entries.countP fun a => !a.2.isNil := by
  have met := formed.metBy_enough.mpr satisfied.includes
  have values : ∀ a ∈ c.metBy q, (!a.2.isNil) = true := by
    intro a ha
    obtain ⟨_, tx, _, _, _, matched⟩ := ConjTx.mem_metBy.mp ha
    simpa using matched.not_nil
  calc c.incSize ≤ (c.metBy q).length := met
    _ = (c.metBy q).countP fun a => !a.2.isNil := (List.countP_eq_length.mpr values).symm
    _ ≤ q.entries.countP fun a => !a.2.isNil := List.filter_sublist.countP_le

end Size

/-! ### What a retrieval returns -/

theorem toUInt64_inj {x y : DocID} : x.toUInt64 = y.toUInt64 ↔ x = y :=
  ⟨fun same => by simpa using congrArg UInt64.toInt64 same, congrArg Int64.toUInt64⟩

theorem DocIDCollector.mem_getDocIDs {docBits : DocIDCollector} {id : DocID} :
    id ∈ docBits.getDocIDs ↔ id.toUInt64 ∈ docBits := by
  simp only [DocIDCollector.getDocIDs, List.mem_map, Finset.mem_sort]
  constructor
  · rintro ⟨x, mem, rfl⟩
    simpa using mem
  · intro mem
    exact ⟨id.toUInt64, mem, by simp⟩

theorem DocIDCollector.getDocIDs_ascending (docBits : DocIDCollector) :
    (docBits.getDocIDs.map Int64.toUInt64).Pairwise (· < ·) := by
  have back : docBits.getDocIDs.map Int64.toUInt64 = docBits.sort (· ≤ ·) := by
    rw [DocIDCollector.getDocIDs, List.map_map]
    exact List.map_id'' (fun x => by simp) _
  rw [back]
  exact (Finset.sortedLT_sort docBits).pairwise

section Retrieve

variable [FloatOps] [AhoMachine]

/-- An index that can read the query returns the documents of the conjunctions that the query
satisfies, whichever of the two indexes it is. -/
theorem IndexerBuilder.retrieve_satisfied {b b' : IndexerBuilder} {all : List ConjTx} {q : Assignments} (wf : b.WF)
    (keeps : b.store.Keeps all) (formed : ∀ c ∈ all, c.Formed) (single : Store.Single all)
    (built : b.buildIndex = .ok b') (visits : Nat → GoMap.Visit q) (canRead : b.CanRead q) :
    ∃ docBits : DocIDCollector, b'.indexer.retrieve q visits = .ok docBits.getDocIDs ∧
      ∀ x, x ∈ docBits ↔ ∃ c ∈ all, c.SatisfiedBy q ∧ c.conjID.docID.toUInt64 = x := by
  have usable := keeps.usable formed
  cases kind : b.indexer.isCompact with
  | true =>
    have scans : b.Scans q 0 := by
      refine ⟨?_, fun grouped => ?_⟩
      · obtain ⟨bi, index⟩ := BEIndex.compact_eq kind
        rw [index]
        trivial
      · rw [kind] at grouped
        cases grouped
    obtain ⟨docBits, run, members⟩ := compact_retrieve usable built kind visits (canRead.reads 0 scans)
    refine ⟨docBits, run, fun x => ?_⟩
    rw [members x]
    simp only [keeps.hitsAll_iff kind formed single]
    constructor
    · rintro ⟨_, ⟨c, mem, rfl, satisfied⟩, doc⟩
      exact ⟨c, mem, satisfied, doc⟩
    · rintro ⟨c, mem, satisfied, doc⟩
      exact ⟨c.conjID, ⟨c, mem, rfl, satisfied⟩, doc⟩
  | false =>
    have sized := Assignments.size_plain (canRead.plain kind)
    have scans : ∀ k ≤ q.entries.countP fun a => !a.2.isNil, b.indexer.HasContainer k → b.Scans q k := by
      intro k le has
      refine ⟨has, fun _ size sized' => ?_⟩
      obtain rfl := Except.ok.inj (sized.symm.trans sized')
      exact le
    obtain ⟨docBits, run, members⟩ := kgroups_retrieve wf usable built kind visits sized
      fun k le has => canRead.reads k (scans k le has)
    refine ⟨docBits, run, fun x => ?_⟩
    rw [members x]
    simp only [keeps.hitsAt_iff kind formed single]
    constructor
    · rintro ⟨_, _, _, ⟨c, mem, rfl, rfl, satisfied⟩, doc⟩
      exact ⟨c, mem, satisfied, doc⟩
    · rintro ⟨c, mem, satisfied, doc⟩
      exact ⟨c.incSize, satisfied.incSize_le (formed c mem), c.conjID, ⟨c, mem, rfl, rfl, satisfied⟩, doc⟩

end Retrieve

/-! ### Expressions and tokens -/

section Tokens

variable [FloatOps]

/-- The tokens of the query for a field; a field absent from the query has none. -/
def Assignments.tokens (q : Assignments) (f : BEField) : List GoString :=
  match q.lookup f with
  | none => []
  | some v => (tokenizeAssign v).toOption.getD []

def BoolValues.tokens (bv : BoolValues) : List GoString := (tokenizeValue bv.value).toOption.getD []

def BoolValues.Shares (bv : BoolValues) (tokens : List GoString) : Prop := ∃ token ∈ bv.tokens, token ∈ tokens

instance (bv : BoolValues) (tokens : List GoString) : Decidable (bv.Shares tokens) :=
  inferInstanceAs (Decidable (∃ _ ∈ _, _))

/-- On every field of the conjunction some include expression, if there is one, shares a token with
the query, and no exclude expression does. -/
def Conjunction.MatchedBy (q : Assignments) (conj : Conjunction) : Prop :=
  ∀ e ∈ conj.expressions.entries,
    ((∃ bv ∈ e.2, bv.incl = true) → ∃ bv ∈ e.2, bv.incl = true ∧ bv.Shares (q.tokens e.1)) ∧
      ∀ bv ∈ e.2, bv.incl = false → ¬ bv.Shares (q.tokens e.1)

instance (q : Assignments) (conj : Conjunction) : Decidable (conj.MatchedBy q) :=
  inferInstanceAs (Decidable (∀ _ ∈ _, _))

def Conjunction.Tokenises (conj : Conjunction) : Prop :=
  ∀ e ∈ conj.expressions.entries, ∀ bv ∈ e.2, ∃ tokens, tokenizeValue bv.value = .ok tokens

omit [FloatOps] in
theorem Conjunction.exprs_of_mem {conj : Conjunction} {e : Sigma fun _ : BEField => List BoolValues}
    (mem : e ∈ conj.expressions.entries) : conj.exprs e.1 = e.2 := by
  rw [Conjunction.exprs, AList.mem_lookup_iff.mpr mem]
  rfl

theorem prepareExpr_default {f : BEField} {bv : BoolValues} {data : IndexingData}
    (run : prepareExpr HolderNameDefault f bv = .ok data) :
    tokenizeValue bv.value = .ok bv.tokens ∧ data = .strTokens bv.tokens := by
  obtain ⟨⟨h, data'⟩, built, rfl⟩ := map_eq_ok.mp run
  obtain ⟨values, prepared, done⟩ := bind_eq_ok.mp built
  obtain ⟨_, rfl⟩ := Prod.mk.inj (Except.ok.inj done)
  obtain ⟨_, _, tokenized⟩ := bind_eq_ok.mp prepared
  have tokenized := wrapErr_eq_ok.mp tokenized
  have same : bv.tokens = values := by rw [BoolValues.tokens, tokenized]; rfl
  rw [same]
  exact ⟨tokenized, rfl⟩

theorem matchedBy_tokens {tx : Tx} {q : Assignments} {bv : BoolValues} (data : tx.data = .strTokens bv.tokens) :
    tx.MatchedBy q ↔ bv.Shares (q.tokens tx.field) := by
  unfold Tx.MatchedBy Assignments.tokens BoolValues.Shares
  rw [data]
  cases q.lookup tx.field with
  | none => simp
  | some v =>
    cases tokenized : tokenizeAssign v with
    | error fault => simp [IndexingData.Matches, tokenized, Except.toOption]
    | ok tokens =>
      simp only [IndexingData.Matches, Option.some.injEq, exists_eq_left', tokenized, Except.ok.injEq, Except.toOption,
        Option.getD_some]
      constructor
      · rintro ⟨token, mem, shared⟩
        exact ⟨token, shared, mem⟩
      · rintro ⟨token, shared, mem⟩
        exact ⟨token, mem, shared⟩

variable {B : BadConjBehavior} {docID : DocID}

/-- On every field of the conjunction some include expression, if there is one, is met, and no exclude
expression is. -/
def Conjunction.Holds (Met : BEField → BoolValues → Prop) (conj : Conjunction) : Prop :=
  ∀ e ∈ conj.expressions.entries,
    ((∃ bv ∈ e.2, bv.incl = true) → ∃ bv ∈ e.2, bv.incl = true ∧ Met e.1 bv) ∧
      ∀ bv ∈ e.2, bv.incl = false → ¬ Met e.1 bv

/-- A query satisfies the data of a conjunction exactly when the conjunction holds for what the data of
its expressions is matched by. -/
theorem prepareConjTx_holds {C : BEField → GoString} {conj : Conjunction × Nat} {c : ConjTx} {q : Assignments}
    {Met : BEField → BoolValues → Prop} (run : prepareConjTx C B docID conj = .ok (some c))
    (means : ∀ expr ∈ exprList conj.1, ∀ tx, prepareTx C c.conjID expr = .ok tx →
      (tx.MatchedBy q ↔ Met expr.1 expr.2)) :
    c.SatisfiedBy q ↔ conj.1.Holds Met := by
  obtain ⟨packed, _, _, prepared⟩ := prepareConjTx_some run
  have valid := (newConjID_fields packed).1
  have ofTx : ∀ tx ∈ c.txs, ∃ bv ∈ conj.1.exprs tx.field,
      tx.eid.isInclude = bv.incl ∧ (tx.MatchedBy q ↔ Met tx.field bv) := by
    intro tx mem
    obtain ⟨⟨f, bv⟩, listed, made⟩ := mem_mapM prepared mem
    obtain rfl : tx.field = f := (prepareTx_ok made).2.2
    refine ⟨bv, mem_exprList.mp listed, ?_, means _ listed tx made⟩
    rw [prepareTx_eid made, isInclude_newEntryID valid]
  have ofExpr : ∀ f, ∀ bv ∈ conj.1.exprs f, ∃ tx ∈ c.txs,
      tx.field = f ∧ tx.eid.isInclude = bv.incl ∧ (tx.MatchedBy q ↔ Met f bv) := by
    intro f bv listed
    obtain ⟨tx, mem, made⟩ := mapM_mem prepared (mem_exprList.mpr listed)
    refine ⟨tx, mem, (prepareTx_ok made).2.2, ?_, means _ (mem_exprList.mpr listed) tx made⟩
    rw [prepareTx_eid made, isInclude_newEntryID valid]
  constructor
  · rintro satisfied ⟨f, exprs⟩ mem
    have listed := Conjunction.exprs_of_mem mem
    dsimp only at listed ⊢
    constructor
    · rintro ⟨bv, hbv, incl⟩
      obtain ⟨tx, htx, field, same, _⟩ := ofExpr f bv (listed ▸ hbv)
      obtain ⟨tx', htx', field', incl', matched⟩ := satisfied.includes tx htx (same.trans incl)
      obtain ⟨bv', hbv', same', met⟩ := ofTx tx' htx'
      rw [field', field] at hbv' met
      exact ⟨bv', listed ▸ hbv', same' ▸ incl', met.mp matched⟩
    · intro bv hbv excl met
      obtain ⟨tx, htx, _, same, matched⟩ := ofExpr f bv (listed ▸ hbv)
      exact satisfied.excludes tx htx (same.trans excl) (matched.mpr met)
  · intro holds
    have each : ∀ f, ∀ bv ∈ conj.1.exprs f, ∃ e ∈ conj.1.expressions.entries, e.1 = f ∧ e.2 = conj.1.exprs f := by
      intro f bv hbv
      obtain ⟨exprs, mem, _⟩ := Conjunction.mem_exprs.mp hbv
      exact ⟨_, mem, rfl, (Conjunction.exprs_of_mem mem).symm⟩
    constructor
    · intro tx htx incl
      obtain ⟨bv, hbv, same, _⟩ := ofTx tx htx
      obtain ⟨e, mem, field, listed⟩ := each _ _ hbv
      obtain ⟨bv', hbv', incl', met⟩ := (holds e mem).1 ⟨bv, listed ▸ hbv, same ▸ incl⟩
      rw [field] at met
      obtain ⟨tx', htx', field', same', matched⟩ := ofExpr tx.field bv' (listed ▸ hbv')
      exact ⟨tx', htx', field', same'.trans incl', matched.mpr met⟩
    · intro tx htx excl matched
      obtain ⟨bv, hbv, same, met⟩ := ofTx tx htx
      obtain ⟨e, mem, field, listed⟩ := each _ _ hbv
      have none := (holds e mem).2 bv (listed ▸ hbv) (same ▸ excl)
      rw [field] at none
      exact none (met.mp matched)

theorem prepareConjTx_satisfied {conj : Conjunction × Nat} {c : ConjTx} {q : Assignments}
    (run : prepareConjTx (fun _ => HolderNameDefault) B docID conj = .ok (some c)) :
    c.SatisfiedBy q ↔ conj.1.MatchedBy q := by
  show c.SatisfiedBy q ↔ conj.1.Holds fun f bv => bv.Shares (q.tokens f)
  refine prepareConjTx_holds run fun expr _ tx made => ?_
  obtain ⟨prepared, _, field⟩ := prepareTx_ok made
  rw [← field]
  exact matchedBy_tokens (prepareExpr_default prepared).2

theorem prepareConjTx_made_iff {conj : Conjunction × Nat} {r : Option ConjTx}
    (run : prepareConjTx (fun _ => HolderNameDefault) B docID conj = .ok r) :
    r.isSome = true ↔ (B = .skip → conj.1.Tokenises) := by
  obtain ⟨conjID, packed, rest⟩ := bind_eq_ok.mp run
  cases prepared : prepareTxs (fun _ => HolderNameDefault) conjID conj.1 with
  | ok txs =>
    rw [prepared] at rest
    obtain rfl := Except.ok.inj rest
    refine ⟨fun _ _ => ?_, fun _ => rfl⟩
    rintro ⟨f, exprs⟩ mem bv hbv
    obtain ⟨tx, _, made⟩ := mapM_mem prepared (mem_exprList.mpr (Conjunction.mem_exprs.mpr ⟨exprs, mem, hbv⟩))
    exact ⟨_, (prepareExpr_default (prepareTx_ok made).1).1⟩
  | error fault =>
    rw [prepared] at rest
    cases fault with
    | panic e => cases rest
    | hang => cases rest
    | err err =>
      cases B with
      | error => cases rest
      | panic => cases rest
      | skip =>
        obtain rfl := Except.ok.inj rest
        refine ⟨fun some => (by cases some), fun tokenises => ?_⟩
        obtain ⟨⟨f, bv⟩, mem, failed⟩ := mapM_error prepared
        obtain ⟨exprs, mem, hbv⟩ := Conjunction.mem_exprs.mp (mem_exprList.mp mem)
        obtain ⟨tokens, tokenized⟩ := tokenises rfl _ mem bv hbv
        cases eq : bv.operator <;>
          simp [prepareTx, prepareExpr, newEntriesHolder, EntriesHolder.buildFieldIndexingData,
            DefaultEntriesHolder.buildFieldIndexingData, tokenized, eq, panicIf, panicf, bind, Except.bind, wrapErr,
            Except.map, pure, Except.pure] at failed

end Tokens

/-! ### Accepted documents -/

namespace Store

variable [FloatOps]

/-- The store holds `all`, which is what the documents are prepared to. -/
structure Loaded (s : Store) (C : BEField → GoString) (B : BadConjBehavior) (docs : List Document)
    (all : List ConjTx) : Prop where
  holds : s.Holds all
  whole : ∀ doc ∈ docs, ∀ conj ∈ doc.cons.zipIdx, ∃ r, prepareConjTx C B doc.id conj = .ok r ∧ ∀ c ∈ r, c ∈ all
  only : ∀ c ∈ all, ∃ doc ∈ docs, ∃ conj ∈ doc.cons.zipIdx, prepareConjTx C B doc.id conj = .ok (some c)

variable {s s' : Store} {C : BEField → GoString} {B : BadConjBehavior} {docs : List Document} {all : List ConjTx}

theorem Loaded.formed (loaded : s.Loaded C B docs all) : ∀ c ∈ all, c.Formed := by
  intro c mem
  obtain ⟨_, _, _, _, run⟩ := loaded.only c mem
  exact prepareConjTx_formed run

theorem Loaded.addOne (loaded : s.Loaded C B docs all) {doc : Document} {r : Except GoError Unit}
    (run : s.addOne C B doc = .ok (s', r)) :
    s'.compact = s.compact ∧ ((∃ err, r = .error err ∧ s'.Loaded C B docs all) ∨
      ∃ more, r = .ok () ∧ s'.Loaded C B (docs ++ [doc]) (all ++ more)) := by
  rcases addOne_cases run with ⟨err, failed, rfl⟩ | ⟨found, prepared, done, commits⟩
  · exact ⟨rfl, Or.inl ⟨err, failed, loaded⟩⟩
  · obtain ⟨holds, compact⟩ := commitConjs_holds loaded.holds commits
    refine ⟨compact, Or.inr ⟨found.reduceOption, done, holds, ?_, ?_⟩⟩
    · intro doc' mem conj hconj
      rcases List.mem_append.mp mem with old | new
      · obtain ⟨r, run, kept⟩ := loaded.whole doc' old conj hconj
        exact ⟨r, run, fun c hc => List.mem_append_left _ (kept c hc)⟩
      · obtain rfl := List.mem_singleton.mp new
        obtain ⟨r, mem, run⟩ := mapM_mem prepared hconj
        refine ⟨r, run, ?_⟩
        rintro c rfl
        exact List.mem_append_right _ (List.reduceOption_mem_iff.mpr mem)
    · intro c hc
      rcases List.mem_append.mp hc with old | new
      · obtain ⟨doc', mem, conj⟩ := loaded.only c old
        exact ⟨doc', List.mem_append_left _ mem, conj⟩
      · obtain ⟨conj, hconj, run⟩ := mem_mapM prepared (List.reduceOption_mem_iff.mp new)
        exact ⟨doc, List.mem_append_right _ List.mem_cons_self, conj, hconj, run⟩

theorem Loaded.single (loaded : s.Loaded C B docs all) (distinct : (docs.map Document.id).Nodup) : Single all := by
  intro c hc d hd same tx htx
  obtain ⟨doc, mem, ⟨conj, i⟩, hconj, run⟩ := loaded.only c hc
  obtain ⟨doc', mem', ⟨conj', i'⟩, hconj', run'⟩ := loaded.only d hd
  obtain ⟨_, _, index, id⟩ := newConjID_fields (prepareConjTx_some run).1
  obtain ⟨_, _, index', id'⟩ := newConjID_fields (prepareConjTx_some run').1
  obtain rfl : doc = doc' := List.inj_on_of_nodup_map distinct mem mem' (by rw [← id, ← id', same])
  obtain rfl : i = i' := by
    rw [same] at index
    dsimp only at index index'
    omega
  have here := (List.mem_zipIdx' hconj).2
  have here' := (List.mem_zipIdx' hconj').2
  obtain rfl : conj = conj' := here.trans here'.symm
  rw [run] at run'
  obtain rfl := Option.some.inj (Except.ok.inj run')
  exact htx

end Store

/-- Calls that configured fields with one of the given container names and handed documents to the builder,
some of which it accepted. A call with several documents that returns an error is one that added those
before the first bad one, followed by one that rejected this document. -/
inductive Handed [FloatOps] [Codec] (option : BuilderOption) (names : List GoString) :
    List Document → List Document → IndexerBuilder → Prop
  | new {b : IndexerBuilder} (made : newIndexerBuilder option = .ok b) : Handed option names [] [] b
  | configured {tried docs : List Document} {b b' : IndexerBuilder} {loops : MapLoops} {field : BEField}
      {container : GoString} (before : Handed option names tried docs b) (named : container ∈ names)
      (run : b.configField loops field container = .ok b') : Handed option names tried docs b'
  | added {tried docs more : List Document} {b b' : IndexerBuilder} {loops : MapLoops}
      (before : Handed option names tried docs b) (run : b.addDocument loops more = .ok (b', .ok ())) :
      Handed option names (tried ++ more) (docs ++ more) b'
  | rejected {tried docs : List Document} {doc : Document} {b b' : IndexerBuilder} {loops : MapLoops} {err : GoError}
      (before : Handed option names tried docs b) (run : b.addDocument loops [doc] = .ok (b', .error err)) :
      Handed option names (tried ++ [doc]) docs b'

/-- The builder has accepted these documents, whatever it has rejected. -/
def Accepted [FloatOps] [Codec] (option : BuilderOption) (names : List GoString) (docs : List Document)
    (b : IndexerBuilder) : Prop := ∃ tried, Handed option names tried docs b

/-- No document is restored from the cache: what it came with are other documents or other versions, and
no version is handed over twice. -/
def BuilderOption.Unseen (option : BuilderOption) (tried : List Document) : Prop :=
  ∀ cache ∈ option.docLevelCache, (∀ doc ∈ tried, doc.version > 0 → cache doc.cacheKey = none) ∧
    tried.Pairwise fun d e => e.version > 0 → d.cacheKey ≠ e.cacheKey

theorem BuilderOption.Unseen.of_append {option : BuilderOption} {tried more : List Document}
    (unseen : option.Unseen (tried ++ more)) : option.Unseen tried := by
  intro cache had
  obtain ⟨others, once⟩ := unseen cache had
  exact ⟨fun doc mem => others doc (List.mem_append_left _ mem), (List.pairwise_append.mp once).1⟩

theorem BuilderOption.unseen_of_uncached {option : BuilderOption} (uncached : option.docLevelCache = none)
    (tried : List Document) : option.Unseen tried := by
  intro cache had
  rw [uncached] at had
  cases had

namespace Accepted

open IndexerBuilder

variable [FloatOps] [Codec] {option : BuilderOption} {docs : List Document} {b b' : IndexerBuilder}

variable {names : List GoString} {loops : MapLoops}

theorem new (made : newIndexerBuilder option = .ok b) : Accepted option names [] b := ⟨[], .new made⟩

theorem configured {field : BEField} {container : GoString} (before : Accepted option names docs b)
    (named : container ∈ names) (run : b.configField loops field container = .ok b') :
    Accepted option names docs b' := by
  obtain ⟨tried, before⟩ := before
  exact ⟨tried, .configured before named run⟩

theorem added {more : List Document} (before : Accepted option names docs b)
    (run : b.addDocument loops more = .ok (b', .ok ())) : Accepted option names (docs ++ more) b' := by
  obtain ⟨tried, before⟩ := before
  exact ⟨tried ++ more, .added before run⟩

/-- The container names that give a field the default container. -/
def defaultNames : List GoString := [[], HolderNameDefault]

omit [FloatOps] [Codec] in
theorem defaultNames_plain : HolderNameDefault ≠ HolderNameOptimizedRange := by decide

omit [FloatOps] [Codec] in
theorem new_shows (made : newIndexerBuilder option = .ok b) :
    Shows (fun _ => HolderNameDefault) option.badConjBehavior b b.store ∧
      b.indexer.isCompact = (option.indexerType == .compact) := by
  obtain ⟨idx, init, done⟩ := bind_eq_ok.mp made
  obtain rfl := Except.ok.inj done
  obtain ⟨fits, empty⟩ := initIndexer_wf init .empty
  refine ⟨⟨⟨fits, fun nonempty => absurd empty nonempty⟩, rfl, rfl, rfl⟩, ?_⟩
  cases type : option.indexerType with
  | other n =>
    rw [type] at init
    cases init
  | _ =>
    rw [type] at init
    obtain rfl := Except.ok.inj init
    rfl

omit [Codec] in
theorem new_loaded {B : BadConjBehavior} (made : newIndexerBuilder option = .ok b) :
    b.store.Loaded (fun _ => HolderNameDefault) B [] [] := by
  obtain ⟨idx, init, done⟩ := bind_eq_ok.mp made
  obtain rfl := Except.ok.inj done
  have empty := (initIndexer_wf init .empty).2
  refine ⟨⟨⟨fun k f => trivial, fun k f v e => ?_⟩, fun e => ?_⟩, by simp, by simp⟩
  · exact iff_of_false (Postings.empty_answers v e) (by simp)
  · simp [IndexerBuilder.store, empty]

/-- The keys under which the cache can have an entry once the documents were handed over. -/
def cacheKeys (option : BuilderOption) (tried : List Document) : Set DocCacheKey :=
  {key | (∃ cache ∈ option.docLevelCache, cache key ≠ none) ∨ ∃ doc ∈ tried, doc.cacheKey = key}

omit [FloatOps] [Codec] in
theorem unseen_notMem {tried : List Document} {doc : Document} (unseen : option.Unseen (tried ++ [doc]))
    (cached : option.docLevelCache ≠ none) (versioned : doc.version > 0) : doc.cacheKey ∉ cacheKeys option tried := by
  obtain ⟨cache, had⟩ := Option.ne_none_iff_exists'.mp cached
  obtain ⟨others, once⟩ := unseen cache had
  rintro (⟨cache', had', held⟩ | ⟨d, mem, same⟩)
  · obtain rfl := Option.some.inj (had.symm.trans had')
    exact held (others doc (List.mem_append_right _ List.mem_cons_self) versioned)
  · exact (List.pairwise_append.mp once).2.2 d mem doc List.mem_cons_self versioned same

/-- What a builder all of whose fields are in the default container has taken in, if nothing was restored. -/
structure TookIn (option : BuilderOption) (tried docs : List Document) (b : IndexerBuilder) : Prop where
  shows : Shows (fun _ => HolderNameDefault) option.badConjBehavior b b.store
  cached : b.CachesOnly (cacheKeys option tried)
  uncached : option.docLevelCache = none → b.docLevelCache = none
  kind : b.indexer.isCompact = (option.indexerType == .compact)
  loaded : ∃ all, b.store.Loaded (fun _ => HolderNameDefault) option.badConjBehavior docs all

namespace TookIn

variable {tried : List Document}

omit [Codec] in
theorem new (made : newIndexerBuilder option = .ok b) : TookIn option [] [] b := by
  obtain ⟨shows, kind⟩ := new_shows made
  obtain ⟨idx, _, done⟩ := bind_eq_ok.mp made
  have same : b.docLevelCache = option.docLevelCache := by rw [← Except.ok.inj done]
  refine ⟨shows, fun cache had key entry found => Or.inl ⟨cache, same ▸ had, by simp [found]⟩, same ▸ id, kind, [],
    new_loaded made⟩

omit [Codec] in
theorem configField (took : TookIn option tried docs b) {field : BEField} {container : GoString}
    (named : container ∈ defaultNames) (run : b.configField loops field container = .ok b') :
    TookIn option tried docs b' := by
  have chosen : (if container.isEmpty then HolderNameDefault else container) = HolderNameDefault := by
    simp only [defaultNames, List.mem_cons, List.not_mem_nil, or_false] at named
    rcases named with rfl | rfl <;> rfl
  obtain ⟨unused, shows⟩ := configField_shows took.shows run
  rw [chosen, Function.update_eq_self, Store.configure_default unused] at shows
  have same := shows.store
  refine ⟨same ▸ shows, .configField run, fun none => ?_, (congrArg Store.compact same).trans took.kind,
    same ▸ took.loaded⟩
  obtain ⟨_, _, rfl⟩ := configField_cases run
  simp [took.uncached none]

/-- A document that is not restored is taken in or leaves nothing behind. -/
theorem addOne (took : TookIn option tried docs b) {doc : Document} (unseen : option.Unseen (tried ++ [doc]))
    {r : Except GoError Unit} (run : addOne loops b doc = .ok (b', r)) :
    (∃ err, r = .error err ∧ TookIn option (tried ++ [doc]) docs b') ∨
      r = .ok () ∧ TookIn option (tried ++ [doc]) (docs ++ [doc]) b' := by
  have miss : b.cachedEntry doc = none := by
    by_cases none : option.docLevelCache = none
    · rw [cachedEntry, took.uncached none]
    · exact took.cached.misses (unseen_notMem unseen none)
  have follows : Follows Later
      (fun b' s' => Shows (fun _ => HolderNameDefault) option.badConjBehavior b' s' ∧ Later b b') (fun _ _ _ => True) b
      (IndexerBuilder.addOne loops b doc) (b.store.addOne (fun _ => HolderNameDefault) option.badConjBehavior doc) :=
    (addOne_misses took.shows loops miss fun _ _ _ _ => EntriesHolder.quiet_of_ne defaultNames_plain).inv
      fun _ _ later shows => ⟨shows, later⟩
  rw [run] at follows
  obtain ⟨s', ⟨shows, later⟩, ran⟩ := follows.returns_left
  have same := shows.store
  have cached : b'.CachesOnly (cacheKeys option (tried ++ [doc])) := by
    refine (took.cached.addOne run).mono (Set.insert_subset ?_ fun key mem => mem.imp_right fun held => ?_)
    · exact Or.inr ⟨doc, List.mem_append_right _ List.mem_cons_self, rfl⟩
    · obtain ⟨d, mem, key⟩ := held
      exact ⟨d, List.mem_append_left _ mem, key⟩
  have uncached : option.docLevelCache = none → b'.docLevelCache = none :=
    fun none => later.uncached (took.uncached none)
  obtain ⟨all, loaded⟩ := took.loaded
  obtain ⟨compact, ends⟩ := loaded.addOne ran
  have kind := ((congrArg Store.compact same).trans compact).trans took.kind
  rcases ends with ⟨err, failed, loaded'⟩ | ⟨more, done, loaded'⟩
  · exact Or.inl ⟨err, failed, same ▸ shows, cached, uncached, kind, all, same ▸ loaded'⟩
  · exact Or.inr ⟨done, same ▸ shows, cached, uncached, kind, all ++ more, same ▸ loaded'⟩

theorem addDocs (took : TookIn option tried docs b) {more : List Document} (unseen : option.Unseen (tried ++ more))
    {done : List Unit} (run : mapCalls (IndexerBuilder.addOne loops) b more = .ok (b', .ok done)) :
    TookIn option (tried ++ more) (docs ++ more) b' := by
  induction more generalizing b tried docs done with
  | nil =>
    obtain ⟨rfl, _⟩ := Prod.mk.inj (Except.ok.inj run)
    simpa using took
  | cons doc more ih =>
    obtain ⟨b₁, _, _, first, later, _⟩ := mapCalls_cons_ok.mp run
    rw [List.append_cons] at unseen ⊢
    rw [List.append_cons docs]
    rcases took.addOne unseen.of_append first with ⟨_, failed, _⟩ | ⟨_, took₁⟩
    · cases failed
    · exact ih took₁ unseen later

end TookIn

theorem tookIn {tried : List Document} (handed : Handed option defaultNames tried docs b)
    (unseen : option.Unseen tried) : TookIn option tried docs b := by
  induction handed with
  | new made => exact .new made
  | configured before named run ih => exact (ih unseen).configField named run
  | added before run ih =>
    obtain ⟨_, done, loop, last⟩ := andThen_eq_ok.mp run
    obtain ⟨rfl, _⟩ := Prod.mk.inj (Except.ok.inj last)
    exact (ih unseen.of_append).addDocs unseen loop
  | rejected before run ih =>
    obtain ⟨pre, doc', post, b₁, as, split, first, refused⟩ := mapCalls_error (andThen_error run)
    cases pre with
    | cons => simp at split
    | nil =>
      obtain ⟨rfl, rfl⟩ := List.cons.inj split
      obtain ⟨rfl, _⟩ := Prod.mk.inj (Except.ok.inj first)
      rcases (ih unseen.of_append).addOne unseen refused with ⟨_, _, took⟩ | ⟨absurd, _⟩
      · exact took
      · cases absurd

theorem loaded (uncached : option.docLevelCache = none) (accepted : Accepted option defaultNames docs b) :
    ShowsUncached (fun _ => HolderNameDefault) option.badConjBehavior b b.store ∧
      b.indexer.isCompact = (option.indexerType == .compact) ∧
      ∃ all, b.store.Loaded (fun _ => HolderNameDefault) option.badConjBehavior docs all := by
  obtain ⟨tried, handed⟩ := accepted
  have took := tookIn handed (BuilderOption.unseen_of_uncached uncached tried)
  exact ⟨⟨took.shows, took.uncached uncached⟩, took.kind, took.loaded⟩

omit [Codec] in
theorem tokenized_plain {v : Value} {tokens : List GoString} (tokenized : tokenizeAssign v = .ok tokens) :
    v.isArray = false := by
  cases v with
  | scalar s =>
    cases s with
    | other kind isNil => cases tokenized
    | _ => rfl
  | int64Pair l r => cases tokenized
  | float64Pair x y => cases tokenized
  | _ => rfl

omit [Codec] in
theorem default_reads {B : BadConjBehavior} {s : Store} (shows : Shows (fun _ => HolderNameDefault) B b s)
    {a : Sigma fun _ : BEField => Value} {tokens : List GoString} (tokenized : tokenizeAssign a.2 = .ok tokens)
    (k : Nat) : (b.indexer.container k).Reads b.fieldsData a := by
  intro desc h known held
  rw [EntriesContainer.getFieldHolder, if_pos (shows.container known)] at held
  obtain rfl := Option.some.inj held
  exact ⟨tokens, tokenized⟩

omit [Codec] in
theorem satisfied_iff {B : BadConjBehavior} {s : Store} {all : List ConjTx} {q : Assignments}
    (loaded : s.Loaded (fun _ => HolderNameDefault) B docs all) (id : DocID) :
    (∃ c ∈ all, c.SatisfiedBy q ∧ c.conjID.docID = id) ↔
      ∃ doc ∈ docs, doc.id = id ∧ ∃ conj ∈ doc.cons, (B = .skip → conj.Tokenises) ∧ conj.MatchedBy q := by
  constructor
  · rintro ⟨c, mem, satisfied, rfl⟩
    obtain ⟨doc, hdoc, conj, hconj, run⟩ := loaded.only c mem
    refine ⟨doc, hdoc, ((newConjID_fields (prepareConjTx_some run).1).2.2.2).symm, conj.1, ?_, ?_, ?_⟩
    · exact List.fst_mem_of_mem_zipIdx hconj
    · exact (prepareConjTx_made_iff run).mp rfl
    · exact (prepareConjTx_satisfied run).mp satisfied
  · rintro ⟨doc, hdoc, rfl, conj, hconj, tokenises, matched⟩
    obtain ⟨i, inside, rfl⟩ := List.mem_iff_getElem.mp hconj
    have listed : (doc.cons[i], i) ∈ doc.cons.zipIdx := List.mk_mem_zipIdx_iff_getElem?.mpr (by simp [inside])
    obtain ⟨r, run, kept⟩ := loaded.whole doc hdoc _ listed
    obtain ⟨c, rfl⟩ := Option.isSome_iff_exists.mp ((prepareConjTx_made_iff run).mpr tokenises)
    exact ⟨c, kept c rfl, (prepareConjTx_satisfied run).mpr matched,
      (newConjID_fields (prepareConjTx_some run).1).2.2.2⟩

variable [AhoMachine]

/-- The size-grouped index returns the ids of exactly the accepted documents that have a conjunction
which the query matches, each once and in ascending order. Under `SkipBadConj` an accepted document
is indexed without the conjunctions that have a value the tokenizer rejects; otherwise there are none. -/
theorem retrieve_exact {q : Assignments} (grouped : option.indexerType = .default)
    (uncached : option.docLevelCache = none) (accepted : Accepted option defaultNames docs b)
    (distinct : (docs.map Document.id).Nodup) (built : b.buildIndex = .ok b')
    (tokenises : ∀ a ∈ q.entries, ∃ tokens, tokenizeAssign a.2 = .ok tokens) (visits : Nat → GoMap.Visit q) :
    ∃ bi ids, b'.indexer = .kgroups bi ∧ bi.retrieve q visits = .ok ids ∧
      (ids.map Int64.toUInt64).Pairwise (· < ·) ∧
      ∀ id, id ∈ ids ↔ ∃ doc ∈ docs, doc.id = id ∧
        ∃ conj ∈ doc.cons, (option.badConjBehavior = .skip → conj.Tokenises) ∧ conj.MatchedBy q := by
  obtain ⟨shows, kind, all, loaded⟩ := loaded uncached accepted
  have reads : ∀ k, ∀ a ∈ q.entries, (b.indexer.container k).Reads b.fieldsData a := by
    intro k a mem
    obtain ⟨tokens, tokenized⟩ := tokenises a mem
    exact default_reads shows.1 tokenized k
  have plain : ∀ a ∈ q.entries, a.2.isArray = false := by
    intro a mem
    obtain ⟨tokens, tokenized⟩ := tokenises a mem
    exact tokenized_plain tokenized
  obtain ⟨docBits, run, members⟩ :=
    retrieve_satisfied shows.1.wf loaded.holds.keeps loaded.formed (loaded.single distinct)
    built visits ⟨fun _ => plain, fun k _ => reads k⟩
  have isGrouped : b'.indexer.isCompact = false := by
    rw [(buildIndex_spec built).2.2.2.1, kind, grouped]
    rfl
  obtain ⟨bi, index⟩ := BEIndex.kgroups_eq isGrouped
  rw [index] at run
  refine ⟨bi, docBits.getDocIDs, index, run, docBits.getDocIDs_ascending, fun id => ?_⟩
  rw [DocIDCollector.mem_getDocIDs, members, ← satisfied_iff loaded id]
  simp only [toUInt64_inj]

omit [FloatOps] [Codec] [AhoMachine] in
/-- A document with an include and an exclude expression on one field. -/
theorem retrieve_exact_age :
    let _ := FloatOps.noFloats
    let _ := Codec.single [] [] ⟨.eq, false, []⟩ []
    let _ := AhoMachine.naive
    let doc : Document := ⟨7, 0, [⟨AList.singleton (str "age")
      [⟨true, .ints .int (some [3, 4]), .eq⟩, ⟨false, .strings (some [str "5"]), .eq⟩]⟩]⟩
    let q : Assignments := AList.singleton (str "age") (.ints .int64 (some [4]))
    ∃ b b' bi ids, Accepted ⟨.default, .error, none⟩ defaultNames [doc] b ∧ b.buildIndex = .ok b' ∧
      b'.indexer = .kgroups bi ∧ bi.retrieve q (fun _ => ⟨q.entries, .refl _⟩) = .ok ids ∧ 7 ∈ ids := by
  intro _ _ _ doc q
  obtain ⟨b₀, made, b, _, added, built⟩ : ∃ b₀, newIndexerBuilder ⟨.default, .error, none⟩ = .ok b₀ ∧
      ∃ b u, b₀.addDocument .id [doc] = .ok (b, .ok u) ∧ okAnd (fun _ => true) b.buildIndex = true :=
    ⟨_, rfl, finished_iff.mp (by decide +kernel)⟩
  have accepted : Accepted ⟨.default, .error, none⟩ defaultNames [doc] b := .added (.new made) added
  obtain ⟨b', compiled, _⟩ := okAnd_iff.mp built
  have tokenises : ∀ a ∈ q.entries, ∃ tokens, tokenizeAssign a.2 = .ok tokens := by
    intro a mem
    obtain rfl := List.mem_singleton.mp mem
    exact ⟨_, rfl⟩
  obtain ⟨bi, ids, index, run, _, members⟩ := retrieve_exact rfl rfl accepted (by simp) compiled tokenises
    (fun _ => ⟨q.entries, .refl _⟩)
  refine ⟨b, b', bi, ids, accepted, compiled, index, run, (members 7).mpr ?_⟩
  exact ⟨doc, List.mem_singleton.mpr rfl, rfl, _, List.mem_singleton.mpr rfl, fun skips => (by cases skips), by decide⟩

end Accepted

end BeIndexer
