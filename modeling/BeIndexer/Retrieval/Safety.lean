import BeIndexer.Refinement.Frame
import BeIndexer.Retrieval.Exact

/-!
# Queries that crash an index

Only entry ids of conjunctions ever get into the posting lists of a builder, whatever calls are made
on it, and the scans cannot fail on such lists. What is left are the calls that read a query value:
`NilInterface` panics on an array.
-/

namespace BeIndexer

open Calls

/-! ### Posting lists -/

namespace Postings

/-- The entry id is in one of the posting lists. -/
def Lists (e : EntryID) : Postings → Prop
  | .tokens entries => ∃ token, e ∈ entries token
  | .range h => ∃ v, h.Covers v e
  | _ => False

variable {p p' : Postings} {e eid : EntryID}

theorem Answers.lists [FloatOps] {v : Value} (answers : p.Answers v e) : p.Lists e := by
  cases p with
  | tokens entries =>
    obtain ⟨_, _, token, _, mem⟩ := answers
    exact ⟨token, mem⟩
  | range h =>
    obtain ⟨_, _, id, _, covers⟩ := answers
    exact ⟨id, covers⟩
  | _ => exact answers

/-- The containers of the index proper: fields of documents are looked up by token or by range. -/
def servedNames : List GoString := [HolderNameDefault, HolderNameExtendRange]

theorem fresh_served {container : GoString} (named : container ∈ servedNames) :
    (fresh container).Served ∧ ∀ e, ¬ (fresh container).Lists e := by
  simp only [servedNames, List.mem_cons, List.not_mem_nil, or_false] at named
  rcases named with rfl | rfl
  · exact ⟨trivial, fun e => by rintro ⟨_, mem⟩; exact absurd mem List.not_mem_nil⟩
  · refine ⟨trivial, fun e => ?_⟩
    rintro ⟨v, point | interval⟩
    · exact absurd point List.not_mem_nil
    · exact RangeIdx.fresh_covers (by decide) v e interval

theorem commit_lists {data : IndexingData} (served : p.Served) (run : p.commit eid data = .ok p') :
    p'.Served ∧ ∀ e, p'.Lists e → p.Lists e ∨ e = eid := by
  cases p with
  | tokens entries =>
    cases data with
    | strTokens values =>
      obtain rfl := Except.ok.inj run
      refine ⟨trivial, fun e => ?_⟩
      rintro ⟨token, mem⟩
      dsimp only at mem
      split at mem
      · exact (List.mem_append.mp mem).imp (fun old => ⟨token, old⟩) List.mem_singleton.mp
      · exact Or.inl ⟨token, mem⟩
    | _ => cases run
  | range h =>
    cases data with
    | range data =>
      obtain ⟨h', committed, rfl⟩ := map_eq_ok.mp run
      refine ⟨trivial, fun e => ?_⟩
      rintro ⟨v, covers⟩
      exact (RangeHolder.commit_adds committed covers).imp_left fun old => ⟨v, old⟩
    | _ => cases run
  | optimizedRange h => exact served.elim
  | acMatcher h => exact served.elim

theorem compile_lists [AhoMachine] {h h' : EntriesHolder} {id : Nat} (served : (ofHolder id h).Served)
    (run : h.compileEntries = .ok h') :
    (ofHolder id h').Served ∧ ∀ e, (ofHolder id h').Lists e → (ofHolder id h).Lists e := by
  cases h with
  | default h =>
    obtain rfl := Except.ok.inj run
    refine ⟨trivial, fun e => ?_⟩
    rintro ⟨token, mem⟩
    exact ⟨token, mem_sortEntries.mp mem⟩
  | range h =>
    obtain rfl := Except.ok.inj run
    refine ⟨trivial, fun e => ?_⟩
    rintro ⟨v, covers⟩
    exact ⟨v, Or.inl (RangeHolder.compile_covers covers)⟩
  | optimizedRange h => exact served.elim
  | acMatcher h => exact served.elim

end Postings

/-- The posting lists of a field after its container was compiled are those of a compiled holder, unless it has none. -/
theorem EntriesContainer.compile_postings [AhoMachine] {c c' : EntriesContainer} (t : FieldTable) (f : BEField)
    (run : c.compileEntries = .ok c') : c'.postings t f = c.postings t f ∨
      ∃ id h h', c.postings t f = .ofHolder id h ∧ c'.postings t f = .ofHolder id h' ∧ h.compileEntries = .ok h' := by
  cases known : t.find f with
  | none =>
    rw [postings_unknown known, postings_unknown known]
    exact Or.inl rfl
  | some desc =>
    rcases compile_getFieldHolder run desc with ⟨before, after⟩ | ⟨h, h', before, after, compiled⟩
    · rw [postings_new known before, postings_new known after]
      exact Or.inl rfl
    · have shown : c.postings t f = .ofHolder desc.id h := postings_known known (by rw [heldBy, before]; rfl)
      have shown' : c'.postings t f = .ofHolder desc.id h' := postings_known known (by rw [heldBy, after]; rfl)
      exact Or.inr ⟨desc.id, h, h', shown, shown', compiled⟩

theorem EntriesContainer.compile_lists [AhoMachine] {c c' : EntriesContainer} {t : FieldTable} {f : BEField}
    (served : (c.postings t f).Served) (run : c.compileEntries = .ok c') :
    (c'.postings t f).Served ∧ ∀ e, (c'.postings t f).Lists e → (c.postings t f).Lists e := by
  rcases compile_postings t f run with same | ⟨id, h, h', before, after, compiled⟩
  · rw [same]
    exact ⟨served, fun _ listed => listed⟩
  · rw [before] at served ⊢
    rw [after]
    exact Postings.compile_lists served compiled

/-! ### The store -/

def ConjTx.Valid (c : ConjTx) : Prop := ValidConjID c.conjID ∧ ∀ tx ∈ c.txs, ValidEntry tx.eid

theorem ConjTx.Formed.entriesValid {c : ConjTx} (formed : c.Formed) : c.Valid := by
  refine ⟨formed.valid, fun tx mem => ?_⟩
  obtain ⟨incl, eid⟩ := formed.entries tx mem
  exact ⟨c.conjID, incl, formed.valid, eid⟩

def ConjIdxCache.Valid (cached : ConjIdxCache) : Prop :=
  ∀ fieldTx ∈ cached.fieldCacheIdx, ∀ entry ∈ fieldTx.entries, ValidEntry entry.eid

def DocIdxCache.Valid (cached : DocIdxCache) : Prop := ∀ c ∈ cached.conjIdxCaches, c.Valid

def DocLevelCache.Valid (cache : DocLevelCache) : Prop := ∀ key, ∀ cached ∈ cache key, cached.Valid

namespace Store

/-- The posting lists are of the two containers and hold entry ids of conjunctions only. -/
structure Sane (s : Store) : Prop where
  served : ∀ k f, (s.posts k f).Served
  listed : ∀ k f e, (s.posts k f).Lists e → ValidEntry e
  zeros : ∀ e ∈ s.wildcard, ValidEntry e

variable {s s' : Store}

theorem Sane.usable [FloatOps] (sane : s.Sane) : s.Usable where
  served := sane.served
  valid k f _ e answers := sane.listed k f e answers.lists
  zeros := sane.zeros

theorem Sane.configure (sane : s.Sane) (f : BEField) {container : GoString} (named : container ∈ Postings.servedNames) :
    (s.configure f container).Sane := by
  obtain ⟨served, empty⟩ := Postings.fresh_served named
  refine ⟨fun k g => ?_, fun k g e => ?_, sane.zeros⟩
  · simp only [Store.configure]
    split
    · exact served
    · exact sane.served k g
  · simp only [Store.configure]
    split
    · exact fun listed => absurd listed (empty e)
    · exact sane.listed k g e

theorem Sane.commitTx {tx : Tx} (sane : s.Sane) (valid : ValidEntry tx.eid) (run : s.commitTx tx = .ok s') :
    s'.Sane := by
  obtain ⟨p, committed, done⟩ := bind_eq_ok.mp run
  obtain ⟨served, listed⟩ := Postings.commit_lists (sane.served _ _) (panicIfErr_eq_ok.mp committed)
  obtain rfl := Except.ok.inj done
  refine ⟨fun k f => ?_, fun k f e => ?_, sane.zeros⟩
  · simp only [put]
    split
    · exact served
    · exact sane.served k f
  · simp only [put]
    split
    · intro mem
      rcases listed e mem with old | rfl
      · exact sane.listed _ _ e old
      · exact valid
    · exact sane.listed k f e

theorem Sane.commitConj {c : ConjTx} (sane : s.Sane) (valid : c.Valid) (run : s.commitConj c = .ok s') : s'.Sane := by
  refine foldlM_inv (fun tx mem s s' sane ran => sane.commitTx (valid.2 tx mem) ran) ?_ run
  split
  · refine ⟨sane.served, sane.listed, fun e mem => ?_⟩
    rcases List.mem_append.mp mem with old | new
    · exact sane.zeros e old
    · exact ⟨c.conjID, true, valid.1, List.mem_singleton.mp new⟩
  · exact sane

theorem Sane.addOne [FloatOps] {C : BEField → GoString} {B : BadConjBehavior} {doc : Document}
    {r : Except GoError Unit} (sane : s.Sane) (run : s.addOne C B doc = .ok (s', r)) : s'.Sane := by
  rcases addOne_cases run with ⟨_, _, rfl⟩ | ⟨found, prepared, _, commits⟩
  · exact sane
  · refine foldlM_inv (fun c mem s s' sane ran => ?_) sane commits
    obtain ⟨conj, _, made⟩ := mem_mapM prepared (List.reduceOption_mem_iff.mp mem)
    exact sane.commitConj (prepareConjTx_formed made).entriesValid ran

section Restore

variable [Codec] {fields : BEField → Option GoString} {docID : DocID}

theorem restoreConjTx_valid {cached : ConjIdxCache} {c : ConjTx} (valid : cached.Valid)
    (run : restoreConjTx fields docID cached = .ok c) : c.Valid := by
  obtain ⟨conjID, packed, rest⟩ := bind_eq_ok.mp run
  obtain ⟨groups, decoded, done⟩ := bind_eq_ok.mp rest
  obtain rfl := Except.ok.inj done
  refine ⟨(newConjID_fields packed).1, fun tx mem => ?_⟩
  obtain ⟨group, hgroup, inside⟩ := List.mem_flatten.mp mem
  obtain ⟨fieldTx, hfield, restored⟩ := mem_mapM decoded hgroup
  unfold restoreTxs at restored
  split at restored
  · cases restored
  · split at restored
    · cases restored
    · obtain ⟨entry, hentry, made⟩ := mem_mapM restored inside
      obtain ⟨data, _, done⟩ := bind_eq_ok.mp made
      obtain rfl := Except.ok.inj done
      exact valid fieldTx hfield entry hentry

theorem Sane.restore {cached : List ConjIdxCache} {r : Except GoError Unit} (sane : s.Sane)
    (valid : ∀ c ∈ cached, c.Valid) (run : s.restore fields docID cached = .ok (s', r)) : s'.Sane := by
  obtain ⟨_, loop⟩ := andThen_left run
  refine mapCalls_inv (fun c mem s s' r sane ran => ?_) sane loop
  rcases restoreConj_cases ran with ⟨_, _, rfl, _⟩ | ⟨tx, restored, committed, _⟩
  · exact sane
  · exact sane.commitConj (restoreConjTx_valid (valid c mem) restored) committed

end Restore

end Store

/-! ### Runs -/

/-- The call keeps to the two containers and to caches of entry ids of conjunctions. -/
def Op.Plain : Op → Prop
  | .configField _ _ container => container.isEmpty = true ∨ container ∈ Postings.servedNames
  | .addDocIndexingData cached => cached.Valid
  | .shareCache cache => cache.Valid
  | _ => True

namespace IndexerBuilder

def CacheValid (b : IndexerBuilder) : Prop := ∀ cache ∈ b.docLevelCache, cache.Valid

structure Sane (b : IndexerBuilder) : Prop where
  wf : b.WF
  named : ∀ f, b.containers f ∈ Postings.servedNames
  store : b.store.Sane
  cache : b.CacheValid

variable {b b' : IndexerBuilder}

theorem cleared_valid {cache : Option DocLevelCache} :
    ∀ cleared ∈ cache.map fun _ => DocLevelCache.clear, cleared.Valid := by
  intro cleared mem
  obtain ⟨_, _, rfl⟩ := Option.mem_map.mp mem
  rintro key cached ⟨⟩

/-- A call that shows as a call on the store and keeps the cache valid. -/
theorem Sane.of_shows {B : BadConjBehavior} {s : Store} (sane : b.Sane) (shows : Shows b.containers B b' s)
    (store : s.Sane) (cache : b'.CacheValid) : b'.Sane where
  wf := shows.wf
  named f := by
    rw [shows.containers]
    exact sane.named f
  store := by
    rw [shows.store]
    exact store
  cache := cache

theorem servedNames_plain {container : GoString} (named : container ∈ Postings.servedNames) :
    container ≠ HolderNameOptimizedRange := by
  simp only [Postings.servedNames, List.mem_cons, List.not_mem_nil, or_false] at named
  rcases named with rfl | rfl <;> decide

theorem Within.cacheValid (within : Within b b') (valid : b.CacheValid) : b'.CacheValid := by
  intro cache' isSome key cached found
  obtain ⟨cache, had, subset⟩ := within cache' isSome
  exact valid cache had key cached (subset key cached found)

section Documents

variable [Codec]

theorem Sane.addDocIndexingData {cached : DocIdxCache} {r : Except GoError Unit} (sane : b.Sane) (valid : cached.Valid)
    (run : b.addDocIndexingData cached = .ok (b', r)) : b'.Sane := by
  have follows := addDocIndexingData_follows sane.wf.shows cached
  rw [run] at follows
  obtain ⟨s', shows, ran⟩ := follows.returns_left
  refine sane.of_shows shows ?_ ((frame_within.addDocIndexingData b cached _ _ run).cacheValid sane.cache)
  exact sane.store.restore valid ran

theorem toCacheResult_valid {cd : ConjIndexingData} (valid : cd.toConjTx.Valid) (loops : MapLoops) :
    (cd.toCacheResult loops).Valid := by
  intro fieldTx hfield entry hentry
  have listed := (loops.captured.perm _).mem_iff.mp (List.mem_filter.mp hfield).1
  obtain ⟨field, _, rfl⟩ := List.mem_map.mp listed
  obtain ⟨tx, htx, captured⟩ := List.mem_filterMap.mp hentry
  split at captured
  · obtain rfl := Option.some.inj captured
    exact valid.2 tx.toTx (List.mem_map_of_mem (List.mem_filter.mp htx).1)
  · cases captured

variable [FloatOps] {loops : MapLoops}

omit [Codec] in
theorem Sane.quiet (sane : b.Sane) (doc : Document) :
    ∀ conj ∈ doc.cons.zipIdx, ∀ expr ∈ exprList conj.1, EntriesHolder.Quiet (b.containers expr.1) expr.1 expr.2 :=
  fun _ _ _ _ => EntriesHolder.quiet_of_ne (servedNames_plain (sane.named _))

theorem Sane.addOne_cacheValid {doc : Document} {r : Except GoError Unit} (sane : b.Sane)
    (run : addOne loops b doc = .ok (b', r)) : b'.CacheValid := by
  intro cache' isSome key cached found
  rcases addOne_captures run isSome found with ⟨cache, had, old⟩ | ⟨_, b₁, prepared, prepares, rfl⟩
  · exact sane.cache cache had key cached old
  · obtain ⟨txs, made, same, _⟩ := prepareConjs_ok sane.wf.shows (sane.quiet doc) prepares
    intro c mem
    obtain ⟨cd, hcd, rfl⟩ := List.mem_map.mp mem
    have inside : cd.toConjTx ∈ txs.reduceOption := same ▸ List.mem_map_of_mem hcd
    obtain ⟨conj, _, prepared⟩ := mem_mapM made (List.reduceOption_mem_iff.mp inside)
    exact toCacheResult_valid (prepareConjTx_formed prepared).entriesValid loops

theorem Sane.addOne {doc : Document} {r : Except GoError Unit} (sane : b.Sane)
    (run : addOne loops b doc = .ok (b', r)) : b'.Sane := by
  have cache := sane.addOne_cacheValid run
  cases hit : b.cachedEntry doc with
  | none =>
    have follows := addOne_misses sane.wf.shows loops hit (sane.quiet doc)
    rw [run] at follows
    obtain ⟨s', shows, ran⟩ := follows.returns_left
    refine sane.of_shows shows ?_ cache
    exact sane.store.addOne ran
  | some cached =>
    obtain ⟨old, had, found, _⟩ := cachedEntry_some hit
    have follows := addOne_hits sane.wf.shows loops hit
    rw [run] at follows
    obtain ⟨s', shows, ran⟩ := follows.returns_left
    refine sane.of_shows shows ?_ cache
    rcases settled_cases ran with ⟨_, _, rfl, _⟩ | ⟨_, _, restored⟩
    · exact sane.store
    · exact sane.store.restore (sane.cache old had _ cached found) restored

end Documents

section Calls

theorem chosen_served {container : GoString} (named : container.isEmpty = true ∨ container ∈ Postings.servedNames) :
    (if container.isEmpty then HolderNameDefault else container) ∈ Postings.servedNames := by
  split
  · exact List.mem_cons_self
  · rename_i given
    exact named.resolve_left given

theorem Sane.configField {loops : MapLoops} {f : BEField} {container : GoString} (sane : b.Sane)
    (named : container.isEmpty = true ∨ container ∈ Postings.servedNames)
    (run : b.configField loops f container = .ok b') : b'.Sane := by
  have chosen := chosen_served named
  obtain ⟨_, shows⟩ := configField_shows sane.wf.shows run
  refine ⟨shows.wf, fun g => ?_, ?_, ?_⟩
  · rw [shows.containers, Function.update_apply]
    split
    · exact chosen
    · exact sane.named g
  · rw [shows.store]
    exact sane.store.configure f chosen
  · obtain ⟨_, _, rfl⟩ := configField_cases run
    exact cleared_valid

theorem Sane.buildIndex [AhoMachine] (sane : b.Sane) (run : b.buildIndex = .ok b') : b'.Sane := by
  have wf := buildIndex_wf sane.wf run
  obtain ⟨only, containers, _, _, _, wildcard⟩ := buildIndex_spec run
  have table : b'.fieldsData = b.fieldsData := by rw [only]
  have each := fun k f => EntriesContainer.compile_lists (sane.store.served k f) (containers k)
  refine ⟨wf, fun f => ?_, ⟨fun k f => ?_, fun k f e listed => ?_, fun e mem => ?_⟩, ?_⟩
  · rw [only]
    exact sane.named f
  · simp only [IndexerBuilder.store, table]
    exact (each k f).1
  · simp only [IndexerBuilder.store, table] at listed
    exact sane.store.listed k f e ((each k f).2 e listed)
  · simp only [IndexerBuilder.store, wildcard] at mem
    exact sane.store.zeros e (mem_sortEntries.mp mem)
  · rw [only]
    exact sane.cache

theorem fresh_sane {type : IndexerType} {idx : BEIndex} (made : initIndexer type = .ok idx)
    (named : ∀ f, b.containers f ∈ Postings.servedNames) (cache : b.CacheValid) : Sane { b with indexer := idx } := by
  obtain ⟨fits, empty⟩ := initIndexer_wf made b.fieldsData
  have fresh : ∀ k, idx.container k = newFieldEntriesContainer := by
    intro k
    cases type with
    | default =>
      obtain rfl := Except.ok.inj made
      rfl
    | compact =>
      obtain rfl := Except.ok.inj made
      rfl
    | other n => cases made
  refine ⟨⟨fits, fun nonempty => absurd empty nonempty⟩, named,
    ⟨fun k f => ?_, fun k f e listed => ?_, fun e mem => ?_⟩,
    cache⟩
  · simp only [IndexerBuilder.store, fresh, fresh_postings]
    exact (Postings.fresh_served (named f)).1
  · simp only [IndexerBuilder.store, fresh, fresh_postings] at listed
    exact absurd listed ((Postings.fresh_served (named f)).2 e)
  · simp only [IndexerBuilder.store, empty] at mem
    exact absurd mem List.not_mem_nil

variable [FloatOps] [Codec] [AhoMachine]

theorem Sane.step {op : Op} (sane : b.Sane) (plain : op.Plain) (run : b.step op = .ok b') : b'.Sane := by
  cases op with
  | configField loops field container => exact sane.configField plain run
  | addDocument loops docs =>
    obtain ⟨⟨b₁, r⟩, added, rfl⟩ := map_eq_ok.mp run
    obtain ⟨_, loop⟩ := andThen_left added
    exact mapCalls_inv (fun doc _ b b' r sane ran => sane.addOne ran) sane loop
  | addDocIndexingData cached =>
    obtain ⟨⟨b₁, r⟩, added, rfl⟩ := map_eq_ok.mp run
    exact sane.addDocIndexingData plain added
  | buildIndex => exact sane.buildIndex run
  | reset =>
    obtain ⟨idx, made, done⟩ := bind_eq_ok.mp run
    obtain rfl := Except.ok.inj done
    exact fresh_sane made sane.named sane.cache
  | shareCache cache =>
    obtain rfl := Except.ok.inj run
    refine ⟨⟨sane.wf.fits, sane.wf.wildcard⟩, sane.named, sane.store, fun shared mem => ?_⟩
    obtain ⟨_, _, rfl⟩ := Option.mem_map.mp mem
    exact plain

theorem run_sane {option : BuilderOption} {ops : List Op} (cache : ∀ cache ∈ option.docLevelCache, cache.Valid)
    (plain : ∀ op ∈ ops, op.Plain) (reached : run option ops = .ok b) : b.Sane := by
  obtain ⟨b₀, made, steps⟩ := bind_eq_ok.mp reached
  refine foldlM_inv (fun op mem b b' sane ran => sane.step (plain op mem) ran) ?_ steps
  obtain ⟨idx, init, done⟩ := bind_eq_ok.mp made
  obtain rfl := Except.ok.inj done
  exact fresh_sane (b := { option with indexer := idx, fieldsData := .empty, schemaHash := 0 }) init
    (fun _ => List.mem_cons_self) cache

end Calls

end IndexerBuilder

/-! ### Reading a query -/

section Read

variable [FloatOps] [AhoMachine]

/-- A compiled holder of the two containers panics on an array in the range container only. -/
theorem EntriesHolder.getEntries_returns_iff {h h' : EntriesHolder} {desc : FieldDesc} {v : Value}
    (served : (Postings.ofHolder desc.id h).Served) (compiled : h.compileEntries = .ok h') :
    Returns (h'.getEntries desc v) ↔ (v.isArray = true → ∀ g, h ≠ .range g) := by
  cases h with
  | default h =>
    obtain rfl := Except.ok.inj compiled
    refine iff_of_true ?_ (by rintro _ _ ⟨⟩)
    exact Returns.bind (tokenizeAssign_returns v) fun _ _ => Or.inl ⟨_, rfl⟩
  | range h =>
    obtain rfl := Except.ok.inj compiled
    have reads := parseIntegers_returns_iff v h.option.enableFloat2Int
    constructor
    · intro returns array
      have plain := reads.mp returns.of_bind
      rw [array] at plain
      cases plain
    · intro safe
      have plain : v.isArray = false := by
        rw [← Bool.not_eq_true]
        exact fun array => safe array h rfl
      refine Returns.bind (reads.mpr plain) fun ids _ => ?_
      split
      · exact Or.inl ⟨_, rfl⟩
      · exact Or.inl ⟨_, rfl⟩
  | optimizedRange h => exact served.elim
  | acMatcher h => exact served.elim

/-- No array is asked of a range holder of the container. -/
def EntriesContainer.Takes (c : EntriesContainer) (t : FieldTable) (assign : Sigma fun _ : BEField => Value) : Prop :=
  assign.2.isArray = true → ∀ desc h, t.find assign.1 = some desc → c.getFieldHolder desc ≠ some (.range h)

theorem EntriesContainer.initFieldCursor_returns_iff {c c' : EntriesContainer} {t : FieldTable}
    {assign : Sigma fun _ : BEField => Value} (served : (c.postings t assign.1).Served)
    (compiled : c.compileEntries = .ok c') : Returns (initFieldCursor t c' assign) ↔ c.Takes t assign := by
  unfold initFieldCursor Takes
  cases known : t.find assign.1 with
  | none => exact iff_of_true (Or.inl ⟨_, rfl⟩) (by rintro _ _ _ ⟨⟩)
  | some desc =>
    rcases compile_getFieldHolder compiled desc with ⟨before, after⟩ | ⟨h, h', before, after, done⟩
    · simp only [after]
      refine iff_of_true (Or.inl ⟨_, rfl⟩) ?_
      rintro _ _ _ ⟨⟩ held
      rw [before] at held
      cases held
    · have shown : c.postings t assign.1 = .ofHolder desc.id h := postings_known known (by rw [heldBy, before]; rfl)
      rw [shown] at served
      have reads := EntriesHolder.getEntries_returns_iff (v := assign.2) served done
      simp only [after]
      constructor
      · rintro returns array _ g ⟨⟩ held
        rw [before] at held
        exact reads.mp returns.of_bind array g (Option.some.inj held)
      · intro safe
        refine Returns.bind (reads.mpr fun array g isRange => ?_) fun cs _ => ?_
        · exact safe array desc g rfl (by rw [before, isRange])
        · cases cs with
          | nil => exact Or.inl ⟨_, rfl⟩
          | cons c cs => exact Or.inl ⟨_, rfl⟩

end Read

namespace IndexerBuilder

variable [FloatOps] [AhoMachine] {b b' : IndexerBuilder} {q : Assignments}

theorem compact_returns (sane : b.Sane) (built : b.buildIndex = .ok b') (compact : b.indexer.isCompact = true)
    (takes : ∀ a ∈ q.entries, (b.indexer.container 0).Takes b.fieldsData a) (visits : Nat → GoMap.Visit q) :
    Returns (b'.indexer.retrieve q visits) := by
  obtain ⟨_, containers, _, kind, table, _⟩ := buildIndex_spec built
  have start : Returns ((visits 0).1.mapM (initFieldCursor b.fieldsData (b'.indexer.container 0))) :=
    Returns.mapM fun a mem => (EntriesContainer.initFieldCursor_returns_iff (sane.store.served 0 a.1)
      (containers 0)).mpr
      (takes a ((visits 0).2.mem_iff.mp mem))
  rcases start with ⟨found, ran⟩ | ⟨e, failed⟩
  · have reads : ∀ a ∈ q.entries, (b.indexer.container 0).Reads b.fieldsData a := by
      intro a mem
      obtain ⟨_, _, made⟩ := mapM_mem ran ((visits 0).2.mem_iff.mpr mem)
      exact EntriesContainer.initFieldCursor_reads (containers 0) made
    obtain ⟨docBits, run, _⟩ := compact_retrieve sane.store.usable built compact visits reads
    exact Or.inl ⟨_, run⟩
  · obtain ⟨bi, index⟩ := BEIndex.compact_eq (kind.trans compact)
    rw [index] at failed table ⊢
    have same : bi.fieldsData = b.fieldsData := table
    rw [← same] at failed
    refine Or.inr ⟨e, ?_⟩
    simp only [BEIndex.retrieve, CompactBEIndex.retrieve, CompactBEIndex.initCursors, initCursorsFrom]
    exact congrArg (fun r => (r >>= _) >>= _) failed

theorem compact_takes (sane : b.Sane) (built : b.buildIndex = .ok b') (compact : b.indexer.isCompact = true)
    (returns : ∀ visits, Returns (b'.indexer.retrieve q visits)) :
    ∀ a ∈ q.entries, (b.indexer.container 0).Takes b.fieldsData a := by
  obtain ⟨_, containers, _, kind, table, _⟩ := buildIndex_spec built
  intro a mem
  -- the loop over the query may start with this value
  obtain ⟨rest, perm⟩ := GoMap.exists_visit_first mem
  have first := returns fun _ => ⟨a :: rest, perm⟩
  rw [← EntriesContainer.initFieldCursor_returns_iff (sane.store.served 0 a.1) (containers 0)]
  obtain ⟨bi, index⟩ := BEIndex.compact_eq (kind.trans compact)
  rw [index] at first table ⊢
  have same : bi.fieldsData = b.fieldsData := table
  have whole : Returns ((a :: rest).mapM (initFieldCursor bi.fieldsData bi.container)) := first.of_bind.of_bind
  rw [List.mapM_cons] at whole
  rw [← same]
  exact whole.of_bind

theorem kgroups_returns (sane : b.Sane) (built : b.buildIndex = .ok b') {bi : KGroupsBEIndex}
    (index : b'.indexer = .kgroups bi) (plain : ∀ a ∈ q.entries, a.2.isArray = false) (visits : Nat → GoMap.Visit q)
    {n : Nat} (enough : n ≤ bi.kSizeContainers.length) (collector : DocIDCollector) :
    Returns (bi.retrieveBelow q visits n collector) := by
  obtain ⟨_, containers, _, _, table, _⟩ := buildIndex_spec built
  rw [index] at table
  have same : bi.fieldsData = b.fieldsData := table
  induction n generalizing collector with
  | zero => exact Or.inl ⟨_, rfl⟩
  | succ k ih =>
    have inside : k < bi.kSizeContainers.length := by omega
    have container : bi.getKSizeEntries k = .ok (b'.indexer.container k) := by
      rw [KGroupsBEIndex.getKSizeEntries, List.getElem?_eq_getElem inside, index, BEIndex.container,
        List.getD_eq_getElem _ _ inside]
    have start : Returns (bi.initCursors (visits k).1 k) := by
      refine Returns.bind (Or.inl ⟨_, container⟩) fun c found => Returns.bind ?_ fun _ _ => Or.inl ⟨_, rfl⟩
      obtain rfl := Except.ok.inj (container.symm.trans found)
      refine Returns.mapM fun a mem => ?_
      rw [same, EntriesContainer.initFieldCursor_returns_iff (sane.store.served k a.1) (containers k)]
      intro array
      rw [plain a ((visits k).2.mem_iff.mp mem)] at array
      cases array
    refine Returns.bind start fun cursors ran => ?_
    have reads : ∀ a ∈ q.entries, (b.indexer.container k).Reads b.fieldsData a := by
      obtain ⟨c, found, started⟩ := bind_eq_ok.mp ran
      obtain rfl := Except.ok.inj (container.symm.trans found)
      obtain ⟨_, each, _⟩ := bind_eq_ok.mp started
      intro a mem
      obtain ⟨_, _, made⟩ := mapM_mem each ((visits k).2.mem_iff.mpr mem)
      rw [same] at made
      exact EntriesContainer.initFieldCursor_reads (containers k) made
    obtain ⟨cursors', adds, started, scanned, _⟩ := kgroups_scan sane.store.usable built index inside (visits k) reads
    obtain rfl := Except.ok.inj (ran.symm.trans started)
    refine Returns.bind (Or.inl ⟨adds, scanned⟩) fun adds' _ => ?_
    exact ih (by omega) _

/-- A retrieval returns whatever the order of the loops over the query, unless the size-grouped index
is given an array or the compact one an array on a field with a range holder. -/
theorem returns_iff (sane : b.Sane) (built : b.buildIndex = .ok b') :
    (∀ visits, Returns (b'.indexer.retrieve q visits)) ↔
      ∀ a ∈ q.entries, a.2.isArray = true → b.indexer.isCompact = true ∧ ∀ desc h,
        b.fieldsData.find a.1 = some desc → (b.indexer.container 0).getFieldHolder desc ≠ some (.range h) := by
  cases kind : b.indexer.isCompact with
  | true =>
    simp only [true_and]
    exact ⟨compact_takes sane built kind, compact_returns sane built kind⟩
  | false =>
    have kind' := (buildIndex_spec built).2.2.2.1.trans kind
    obtain ⟨bi, index⟩ := BEIndex.kgroups_eq kind'
    rw [index]
    constructor
    · intro returns a mem array
      have sized : Returns (Assignments.size q) := (returns fun _ => ⟨q.entries, .refl _⟩).of_bind
      rw [Assignments.size_eq, if_pos (List.any_eq_true.mpr ⟨a, mem, array⟩)] at sized
      exact absurd sized (not_returns_panic rfl)
    · intro safe visits
      have plain : ∀ a ∈ q.entries, a.2.isArray = false := by
        intro a mem
        rw [← Bool.not_eq_true]
        intro array
        cases (safe a mem array).1
      refine Returns.bind (Or.inl ⟨_, Assignments.size_plain plain⟩) fun size _ => ?_
      refine Returns.bind ?_ fun _ _ => Or.inl ⟨_, rfl⟩
      refine kgroups_returns sane built index plain visits ?_ ∅
      simp only [KGroupsBEIndex.maxK]
      omega

end IndexerBuilder

end BeIndexer
