import BeIndexer.Refinement.Build

/-!
# What the calls leave alone

Most of what a builder does happens in its index. A relation between builders that does not look at
the index therefore survives restoring and committing, and it survives preparing if creating a field
respects it.
-/

namespace BeIndexer

open Calls
open IndexerBuilder (exprList)

/-- A preorder on builders that does not look at the index. -/
structure Frame (Later : IndexerBuilder → IndexerBuilder → Prop) : Prop where
  refl : ∀ b, Later b b
  trans : ∀ a b c, Later a b → Later b c → Later a c
  indexer : ∀ (b : IndexerBuilder) (i : BEIndex), Later b { b with indexer := i }

namespace Frame

variable {Later : IndexerBuilder → IndexerBuilder → Prop} (frame : Frame Later) {b b' : IndexerBuilder}

include frame

/-! ### Committing -/

theorem foldlM {ι : Type} {f : IndexerBuilder → ι → Go IndexerBuilder} {is : List ι}
    (each : ∀ b b' i, f b i = .ok b' → Later b b') (run : is.foldlM f b = .ok b') : Later b b' := by
  induction is generalizing b with
  | nil =>
    obtain rfl := Except.ok.inj run
    exact frame.refl _
  | cons i is ih =>
    rw [List.foldlM_cons] at run
    obtain ⟨b₁, first, rest⟩ := bind_eq_ok.mp run
    exact frame.trans _ _ _ (each b b₁ i first) (ih rest)

theorem commitConj (b b' : IndexerBuilder) (cd : ConjIndexingData) (run : b.commitConjIndexingData cd = .ok b') :
    Later b b' := by
  refine frame.trans _ _ _ ?_ (frame.foldlM (fun b b' tx committed => ?_) run)
  · split
    · exact frame.indexer _ _
    · exact frame.refl b
  · obtain ⟨⟨c, h⟩, _, first⟩ := bind_eq_ok.mp (panicIfErr_eq_ok.mp committed)
    obtain ⟨h', _, done⟩ := bind_eq_ok.mp first
    obtain rfl := Except.ok.inj done
    exact frame.indexer _ _

theorem settle {α : Type} (b : IndexerBuilder) (r : Go α) : Moves Later b (BeIndexer.settle b r) :=
  have leaves : Leaves Later (fun _ => True) (fun _ _ => True) b (BeIndexer.settle b r) :=
    settle_leaves frame.refl trivial
  fun b' r' run => (leaves b' r' run).1

/-! ### Restoring -/

section

variable [Codec]

theorem restoreField (k : Nat) (b : IndexerBuilder) (fieldTx : FieldIndexes) :
    Moves Later b (IndexerBuilder.restoreField k b fieldTx) := by
  intro b' r run
  unfold IndexerBuilder.restoreField at run
  split at run
  · obtain ⟨rfl, _⟩ := Prod.mk.inj (Except.ok.inj run)
    exact frame.refl _
  · obtain ⟨⟨c, h⟩, _, rest⟩ := bind_eq_ok.mp run
    exact frame.trans _ _ _ (frame.indexer _ _) (frame.settle _ _ _ _ rest)

theorem toConjIndexingData (docID : DocID) (b : IndexerBuilder) (cached : ConjIdxCache) :
    Moves Later b (b.toConjIndexingData docID cached) := by
  intro b' r run
  obtain ⟨conjID, _, rest⟩ := bind_eq_ok.mp run
  refine frame.trans _ _ _ (frame.indexer b (b.indexer.newContainer cached.conjSize.toNat)) ?_
  refine Moves.andThen frame.trans ?_ (fun _ _ _ => Moves.done frame.refl _) b' r rest
  exact Moves.mapCalls frame.refl frame.trans fun fieldTx _ b _ => frame.restoreField _ b fieldTx

theorem addDocIndexingData (b : IndexerBuilder) (cached : DocIdxCache) :
    Moves Later b (b.addDocIndexingData cached) := by
  have each : ∀ b c, Moves Later b (IndexerBuilder.restoreConj cached.docID b c) := by
    intro b c
    refine Moves.andThen frame.trans (frame.toConjIndexingData cached.docID b c) fun b₁ cd _ => ?_
    intro b' r run
    obtain ⟨b₂, committed, done⟩ := map_eq_ok.mp run
    obtain ⟨rfl, _⟩ := Prod.mk.inj done
    exact frame.commitConj _ _ _ committed
  exact Moves.andThen frame.trans (Moves.mapCalls frame.refl frame.trans fun c _ b _ => each b c)
    fun _ _ _ => Moves.done frame.refl _

end

/-! ### Preparing -/

variable [FloatOps] {loops : MapLoops}

theorem indexingExpr (conjID : ConjID) {expr : BEField × BoolValues}
    (creates : ∀ b' desc, b.createFieldData loops expr.1 = .ok (b', desc) → Later b b') :
    Moves Later b (IndexerBuilder.indexingExpr loops conjID b expr) := by
  intro b' r run
  obtain ⟨⟨b₁, desc⟩, created, rest⟩ := bind_eq_ok.mp run
  obtain ⟨⟨c, h⟩, _, rest⟩ := bind_eq_ok.mp rest
  refine frame.trans _ _ _ (creates b₁ desc created) ?_
  dsimp only at rest
  split at rest
  · obtain ⟨rfl, _⟩ := Prod.mk.inj (Except.ok.inj rest)
    exact frame.indexer _ _
  · obtain ⟨rfl, _⟩ := Prod.mk.inj (Except.ok.inj rest)
    exact frame.indexer _ _
  · cases rest

theorem prepareConj (docID : DocID) (conj : Conjunction × Nat)
    (creates : ∀ expr ∈ exprList conj.1, ∀ b₁, Later b b₁ →
      ∀ b₂ desc, b₁.createFieldData loops expr.1 = .ok (b₂, desc) → Later b₁ b₂) :
    Moves Later b (IndexerBuilder.prepareConj loops docID b conj) := by
  intro b' r run
  obtain ⟨conjID, _, rest⟩ := bind_eq_ok.mp run
  obtain ⟨⟨b₁, prepared⟩, indexed, rest⟩ := bind_eq_ok.mp rest
  have opened : Later b { b with indexer := b.indexer.newContainer conjID.size } := frame.indexer _ _
  have later : Later b b₁ := by
    refine frame.trans _ _ _ opened (Moves.mapCalls frame.refl frame.trans (fun expr mem b₂ since => ?_) _ _ indexed)
    exact frame.indexingExpr conjID (creates expr mem b₂ (frame.trans _ _ _ opened since))
  cases prepared with
  | ok fieldData =>
    obtain ⟨rfl, _⟩ := Prod.mk.inj (Except.ok.inj rest)
    exact later
  | error err =>
    simp only at rest
    split at rest
    · obtain ⟨rfl, _⟩ := Prod.mk.inj (Except.ok.inj rest)
      exact later
    · obtain ⟨rfl, _⟩ := Prod.mk.inj (Except.ok.inj rest)
      exact later
    · cases rest

/-! ### Adding a document -/

/-- A document is restored or it fails, which the relation survives, or it is indexed, and an entry may
be saved on top. -/
theorem addOne [Codec] {doc : Document} {r : Except GoError Unit}
    (creates : ∀ conj ∈ doc.cons, ∀ expr ∈ exprList conj, ∀ b₁, Later b b₁ →
      ∀ b₂ desc, b₁.createFieldData loops expr.1 = .ok (b₂, desc) → Later b₁ b₂)
    (run : IndexerBuilder.addOne loops b doc = .ok (b', r)) :
    (Later b b' ∧ (r = .ok () → b.cachedEntry doc ≠ none)) ∨
      ∃ b₁ b₂ prepared, IndexerBuilder.validDocument doc = .ok () ∧
        mapCalls (IndexerBuilder.prepareConj loops doc.id) b doc.cons.zipIdx = .ok (b₁, .ok prepared) ∧
        Later b b₂ ∧ b' = b₂.saveEntry loops doc b.schemaHash prepared.reduceOption := by
  rcases settled_cases run with ⟨_, _, rfl, rfl⟩ | ⟨_, valid, built⟩
  · exact Or.inl ⟨frame.refl _, by rintro ⟨⟩⟩
  obtain ⟨_, _, rest⟩ := bind_eq_ok.mp built
  obtain ⟨_, _, rest⟩ := bind_eq_ok.mp rest
  split at rest
  · rename_i entry hit
    exact Or.inl ⟨frame.addDocIndexingData b _ _ _ rest, fun _ => by simp [hit]⟩
  have prepare : Moves Later b (mapCalls (IndexerBuilder.prepareConj loops doc.id) b doc.cons.zipIdx) := by
    refine Moves.mapCalls frame.refl frame.trans fun conj mem b₁ since => frame.prepareConj doc.id conj ?_
    intro expr hexpr b₂ later
    exact creates conj.1 (List.fst_mem_of_mem_zipIdx mem) expr hexpr b₂ (frame.trans _ _ _ since later)
  unfold IndexerBuilder.buildEntries at rest
  rcases run₁ : mapCalls (IndexerBuilder.prepareConj loops doc.id) b doc.cons.zipIdx with fault | ⟨b₁, e | prepared⟩
  · simp [run₁, andThen] at rest
  · simp only [run₁, andThen, Except.ok.injEq, Prod.mk.injEq] at rest
    obtain ⟨rfl, rfl⟩ := rest
    exact Or.inl ⟨prepare _ _ run₁, by rintro ⟨⟩⟩
  · simp only [run₁, andThen] at rest
    obtain ⟨b₂, committed, done⟩ := map_eq_ok.mp rest
    obtain ⟨rfl, _⟩ := Prod.mk.inj done
    refine Or.inr ⟨b₁, b₂, prepared, valid, rfl, ?_, rfl⟩
    exact frame.trans _ _ _ (prepare _ _ run₁) (frame.foldlM frame.commitConj committed)

end Frame

/-! ### What happens to the cache -/

/-- The key under which a document is looked up and stored. -/
def Document.cacheKey (doc : Document) : DocCacheKey := ⟨doc.id, doc.version⟩

namespace IndexerBuilder

/-- Nothing is added to the cache. -/
def Within (b b' : IndexerBuilder) : Prop :=
  ∀ cache', b'.docLevelCache = some cache' →
    ∃ cache, b.docLevelCache = some cache ∧ ∀ key entry, cache' key = some entry → cache key = some entry

theorem Within.of_eq {b b' : IndexerBuilder} (same : b'.docLevelCache = b.docLevelCache) : Within b b' :=
  fun cache' isSome => ⟨cache', same ▸ isSome, fun _ _ h => h⟩

theorem Within.refl (b : IndexerBuilder) : Within b b := Within.of_eq rfl

theorem Within.trans (a b c : IndexerBuilder) (first : Within a b) (second : Within b c) : Within a c := by
  intro cache'' isSome
  obtain ⟨cache', isSome', later⟩ := second cache'' isSome
  obtain ⟨cache, isSome₀, earlier⟩ := first cache' isSome'
  exact ⟨cache, isSome₀, fun key entry h => earlier key entry (later key entry h)⟩

theorem frame_within : Frame Within := ⟨Within.refl, Within.trans, fun _ _ => Within.of_eq rfl⟩

variable {b b' : IndexerBuilder}

theorem configureField_within {loops : MapLoops} {f : BEField} {container : GoString} {desc : FieldDesc}
    (run : b.configureField loops f container = .ok (b', desc)) : Within b b' := by
  unfold configureField at run
  split at run
  · obtain ⟨rfl, _⟩ := Prod.mk.inj (Except.ok.inj run)
    intro cache' isSome
    obtain ⟨cache, had, rfl⟩ := Option.map_eq_some_iff.mp isSome
    exact ⟨cache, had, fun key entry h => by cases h⟩
  · cases run

theorem createFieldData_within {loops : MapLoops} {f : BEField} {desc : FieldDesc}
    (run : b.createFieldData loops f = .ok (b', desc)) : Within b b' := by
  unfold createFieldData at run
  split at run
  · obtain ⟨rfl, _⟩ := Prod.mk.inj (Except.ok.inj run)
    exact Within.refl _
  · exact configureField_within (panicIfErr_eq_ok.mp run)

theorem cachedEntry_some {doc : Document} {entry : DocIdxCache} (hit : b.cachedEntry doc = some entry) :
    ∃ cache, b.docLevelCache = some cache ∧ cache ⟨doc.id, doc.version⟩ = some entry ∧ doc.version > 0 ∧
      entry.schemaHash = b.schemaHash := by
  unfold cachedEntry at hit
  split at hit
  · cases hit
  · rename_i cache isSome
    split at hit
    · rename_i versioned
      split at hit
      · rename_i cached found
        split at hit
        · rename_i same
          obtain rfl := Option.some.inj hit
          exact ⟨cache, isSome, found, versioned, same⟩
        · cases hit
      · cases hit
    · cases hit

/-- An entry in the cache after a document was added was there before, or was captured from it. -/
theorem addOne_captures [FloatOps] [Codec] {loops : MapLoops} {doc : Document} {r : Except GoError Unit}
    (run : addOne loops b doc = .ok (b', r)) {cache' : DocLevelCache} (isSome : b'.docLevelCache = some cache')
    {key : DocCacheKey} {entry : DocIdxCache} (found : cache' key = some entry) :
    (∃ cache, b.docLevelCache = some cache ∧ cache key = some entry) ∨
      key = ⟨doc.id, doc.version⟩ ∧ ∃ b₁ prepared,
        mapCalls (prepareConj loops doc.id) b doc.cons.zipIdx = .ok (b₁, .ok prepared) ∧
        entry = ⟨doc.id, doc.version, b.schemaHash, prepared.reduceOption.map (·.toCacheResult loops)⟩ := by
  have old : ∀ {b₁ : IndexerBuilder} {cache₁ : DocLevelCache}, Within b b₁ → b₁.docLevelCache = some cache₁ →
      cache₁ key = some entry → ∃ cache, b.docLevelCache = some cache ∧ cache key = some entry := by
    intro b₁ cache₁ within isSome found
    obtain ⟨cache, had, subset⟩ := within cache₁ isSome
    exact ⟨cache, had, subset key entry found⟩
  have creates : ∀ conj ∈ doc.cons, ∀ expr ∈ exprList conj, ∀ b₁, Within b b₁ →
      ∀ b₂ desc, b₁.createFieldData loops expr.1 = .ok (b₂, desc) → Within b₁ b₂ :=
    fun _ _ _ _ _ _ _ _ => createFieldData_within
  rcases frame_within.addOne creates run with ⟨within, _⟩ | ⟨b₁, b₂, prepared, _, run₁, within, rfl⟩
  · exact Or.inl (old within isSome found)
  · unfold saveEntry at isSome
    split at isSome
    · obtain ⟨cache₂, had, rfl⟩ := Option.map_eq_some_iff.mp isSome
      by_cases here : key = ⟨doc.id, doc.version⟩
      · subst here
        rw [DocLevelCache.set, Function.update_self] at found
        exact Or.inr ⟨rfl, b₁, prepared, run₁, (Option.some.inj found).symm⟩
      · rw [DocLevelCache.set, Function.update_of_ne here] at found
        exact Or.inl (old within had found)
    · exact Or.inl (old within isSome found)

/-! #### What the cache can hold -/

/-- The cache has entries under these keys only. -/
def CachesOnly (keys : Set DocCacheKey) (b : IndexerBuilder) : Prop :=
  ∀ cache, b.docLevelCache = some cache → ∀ key entry, cache key = some entry → key ∈ keys

namespace CachesOnly

variable {keys more : Set DocCacheKey}

theorem mono (cached : b.CachesOnly keys) (sub : keys ⊆ more) : b.CachesOnly more :=
  fun cache had key entry found => sub (cached cache had key entry found)

theorem misses (cached : b.CachesOnly keys) {doc : Document} (unseen : doc.version > 0 → doc.cacheKey ∉ keys) :
    b.cachedEntry doc = none := by
  cases hit : b.cachedEntry doc with
  | none => rfl
  | some entry =>
    obtain ⟨cache, had, found, versioned, _⟩ := cachedEntry_some hit
    exact absurd (cached cache had _ entry found) (unseen versioned)

theorem configField {loops : MapLoops} {f : BEField} {container : GoString}
    (run : b.configField loops f container = .ok b') : b'.CachesOnly keys := by
  obtain ⟨_, _, rfl⟩ := configField_cases run
  intro cache had key entry found
  obtain ⟨_, _, rfl⟩ := Option.map_eq_some_iff.mp had
  cases found

theorem addOne [FloatOps] [Codec] {loops : MapLoops} {doc : Document} {r : Except GoError Unit}
    (cached : b.CachesOnly keys) (run : addOne loops b doc = .ok (b', r)) :
    b'.CachesOnly (insert doc.cacheKey keys) := by
  intro cache had key entry found
  rcases addOne_captures run had found with ⟨cache₀, had₀, old⟩ | ⟨rfl, _⟩
  · exact Set.mem_insert_of_mem _ (cached cache₀ had₀ key entry old)
  · exact Set.mem_insert _ _

end CachesOnly

end IndexerBuilder

end BeIndexer
