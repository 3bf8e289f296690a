import BeIndexer.Builder

/-!
# What the document-level cache stores

The data that is committed is also captured for the cache, field by field. An expression that cannot
be encoded is passed over, and the entry is stored all the same.
-/

namespace BeIndexer

open Calls

def ConjIdxCache.entriesOf (cached : ConjIdxCache) (f : BEField) : List IdxCacheEntry :=
  (cached.fieldCacheIdx.filter fun fieldTx => fieldTx.field == f).flatMap FieldIndexes.entries

namespace ConjIndexingData

def txsOf (cd : ConjIndexingData) (f : BEField) : List FieldIndexingData :=
  cd.fieldData.filter fun tx => tx.field.field == f

variable [Codec]

/-- One pair of an entry id and bytes for every expression. -/
def CapturedBy (cd : ConjIndexingData) (cached : ConjIdxCache) : Prop :=
  cached.conjIdx = cd.idx ∧ cached.conjSize = cd.incSize ∧
    ∀ f, List.Forall₂ (fun e tx => e.eid = tx.eid ∧ tx.data.encode = .ok e.dataBytes) (cached.entriesOf f) (cd.txsOf f)

/-- Grouping by field loses nothing, in whatever order the fields are visited. -/
theorem toCacheResult_entriesOf (loops : MapLoops) (cd : ConjIndexingData) (f : BEField) :
    (cd.toCacheResult loops).entriesOf f = cd.capturedEntries f := by
  have nodup : (cd.fieldData.map fun tx => tx.field.field).dedup.Nodup := List.nodup_dedup _
  have listed : f ∉ (cd.fieldData.map fun tx => tx.field.field).dedup → cd.capturedEntries f = [] := by
    intro absent
    have none : (cd.fieldData.filter fun tx => tx.field.field == f) = [] := by
      rw [List.filter_eq_nil_iff]
      intro tx mem isField
      exact absent (List.mem_dedup.mpr (List.mem_map.mpr ⟨tx, mem, by simpa using isField⟩))
    rw [capturedEntries, none]
    rfl
  simp only [ConjIdxCache.entriesOf, toCacheResult]
  generalize (cd.fieldData.map fun tx => tx.field.field).dedup = fields at nodup listed
  have visited := (loops.captured.perm (fields.map fun field => ⟨field, cd.capturedEntries field⟩)).filter
    fun fieldTx => fieldTx.field == f
  have group : ((fields.map fun field => (⟨field, cd.capturedEntries field⟩ : FieldIndexes)).filter
      fun fieldTx => fieldTx.field == f) = List.replicate (fields.count f) ⟨f, cd.capturedEntries f⟩ := by
    have picked : (fields.filter ((fun fieldTx : FieldIndexes => fieldTx.field == f) ∘
        fun field => ⟨field, cd.capturedEntries field⟩)) = List.replicate (fields.count f) f := List.filter_beq f
    rw [List.filter_map, picked, List.map_replicate]
  rw [List.filter_comm]
  rw [group] at visited
  by_cases mem : f ∈ fields
  · rw [List.count_eq_one_of_mem nodup mem, List.replicate_one, List.perm_singleton] at visited
    rw [visited]
    cases entries : cd.capturedEntries f <;> simp
  · rw [List.count_eq_zero.mpr mem, List.replicate_zero, List.perm_nil] at visited
    rw [visited, listed mem]
    rfl

theorem capturedEntries_iff (cd : ConjIndexingData) (f : BEField) :
    List.Forall₂ (fun e tx => e.eid = tx.eid ∧ tx.data.encode = .ok e.dataBytes) (cd.capturedEntries f) (cd.txsOf f) ↔
      ∀ tx ∈ cd.txsOf f, ∃ bytes, tx.data.encode = .ok bytes := by
  change List.Forall₂ _ ((cd.txsOf f).filterMap _) (cd.txsOf f) ↔ _
  generalize cd.txsOf f = txs
  constructor
  · intro each tx mem
    obtain ⟨e, _, _, encoded⟩ := forall₂_right each mem
    exact ⟨e.dataBytes, encoded⟩
  · intro encodes
    induction txs with
    | nil => exact .nil
    | cons tx txs ih =>
      obtain ⟨bytes, encoded⟩ := encodes tx List.mem_cons_self
      rw [List.filterMap_cons, encoded]
      exact .cons ⟨rfl, encoded⟩ (ih fun tx mem => encodes tx (List.mem_cons_of_mem _ mem))

theorem toCacheResult_whole_iff (loops : MapLoops) (cd : ConjIndexingData) :
    cd.CapturedBy (cd.toCacheResult loops) ↔ ∀ tx ∈ cd.fieldData, ∃ bytes, tx.data.encode = .ok bytes := by
  have each : cd.CapturedBy (cd.toCacheResult loops) ↔ ∀ f, ∀ tx ∈ cd.txsOf f, ∃ bytes, tx.data.encode = .ok bytes := by
    simp only [CapturedBy, toCacheResult_entriesOf, capturedEntries_iff]
    exact ⟨fun h => h.2.2, fun h => ⟨rfl, rfl, h⟩⟩
  rw [each]
  constructor
  · intro encodes tx mem
    exact encodes tx.field.field tx (List.mem_filter.mpr ⟨mem, by simp⟩)
  · intro encodes f tx mem
    exact encodes tx (List.mem_filter.mp mem).1

end ConjIndexingData

namespace IndexerBuilder

variable [FloatOps] [Codec]

/-- On a miss the entry that is stored has a pair for every expression of every conjunction that was
prepared and committed, exactly if each of them can be encoded. -/
theorem buildDocEntries_stores_whole_iff {loops : MapLoops} {b b₁ b' : IndexerBuilder} {doc : Document}
    {found : List (Option ConjIndexingData)} {cache : DocLevelCache} (miss : b.cachedEntry doc = none)
    (versioned : doc.version > 0)
    (prepared : mapCalls (prepareConj loops doc.id) b doc.cons.zipIdx = .ok (b₁, .ok found))
    (some : found.reduceOption ≠ []) (built : b.buildDocEntries loops doc = .ok (b', .ok ()))
    (stored : b'.docLevelCache = .some cache) :
    ∃ entry, cache ⟨doc.id, doc.version⟩ = .some entry ∧ entry.docID = doc.id ∧ entry.version = doc.version ∧
      (List.Forall₂ ConjIndexingData.CapturedBy found.reduceOption entry.conjIdxCaches ↔
        ∀ cd ∈ found.reduceOption, ∀ tx ∈ cd.fieldData, ∃ bytes, tx.data.encode = .ok bytes) := by
  obtain ⟨_, _, rest⟩ := bind_eq_ok.mp built
  obtain ⟨_, _, rest⟩ := bind_eq_ok.mp rest
  simp only [miss, buildEntries, prepared, andThen] at rest
  obtain ⟨b₂, _, done⟩ := map_eq_ok.mp rest
  obtain ⟨rfl, _⟩ := Prod.mk.inj done
  rw [saveEntry, if_pos ⟨versioned, some⟩] at stored
  obtain ⟨before, _, rfl⟩ := Option.map_eq_some_iff.mp stored
  refine ⟨_, Function.update_self _ _ _, rfl, rfl, ?_⟩
  simp only [List.forall₂_map_right_iff, List.forall₂_same, ConjIndexingData.toCacheResult_whole_iff]

omit [FloatOps] [Codec] in
theorem buildDocEntries_stores_token :
    letI := FloatOps.noFloats
    letI := Codec.single [str "x"] [0x0A, 1, 0x78] ⟨.eq, false, []⟩ []
    let doc : Document := ⟨1, 1, [⟨AList.singleton (str "a") [⟨true, .strings (some [str "x"]), .eq⟩]⟩]⟩
    ∃ b b' b₁ found cache entry, newIndexerBuilder ⟨.default, .error, some .clear⟩ = .ok b ∧
      mapCalls (prepareConj .id doc.id) b doc.cons.zipIdx = .ok (b₁, .ok found) ∧
      b.buildDocEntries .id doc = .ok (b', .ok ()) ∧ b'.docLevelCache = some cache ∧ cache ⟨1, 1⟩ = some entry ∧
      List.Forall₂ ConjIndexingData.CapturedBy found.reduceOption entry.conjIdxCaches := by
  let _ := FloatOps.noFloats
  let _ := Codec.single [str "x"] [0x0A, 1, 0x78] ⟨.eq, false, []⟩ []
  intro doc
  let encodes (found : List (Option ConjIndexingData)) : Bool :=
    decide (found.reduceOption ≠ []) && found.reduceOption.all fun cd => cd.fieldData.all fun tx => tx.data.encode.isOk
  obtain ⟨b, made, miss, ⟨b₁, found, prepared, fine⟩, b', u, built, stored⟩ : ∃ b,
      newIndexerBuilder ⟨.default, .error, some .clear⟩ = .ok b ∧ b.cachedEntry doc = none ∧
      (∃ b₁ found, mapCalls (prepareConj .id doc.id) b doc.cons.zipIdx = .ok (b₁, .ok found) ∧ encodes found = true) ∧
      ∃ b' u, b.buildDocEntries .id doc = .ok (b', .ok u) ∧ b'.docLevelCache.isSome = true :=
    ⟨_, rfl, by decide +kernel, finished_iff.mp (by decide +kernel), finished_iff.mp (by decide +kernel)⟩
  obtain ⟨cache, stored⟩ := Option.isSome_iff_exists.mp stored
  rw [Bool.and_eq_true, decide_eq_true_eq] at fine
  obtain ⟨entry, isStored, _, _, whole⟩ :=
    buildDocEntries_stores_whole_iff miss (by decide) prepared fine.1 built stored
  refine ⟨b, b', b₁, found, cache, entry, made, prepared, built, stored, isStored, whole.mpr ?_⟩
  intro cd hcd tx htx
  have encoded := List.all_eq_true.mp (List.all_eq_true.mp fine.2 cd hcd) tx htx
  cases data : tx.data.encode with
  | ok bytes => exact ⟨bytes, rfl⟩
  | error fault =>
    rw [data] at encoded
    cases encoded

omit [FloatOps] [Codec] in
/-- A token that is not valid UTF-8 is committed, but the entry that is stored has nothing for it. -/
theorem buildDocEntries_drops_token :
    letI := FloatOps.noFloats
    letI := Codec.single [str "x"] [0x0A, 1, 0x78] ⟨.eq, false, []⟩ []
    let fields : GoMap BEField (List BoolValues) :=
      .insert (str "b") [⟨false, .strings (some [[0xFF]]), .eq⟩]
        (.singleton (str "a") [⟨true, .strings (some [str "x"]), .eq⟩])
    let doc : Document := ⟨1, 1, [⟨fields⟩]⟩
    ∃ b b', newIndexerBuilder ⟨.default, .error, some .clear⟩ = .ok b ∧
      b.buildDocEntries .id doc = .ok (b', .ok ()) ∧
      ((b'.docLevelCache.bind fun cache => cache ⟨1, 1⟩).map fun entry =>
        entry.conjIdxCaches.map fun c => c.entriesOf (str "b")) = some [[]] ∧
      (b'.indexer.container 1).defaultHolder.plEntries ⟨0, [0xFF]⟩ ≠ [] := by
  let _ := FloatOps.noFloats
  let _ := Codec.single [str "x"] [0x0A, 1, 0x78] ⟨.eq, false, []⟩ []
  intro fields doc
  obtain ⟨b, made, b', u, built, dropped⟩ : ∃ b, newIndexerBuilder ⟨.default, .error, some .clear⟩ = .ok b ∧
      ∃ b' u, b.buildDocEntries .id doc = .ok (b', .ok u) ∧
        decide ((((b'.docLevelCache.bind fun cache => cache ⟨1, 1⟩).map fun entry =>
          entry.conjIdxCaches.map fun c => c.entriesOf (str "b")) = some [[]]) ∧
          (b'.indexer.container 1).defaultHolder.plEntries ⟨0, [0xFF]⟩ ≠ []) = true :=
    ⟨_, rfl, finished_iff.mp (by decide +kernel)⟩
  exact ⟨b, b', made, built, of_decide_eq_true dropped⟩

end IndexerBuilder

end BeIndexer
