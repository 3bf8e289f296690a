import BeIndexer.Lib.Words
import BeIndexer.Refinement.Frame

/-!
# The schema hash and the cache

The hash is taken over the names of fields and containers, joined in the order in which a map is
visited; and every `ConfigField` clears the cache. So the hash does not tell schemas apart, nor does
it recognise one, and a builder that configures any field finds an empty cache.
-/

namespace BeIndexer

open Calls Word
open IndexerBuilder (exprList)

/-! ### What the hash is taken over -/

def FieldDesc.word (desc : FieldDesc) : Bytes := desc.field ++ desc.container

/-- An order that visits the entries as listed in `l`. -/
noncomputable def MapOrder.as {α : Type} {l entries : List α} (perm : l.Perm entries) : MapOrder α :=
  open Classical in
  ⟨fun es => if es = entries then l else es, fun es => by
    split
    · rename_i same
      exact same ▸ perm
    · exact .refl _⟩

theorem MapOrder.as_visit {α : Type} {l entries : List α} (perm : l.Perm entries) :
    (MapOrder.as perm).visit entries = l :=
  if_pos rfl

namespace FieldTable

/-- The fields and their containers, whatever the ids. -/
def SameSchema (t₁ t₂ : FieldTable) : Prop :=
  ∀ field, (t₁.find field).map FieldDesc.container = (t₂.find field).map FieldDesc.container

def words (t : FieldTable) : List Bytes := t.descs.map FieldDesc.word

/-- What the field map holds. -/
def pairs (t : FieldTable) : List (BEField × GoString) := t.descs.map fun desc => (desc.field, desc.container)

theorem pairs_nodup (t : FieldTable) : t.pairs.Nodup := by
  have fields : (t.pairs.map Prod.fst).Nodup := by
    rw [pairs, List.map_map]
    exact t.distinct
  exact fields.of_map

theorem mem_pairs {t : FieldTable} {field : BEField} {container : GoString} :
    (field, container) ∈ t.pairs ↔ (t.find field).map FieldDesc.container = some container := by
  rw [Option.map_eq_some_iff]
  constructor
  · intro mem
    obtain ⟨desc, listed, same⟩ := List.mem_map.mp mem
    obtain ⟨rfl, rfl⟩ := Prod.mk.inj same
    cases found : t.find desc.field with
    | none => exact absurd (List.mem_map_of_mem listed) (find_eq_none.mp found)
    | some desc' =>
      obtain ⟨listed', field⟩ := find_mem found
      rw [List.inj_on_of_nodup_map t.distinct listed' listed field]
      exact ⟨_, rfl, rfl⟩
  · rintro ⟨desc, found, rfl⟩
    obtain ⟨listed, rfl⟩ := find_mem found
    exact List.mem_map.mpr ⟨desc, listed, rfl⟩

theorem sameSchema_perm {t₁ t₂ : FieldTable} (same : t₁.SameSchema t₂) : t₁.words.Perm t₂.words := by
  have perm : t₁.pairs.Perm t₂.pairs := by
    refine (List.perm_ext_iff_of_nodup t₁.pairs_nodup t₂.pairs_nodup).mpr ?_
    rintro ⟨field, container⟩
    rw [mem_pairs, mem_pairs, same field]
  have spelled : ∀ t : FieldTable, t.words = t.pairs.map fun p => p.1 ++ p.2 := by
    intro t
    rw [pairs, List.map_map]
    rfl
  rw [spelled t₁, spelled t₂]
  exact perm.map _

theorem exists_visit {t : FieldTable} {l : List Bytes} (perm : l.Perm t.words) :
    ∃ order : MapOrder FieldDesc, schemaBytes (order.visit t.descs) = l.flatten := by
  have arranged : Relation.Comp (· = List.map FieldDesc.word ·) List.Perm l t.descs := by
    rw [List.eq_map_comp_perm]
    exact perm
  obtain ⟨descs, rfl, arranged⟩ := arranged
  exact ⟨MapOrder.as arranged, by rw [MapOrder.as_visit]; rfl⟩

theorem visit_words (order : MapOrder FieldDesc) (t : FieldTable) :
    ∃ l : List Bytes, l.Perm t.words ∧ schemaBytes (order.visit t.descs) = l.flatten :=
  ⟨_, (order.perm t.descs).map _, rfl⟩

/-- Words of which none begins another are joined to the same bytes, in some order, only if they are the
same words. -/
theorem exists_join_iff {t₁ t₂ : FieldTable} (code : PrefixCode (t₁.words ++ t₂.words)) :
    (∃ l₁ l₂ : List Bytes, l₁.Perm t₁.words ∧ l₂.Perm t₂.words ∧ l₁.flatten = l₂.flatten) ↔
      t₁.words.Perm t₂.words := by
  constructor
  · rintro ⟨l₁, l₂, perm₁, perm₂, joined⟩
    obtain rfl := code.flatten_inj (fun w mem => List.mem_append_left _ (perm₁.mem_iff.mp mem))
      (fun w mem => List.mem_append_right _ (perm₂.mem_iff.mp mem)) joined
    exact perm₁.symm.trans perm₂
  · intro perm
    exact ⟨t₁.words, t₁.words, .refl _, perm, rfl⟩

/-- For one schema the bytes are the same in every order exactly if its words commute. Two schemas of
whose words none begins another are told apart in every order exactly if the words differ. -/
theorem schemaBytes_identify_iff (t₁ t₂ : FieldTable)
    (code : ¬ t₁.SameSchema t₂ → PrefixCode (t₁.words ++ t₂.words)) :
    (∀ order₁ order₂ : MapOrder FieldDesc,
      schemaBytes (order₁.visit t₁.descs) = schemaBytes (order₂.visit t₂.descs) ↔ t₁.SameSchema t₂) ↔
    (t₁.SameSchema t₂ → t₁.words.Pairwise Commutes) ∧
      (¬ t₁.SameSchema t₂ → ¬ t₁.words.Perm t₂.words) := by
  constructor
  · intro identify
    refine ⟨fun same => flatten_perm_iff.mp fun l perm => ?_, fun differ perm => ?_⟩
    · obtain ⟨order₁, spelled₁⟩ := exists_visit perm
      obtain ⟨order, spelled⟩ := exists_visit (.refl t₁.words)
      obtain ⟨order₂, spelled₂⟩ := exists_visit (sameSchema_perm same)
      rw [← spelled₁, ← spelled]
      exact ((identify order₁ order₂).mpr same).trans ((identify order order₂).mpr same).symm
    · obtain ⟨l₁, l₂, perm₁, perm₂, joined⟩ := (exists_join_iff (code differ)).mpr perm
      obtain ⟨order₁, spelled₁⟩ := exists_visit perm₁
      obtain ⟨order₂, spelled₂⟩ := exists_visit perm₂
      exact differ ((identify order₁ order₂).mp (by rw [spelled₁, spelled₂, joined]))
  · rintro ⟨commute, apart⟩ order₁ order₂
    obtain ⟨l₁, perm₁, spelled₁⟩ := visit_words order₁ t₁
    obtain ⟨l₂, perm₂, spelled₂⟩ := visit_words order₂ t₂
    rw [spelled₁, spelled₂]
    constructor
    · intro joined
      by_contra differ
      exact apart differ ((exists_join_iff (code differ)).mp ⟨l₁, l₂, perm₁, perm₂, joined⟩)
    · intro same
      have joins := flatten_perm_iff.mpr (commute same)
      rw [joins l₁ perm₁, joins l₂ (perm₂.trans (sameSchema_perm same).symm)]

/-- Two fields, one of them in another container: no order of the visits gives the same bytes. -/
theorem schemaBytes_identify_moved :
    ∃ b₀ b₁ b₂ b₃, newIndexerBuilder ⟨.default, .error, none⟩ = .ok b₀ ∧
      b₀.configField .id (str "age") HolderNameDefault = .ok b₁ ∧
      b₁.configField .id (str "city") HolderNameDefault = .ok b₂ ∧
      b₁.configField .id (str "city") HolderNameExtendRange = .ok b₃ ∧
      ∀ order₁ order₂ : MapOrder FieldDesc,
        schemaBytes (order₁.visit b₂.fieldsData.descs) ≠ schemaBytes (order₂.visit b₃.fieldsData.descs) := by
  obtain ⟨b₀, b₁, b₂, b₃, made, age, city, moved, differ, code, words⟩ : ∃ b₀ b₁ b₂ b₃,
      newIndexerBuilder ⟨.default, .error, none⟩ = .ok b₀ ∧
      b₀.configField .id (str "age") HolderNameDefault = .ok b₁ ∧
      b₁.configField .id (str "city") HolderNameDefault = .ok b₂ ∧
      b₁.configField .id (str "city") HolderNameExtendRange = .ok b₃ ∧
      ¬ b₂.fieldsData.SameSchema b₃.fieldsData ∧ PrefixCode (b₂.fieldsData.words ++ b₃.fieldsData.words) ∧
      ¬ b₂.fieldsData.words.Perm b₃.fieldsData.words :=
    ⟨_, _, _, _, rfl, rfl, rfl, rfl, fun same => absurd (same (str "city")) (by decide +kernel), by decide +kernel,
      by decide +kernel⟩
  refine ⟨b₀, b₁, b₂, b₃, made, age, city, moved, fun order₁ order₂ equal => differ ?_⟩
  exact ((schemaBytes_identify_iff _ _ fun _ => code).mpr ⟨fun same => absurd same differ, fun _ => words⟩
    order₁ order₂).mp equal

/-- The order of the visit shows in the bytes of one schema; and a field `a` in a container `bc` gives
the bytes of a field `ab` in a container `c`. -/
theorem schemaBytes_confuse :
    (∃ b₀ b₁ b₂, newIndexerBuilder ⟨.default, .error, none⟩ = .ok b₀ ∧
      b₀.configField .id (str "a") HolderNameDefault = .ok b₁ ∧
      b₁.configField .id (str "b") HolderNameDefault = .ok b₂ ∧
      schemaBytes (MapOrder.id.visit b₂.fieldsData.descs) ≠
        schemaBytes ((⟨List.reverse, List.reverse_perm⟩ : MapOrder FieldDesc).visit b₂.fieldsData.descs)) ∧
    ∃ b₀ b₁ b₂, newIndexerBuilder ⟨.default, .error, none⟩ = .ok b₀ ∧
      b₀.configField .id (str "a") (str "bc") = .ok b₁ ∧ b₀.configField .id (str "ab") (str "c") = .ok b₂ ∧
      schemaBytes (MapOrder.id.visit b₁.fieldsData.descs) = schemaBytes (MapOrder.id.visit b₂.fieldsData.descs) ∧
      ¬ b₁.fieldsData.SameSchema b₂.fieldsData :=
  ⟨⟨_, _, _, rfl, rfl, rfl, by decide +kernel⟩,
    ⟨_, _, _, rfl, rfl, rfl, by decide +kernel, fun same => absurd (same (str "a")) (by decide +kernel)⟩⟩

end FieldTable

/-! ### What a builder finds in the cache -/

namespace IndexerBuilder

/-- The fields, their hash and the cache are left alone. -/
structure Keeps (b b' : IndexerBuilder) : Prop where
  fieldsData : b'.fieldsData = b.fieldsData
  schemaHash : b'.schemaHash = b.schemaHash
  docLevelCache : b'.docLevelCache = b.docLevelCache

theorem frame_keeps : Frame Keeps where
  refl _ := ⟨rfl, rfl, rfl⟩
  trans _ _ _ first second := ⟨second.1.trans first.1, second.2.trans first.2, second.3.trans first.3⟩
  indexer _ _ := ⟨rfl, rfl, rfl⟩

variable {b b' : IndexerBuilder}

theorem Keeps.cachedEntry (keeps : Keeps b b') (doc : Document) : b'.cachedEntry doc = b.cachedEntry doc := by
  unfold IndexerBuilder.cachedEntry
  rw [keeps.docLevelCache, keeps.schemaHash]

/-- Every expression of the document is on one of the fields. -/
def UsesOnly (fields : List BEField) (doc : Document) : Prop :=
  ∀ conj ∈ doc.cons, ∀ expr ∈ exprList conj, expr.1 ∈ fields

theorem createFieldData_keeps {loops : MapLoops} {fields : List BEField} {f : BEField} {b₁ b₂ : IndexerBuilder}
    {desc : FieldDesc} (configured : ∀ f ∈ fields, b.fieldsData.find f ≠ none) (mem : f ∈ fields) (since : Keeps b b₁)
    (run : b₁.createFieldData loops f = .ok (b₂, desc)) : Keeps b₁ b₂ := by
  have found := configured f mem
  rw [← since.fieldsData] at found
  unfold createFieldData at run
  split at run
  · obtain ⟨rfl, _⟩ := Prod.mk.inj (Except.ok.inj run)
    exact frame_keeps.refl _
  · rename_i missing
    exact absurd missing found

section AddOne

variable [FloatOps] [Codec] {loops : MapLoops} {fields : List BEField} {doc : Document} {r : Except GoError Unit}

/-- A document on configured fields touches the cache only to store its own entry. -/
theorem addOne_saves (configured : ∀ f ∈ fields, b.fieldsData.find f ≠ none) (only : UsesOnly fields doc)
    (run : addOne loops b doc = .ok (b', r)) :
    (Keeps b b' ∧ (r = .ok () → b.cachedEntry doc ≠ none)) ∨
      ∃ b₁ b₂ prepared, validDocument doc = .ok () ∧
        mapCalls (prepareConj loops doc.id) b doc.cons.zipIdx = .ok (b₁, .ok prepared) ∧ Keeps b b₂ ∧
        b' = b₂.saveEntry loops doc b.schemaHash prepared.reduceOption := by
  refine frame_keeps.addOne (fun conj hconj expr hexpr b₁ since b₂ desc created => ?_) run
  exact createFieldData_keeps configured (only conj hconj expr hexpr) since created

omit [FloatOps] in
theorem saveEntry_frame (loops : MapLoops) (b : IndexerBuilder) (doc : Document) (hash : UInt64)
    (cds : List ConjIndexingData) :
    (b.saveEntry loops doc hash cds).fieldsData = b.fieldsData ∧
      (b.saveEntry loops doc hash cds).schemaHash = b.schemaHash ∧
      (b.saveEntry loops doc hash cds).docLevelCache.isSome = b.docLevelCache.isSome := by
  unfold saveEntry
  dsimp only
  split
  · exact ⟨rfl, rfl, Option.isSome_map⟩
  · exact ⟨rfl, rfl, rfl⟩

omit [FloatOps] in
theorem saveEntry_other {hash : UInt64} {cds : List ConjIndexingData} {d : Document}
    (other : (⟨d.id, d.version⟩ : DocCacheKey) ≠ ⟨doc.id, doc.version⟩) :
    (b.saveEntry loops doc hash cds).cachedEntry d = b.cachedEntry d := by
  unfold saveEntry
  dsimp only
  split
  · unfold cachedEntry
    cases b.docLevelCache with
    | none => rfl
    | some cache => simp only [Option.map_some, DocLevelCache.set, Function.update_of_ne other]
  · rfl

omit [FloatOps] in
theorem saveEntry_same {hash : UInt64} {cds : List ConjIndexingData} {d : Document}
    (same : (⟨d.id, d.version⟩ : DocCacheKey) = ⟨doc.id, doc.version⟩) (own : hash = b.schemaHash)
    (versioned : doc.version > 0) (some : cds ≠ []) (cached : b.docLevelCache.isSome = true) :
    (b.saveEntry loops doc hash cds).cachedEntry d ≠ none := by
  obtain ⟨cache, isSome⟩ := Option.isSome_iff_exists.mp cached
  obtain ⟨id, version⟩ := DocCacheKey.mk.inj same
  rw [saveEntry, if_pos ⟨versioned, some⟩]
  simp [cachedEntry, isSome, DocLevelCache.set, id, version, versioned, own]

/-- Documents that were found stay found. -/
structure Gains (b b' : IndexerBuilder) : Prop where
  fieldsData : b'.fieldsData = b.fieldsData
  schemaHash : b'.schemaHash = b.schemaHash
  cached : b'.docLevelCache.isSome = b.docLevelCache.isSome
  hits : ∀ d, b.cachedEntry d ≠ none → b'.cachedEntry d ≠ none

omit [FloatOps] [Codec] in
theorem gains_refl (b : IndexerBuilder) : Gains b b := ⟨rfl, rfl, rfl, fun _ hit => hit⟩

omit [FloatOps] [Codec] in
theorem gains_trans (a b c : IndexerBuilder) (first : Gains a b) (second : Gains b c) : Gains a c :=
  ⟨second.1.trans first.1, second.2.trans first.2, second.3.trans first.3, fun d hit => second.4 d (first.4 d hit)⟩

omit [FloatOps] in
theorem saveEntry_gains (loops : MapLoops) (b : IndexerBuilder) (doc : Document) (cds : List ConjIndexingData) :
    Gains b (b.saveEntry loops doc b.schemaHash cds) := by
  obtain ⟨fieldsData, schemaHash, cached⟩ := saveEntry_frame loops b doc b.schemaHash cds
  refine ⟨fieldsData, schemaHash, cached, fun d hit => ?_⟩
  by_cases same : (⟨d.id, d.version⟩ : DocCacheKey) = ⟨doc.id, doc.version⟩
  · by_cases stored : doc.version > 0 ∧ cds ≠ []
    · refine saveEntry_same same rfl stored.1 stored.2 ?_
      by_contra none
      rw [Bool.not_eq_true, Option.isSome_eq_false_iff, Option.isNone_iff_eq_none] at none
      exact hit (by rw [cachedEntry, none])
    · rw [saveEntry, if_neg stored]
      exact hit
  · rw [saveEntry_other same]
    exact hit

/-- Adding a document on configured fields loses no document from the cache. -/
theorem addOne_gains (configured : ∀ f ∈ fields, b.fieldsData.find f ≠ none) (only : UsesOnly fields doc)
    (run : addOne loops b doc = .ok (b', r)) : Gains b b' := by
  rcases addOne_saves configured only run with ⟨keeps, _⟩ | ⟨b₁, b₂, prepared, _, _, keeps, rfl⟩
  · exact ⟨keeps.1, keeps.2, by rw [keeps.3], fun d hit => by rwa [keeps.cachedEntry d]⟩
  · have saved := saveEntry_gains loops b₂ doc prepared.reduceOption
    rw [keeps.schemaHash] at saved
    exact gains_trans _ _ _ ⟨keeps.1, keeps.2, by rw [keeps.3], fun d hit => by rwa [keeps.cachedEntry d]⟩ saved

theorem addOne_other {d : Document} (configured : ∀ f ∈ fields, b.fieldsData.find f ≠ none) (only : UsesOnly fields doc)
    (other : (⟨d.id, d.version⟩ : DocCacheKey) ≠ ⟨doc.id, doc.version⟩) (run : addOne loops b doc = .ok (b', r)) :
    b'.cachedEntry d = b.cachedEntry d := by
  rcases addOne_saves configured only run with ⟨keeps, _⟩ | ⟨b₁, b₂, prepared, _, _, keeps, rfl⟩
  · exact keeps.cachedEntry d
  · rw [saveEntry_other other, keeps.cachedEntry d]

omit [Codec] in
theorem prepareConj_plain {conj : Conjunction × Nat} {docID : DocID} {res : Except GoError (Option ConjIndexingData)}
    (plain : exprList conj.1 = []) (run : prepareConj loops docID b conj = .ok (b', res)) :
    ∃ cd, res = .ok (some cd) := by
  obtain ⟨conjID, _, rest⟩ := bind_eq_ok.mp run
  rw [indexingConjunction, plain] at rest
  obtain ⟨_, rfl⟩ := Prod.mk.inj (Except.ok.inj rest)
  exact ⟨_, rfl⟩

theorem addOne_hit (plain : UsesOnly [] doc) (versioned : doc.version > 0) (cached : b.docLevelCache.isSome = true)
    (run : addOne loops b doc = .ok (b', .ok ())) : b'.cachedEntry doc ≠ none := by
  rcases addOne_saves (by simp) plain run with ⟨keeps, hit⟩ | ⟨b₁, b₂, prepared, valid, run₁, keeps, rfl⟩
  · rw [keeps.cachedEntry doc]
    exact hit rfl
  · refine saveEntry_same rfl keeps.schemaHash.symm versioned ?_ (keeps.docLevelCache ▸ cached)
    obtain ⟨conj, rest, conjs⟩ : ∃ conj rest, doc.cons.zipIdx = conj :: rest := by
      rw [← List.ne_nil_iff_exists_cons]
      intro none
      have empty : doc.cons = [] := by simpa using none
      rw [validDocument, empty] at valid
      cases valid
    rw [conjs, mapCalls] at run₁
    obtain ⟨b₃, first, run₂, run₃⟩ := andThen_eq_ok.mp run₁
    obtain ⟨b₄, others, _, done⟩ := andThen_eq_ok.mp run₃
    obtain ⟨_, same⟩ := Prod.mk.inj (Except.ok.inj done)
    obtain rfl := Except.ok.inj same
    have listed : conj ∈ doc.cons.zipIdx := conjs ▸ List.mem_cons_self
    have none : exprList conj.1 = [] := by
      refine List.eq_nil_iff_forall_not_mem.mpr fun expr mem => ?_
      simpa using plain conj.1 (List.fst_mem_of_mem_zipIdx listed) expr mem
    obtain ⟨cd, isSome⟩ := prepareConj_plain none run₂
    obtain rfl := Except.ok.inj isSome
    simp [List.reduceOption_cons_of_some]

/-! #### Several documents -/

variable {docs : List Document}

theorem addDocument_done (run : b.addDocument loops docs = .ok (b', .ok ())) :
    ∃ done, mapCalls (addOne loops) b docs = .ok (b', .ok done) := by
  obtain ⟨b₁, done, run₁, same⟩ := andThen_eq_ok.mp run
  obtain ⟨rfl, _⟩ := Prod.mk.inj (Except.ok.inj same)
  exact ⟨done, run₁⟩

theorem addDocs_other {d : Document} {done : List Unit} (configured : ∀ f ∈ fields, b.fieldsData.find f ≠ none)
    (only : ∀ doc ∈ docs, UsesOnly fields doc)
    (other : ∀ doc ∈ docs, (⟨d.id, d.version⟩ : DocCacheKey) ≠ ⟨doc.id, doc.version⟩)
    (run : mapCalls (addOne loops) b docs = .ok (b', .ok done)) : b'.cachedEntry d = b.cachedEntry d := by
  let Later (b b' : IndexerBuilder) : Prop := b'.fieldsData = b.fieldsData ∧ b'.cachedEntry d = b.cachedEntry d
  have moves : Moves Later b (mapCalls (addOne loops) b docs) := by
    refine Moves.mapCalls (fun _ => ⟨rfl, rfl⟩)
      (fun _ _ _ first second => ⟨second.1.trans first.1, second.2.trans first.2⟩)
      fun doc mem b₁ since b₂ r run₁ => ?_
    have configured₁ : ∀ f ∈ fields, b₁.fieldsData.find f ≠ none := since.1 ▸ configured
    exact ⟨(addOne_gains configured₁ (only doc mem) run₁).fieldsData,
      addOne_other configured₁ (only doc mem) (other doc mem) run₁⟩
  exact (moves _ _ run).2

theorem addDocs_hit {done : List Unit} (plain : ∀ doc ∈ docs, UsesOnly [] doc)
    (versioned : ∀ doc ∈ docs, doc.version > 0)
    (cached : b.docLevelCache.isSome = true) (run : mapCalls (addOne loops) b docs = .ok (b', .ok done)) :
    Gains b b' ∧ ∀ doc ∈ docs, b'.cachedEntry doc ≠ none := by
  induction docs generalizing b done with
  | nil =>
    obtain ⟨rfl, _⟩ := Prod.mk.inj (Except.ok.inj run)
    exact ⟨gains_refl _, by simp⟩
  | cons doc docs ih =>
    obtain ⟨b₁, u, us, first, others, _⟩ := mapCalls_cons_ok.mp run
    have here := addOne_gains (by simp) (plain doc List.mem_cons_self) first
    obtain ⟨gains, hits⟩ := ih (fun d mem => plain d (List.mem_cons_of_mem _ mem))
      (fun d mem => versioned d (List.mem_cons_of_mem _ mem)) (here.cached.trans cached) others
    refine ⟨gains_trans _ _ _ here gains, List.forall_mem_cons.mpr ⟨gains.hits doc ?_, hits⟩⟩
    exact addOne_hit (plain doc List.mem_cons_self) (versioned doc List.mem_cons_self) cached first

end AddOne

/-! #### Configuring fields -/

/-- A list of `ConfigField` calls, each with its own orders of the map loops. -/
def configFields (b : IndexerBuilder) (calls : List (MapLoops × BEField × GoString)) : Go IndexerBuilder :=
  calls.foldlM (fun b call => b.configField call.1 call.2.1 call.2.2) b

theorem configField_spec {loops : MapLoops} {f : BEField} {container : GoString}
    (run : b.configField loops f container = .ok b') :
    b'.docLevelCache = b.docLevelCache.map (fun _ => DocLevelCache.clear) ∧
      ∀ g, b'.fieldsData.find g ≠ none ↔ g = f ∨ b.fieldsData.find g ≠ none := by
  obtain ⟨fresh, hash, rfl⟩ := configField_cases run
  refine ⟨rfl, fun g => ?_⟩
  simp only [FieldTable.find_add]
  by_cases same : g = f <;> simp [same]

theorem configFields_configured {calls : List (MapLoops × BEField × GoString)} (run : b.configFields calls = .ok b') :
    ∀ g, b'.fieldsData.find g ≠ none ↔ g ∈ calls.map (fun call => call.2.1) ∨ b.fieldsData.find g ≠ none := by
  induction calls generalizing b with
  | nil =>
    obtain rfl := Except.ok.inj run
    simp
  | cons call calls ih =>
    rw [configFields, List.foldlM_cons] at run
    obtain ⟨b₁, first, rest⟩ := bind_eq_ok.mp run
    intro g
    rw [ih rest, (configField_spec first).2 g, List.map_cons, List.mem_cons, or_left_comm, or_assoc]

theorem configFields_clears {calls : List (MapLoops × BEField × GoString)} (some : calls ≠ [])
    (run : b.configFields calls = .ok b') : ∀ doc, b'.cachedEntry doc = none := by
  have cleared : b'.docLevelCache = b.docLevelCache.map (fun _ => DocLevelCache.clear) := by
    induction calls generalizing b with
    | nil => exact absurd rfl some
    | cons call calls ih =>
      rw [configFields, List.foldlM_cons] at run
      obtain ⟨b₁, first, rest⟩ := bind_eq_ok.mp run
      have here := (configField_spec first).1
      cases calls with
      | nil =>
        obtain rfl := Except.ok.inj rest
        exact here
      | cons _ _ =>
        rw [ih (by simp) rest, here, Option.map_map]
        rfl
  intro doc
  unfold cachedEntry
  rw [cleared]
  cases b.docLevelCache with
  | none => rfl
  | some cache =>
    simp only [Option.map_some, DocLevelCache.clear]
    split <;> rfl

theorem cachedEntry_congr {d doc : Document} (id : d.id = doc.id) (version : d.version = doc.version) :
    b.cachedEntry d = b.cachedEntry doc := by
  unfold cachedEntry
  rw [id, version]

theorem new_spec {option : BuilderOption} (made : newIndexerBuilder option = .ok b) :
    b.docLevelCache = option.docLevelCache ∧ b.schemaHash = 0 := by
  obtain ⟨indexer, _, done⟩ := bind_eq_ok.mp made
  obtain rfl := Except.ok.inj done
  exact ⟨rfl, rfl⟩

section Reuse

variable [FloatOps] [Codec]

/-- A document that one builder has added is found by a later builder with the same fields, which has
not added it yet, exactly if there are no fields. -/
theorem unchanged_found_iff {cache cache' : DocLevelCache} {type₁ type₂ : IndexerType}
    {behavior₁ behavior₂ : BadConjBehavior} {calls₁ calls₂ : List (MapLoops × BEField × GoString)}
    {loops₁ loops₂ : MapLoops} {docs before : List Document} {doc : Document} {b₁ b₁' b₁'' b₂ b₂' b₂'' : IndexerBuilder}
    (made₁ : newIndexerBuilder ⟨type₁, behavior₁, some cache⟩ = .ok b₁) (configured₁ : b₁.configFields calls₁ = .ok b₁')
    (only : ∀ d ∈ docs, UsesOnly (calls₁.map fun call => call.2.1) d) (versioned : ∀ d ∈ docs, d.version > 0)
    (added₁ : b₁'.addDocument loops₁ docs = .ok (b₁'', .ok ())) (shared : b₁''.docLevelCache = some cache')
    (made₂ : newIndexerBuilder ⟨type₂, behavior₂, some cache'⟩ = .ok b₂)
    (schema : calls₂.map Prod.snd = calls₁.map Prod.snd) (configured₂ : b₂.configFields calls₂ = .ok b₂')
    (only' : ∀ d ∈ before, UsesOnly (calls₁.map fun call => call.2.1) d)
    (others : ∀ d ∈ before, (⟨doc.id, doc.version⟩ : DocCacheKey) ≠ ⟨d.id, d.version⟩)
    (added₂ : b₂'.addDocument loops₂ before = .ok (b₂'', .ok ()))
    (unchanged : ∃ d ∈ docs, d.id = doc.id ∧ d.version = doc.version) :
    (∃ entry, b₂''.cachedEntry doc = some entry) ↔ calls₁ = [] := by
  have fields : (calls₂.map fun call => call.2.1) = calls₁.map fun call => call.2.1 := by
    have mapped := congrArg (List.map Prod.fst) schema
    simpa only [List.map_map, Function.comp_def] using mapped
  obtain ⟨done₂, run₂⟩ := addDocument_done added₂
  have configured : ∀ f ∈ calls₁.map fun call => call.2.1, b₂'.fieldsData.find f ≠ none :=
    fun f mem => (configFields_configured configured₂ f).mpr (Or.inl (fields ▸ mem))
  rw [← Option.ne_none_iff_exists', addDocs_other configured only' others run₂]
  constructor
  · intro hit
    by_contra some
    refine hit (configFields_clears (fun none => some ?_) configured₂ doc)
    rw [none] at schema
    exact List.map_eq_nil_iff.mp schema.symm
  · rintro rfl
    obtain rfl := List.map_eq_nil_iff.mp schema
    obtain rfl := Except.ok.inj configured₁
    obtain rfl := Except.ok.inj configured₂
    obtain ⟨done₁, run₁⟩ := addDocument_done added₁
    obtain ⟨cached₁, hash₁⟩ := new_spec made₁
    obtain ⟨cached₂, hash₂⟩ := new_spec made₂
    obtain ⟨gains, hits⟩ := addDocs_hit only versioned (by rw [cached₁]; rfl) run₁
    obtain ⟨d, mem, id, version⟩ := unchanged
    have keeps : b₂.cachedEntry d = b₁''.cachedEntry d := by
      unfold cachedEntry
      rw [cached₂, shared, hash₂, gains.schemaHash, hash₁]
    rw [← cachedEntry_congr id version, keeps]
    exact hits d mem

omit [FloatOps] [Codec] in
/-- A document that matches everything, added by two builders without fields. -/
theorem unchanged_found_without_fields :
    letI := FloatOps.noFloats
    letI := Codec.single [str "x"] [0x0A, 1, 0x78] ⟨.eq, false, []⟩ []
    let doc : Document := ⟨1, 1, [⟨∅⟩]⟩
    ∃ b₁ b₁' cache' b₂ entry, newIndexerBuilder ⟨.default, .error, some .clear⟩ = .ok b₁ ∧
      b₁.addDocument .id [doc] = .ok (b₁', .ok ()) ∧ b₁'.docLevelCache = some cache' ∧
      newIndexerBuilder ⟨.default, .error, some cache'⟩ = .ok b₂ ∧ b₂.cachedEntry doc = some entry := by
  let _ := FloatOps.noFloats
  let _ := Codec.single [str "x"] [0x0A, 1, 0x78] ⟨.eq, false, []⟩ []
  intro doc
  obtain ⟨b₁, made₁, b₁', u, added, isSome⟩ : ∃ b₁, newIndexerBuilder ⟨.default, .error, some .clear⟩ = .ok b₁ ∧
      ∃ b₁' u, b₁.addDocument .id [doc] = .ok (b₁', .ok u) ∧ b₁'.docLevelCache.isSome = true :=
    ⟨_, rfl, finished_iff.mp (by decide +kernel)⟩
  obtain ⟨cache', shared⟩ := Option.isSome_iff_exists.mp isSome
  obtain ⟨b₂, made₂⟩ : ∃ b₂, newIndexerBuilder ⟨.default, .error, some cache'⟩ = .ok b₂ := ⟨_, rfl⟩
  have only : ∀ d ∈ [doc], UsesOnly [] d := by
    intro d mem conj hconj expr hexpr
    obtain rfl := List.mem_singleton.mp mem
    obtain rfl := List.mem_singleton.mp hconj
    cases hexpr
  have versioned : ∀ d ∈ [doc], d.version > 0 := by decide
  have configured₁ : b₁.configFields [] = .ok b₁ := rfl
  have configured₂ : b₂.configFields [] = .ok b₂ := rfl
  have nothing : b₂.addDocument .id [] = .ok (b₂, .ok ()) := rfl
  obtain ⟨entry, hit⟩ := (unchanged_found_iff made₁ configured₁ only versioned added shared made₂ rfl configured₂
    (fun _ mem => absurd mem List.not_mem_nil) (fun _ mem => absurd mem List.not_mem_nil) nothing
    ⟨doc, List.mem_singleton_self _, rfl, rfl⟩).mpr rfl
  exact ⟨b₁, b₁', cache', b₂, entry, made₁, added, shared, made₂, hit⟩

omit [FloatOps] [Codec] in
/-- With one field the second builder finds nothing, as its own `ConfigField` has cleared the cache. -/
theorem unchanged_lost_with_field :
    letI := FloatOps.noFloats
    letI := Codec.single [str "x"] [0x0A, 1, 0x78] ⟨.eq, false, []⟩ []
    let doc : Document := ⟨1, 1, [⟨AList.singleton (str "age") [⟨true, .strings (some [str "x"]), .eq⟩]⟩]⟩
    ∃ b₁ b₁' b₁'' cache' entry b₂ b₂', newIndexerBuilder ⟨.default, .error, some .clear⟩ = .ok b₁ ∧
      b₁.configField .id (str "age") HolderNameDefault = .ok b₁' ∧ b₁'.addDocument .id [doc] = .ok (b₁'', .ok ()) ∧
      b₁''.docLevelCache = some cache' ∧ cache' ⟨1, 1⟩ = some entry ∧
      newIndexerBuilder ⟨.default, .error, some cache'⟩ = .ok b₂ ∧
      b₂.configField .id (str "age") HolderNameDefault = .ok b₂' ∧ b₂'.cachedEntry doc = none := by
  let _ := FloatOps.noFloats
  let _ := Codec.single [str "x"] [0x0A, 1, 0x78] ⟨.eq, false, []⟩ []
  intro doc
  obtain ⟨b₁, b₁', made₁, configured₁, b₁'', u, added, stored⟩ : ∃ b₁ b₁',
      newIndexerBuilder ⟨.default, .error, some .clear⟩ = .ok b₁ ∧
      b₁.configField .id (str "age") HolderNameDefault = .ok b₁' ∧
      ∃ b₁'' u, b₁'.addDocument .id [doc] = .ok (b₁'', .ok u) ∧
        (b₁''.docLevelCache.bind fun cache => cache ⟨1, 1⟩).isSome = true :=
    ⟨_, _, rfl, rfl, finished_iff.mp (by decide +kernel)⟩
  obtain ⟨entry, found⟩ := Option.isSome_iff_exists.mp stored
  obtain ⟨cache', shared, held⟩ := Option.bind_eq_some_iff.mp found
  obtain ⟨b₂, b₂', made₂, configured₂⟩ : ∃ b₂ b₂', newIndexerBuilder ⟨.default, .error, some cache'⟩ = .ok b₂ ∧
      b₂.configField .id (str "age") HolderNameDefault = .ok b₂' := ⟨_, _, rfl, rfl⟩
  have configured : b₂.configFields [(.id, str "age", HolderNameDefault)] = .ok b₂' :=
    bind_eq_ok.mpr ⟨b₂', configured₂, rfl⟩
  exact ⟨b₁, b₁', b₁'', cache', entry, b₂, b₂', made₁, configured₁, added, shared, held, made₂, configured₂,
    configFields_clears (by simp) configured doc⟩

end Reuse

end IndexerBuilder

end BeIndexer
