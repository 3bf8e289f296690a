import BeIndexer.Atomicity
import BeIndexer.Cache.Roundtrip
import BeIndexer.Refinement.Frame

/-!
# Builders that share a cache

A cache entry is found by document id, version and schema hash. The hash is read before a document's
fields are created, it depends on the order in which a map is visited, and it does not tell how a
builder treats bad conjunctions; so a document that is restored is not always what the builder would
have made of it. It is when the fields of the document are configured as they were when the entry was
stored, and the builder can deal with all of its expressions.
-/

namespace BeIndexer

open Calls
open IndexerBuilder (exprList)

/-! ### Histories -/

/-- A document that was added, and the containers of the builder that added it. -/
structure Addition where
  doc : Document
  schemaHash : UInt64
  containers : BEField → GoString

/-- Some builders with one cache. -/
structure World where
  cache : DocLevelCache
  builders : List IndexerBuilder
  past : List Addition

inductive Action where
  | create (type : IndexerType) (behavior : BadConjBehavior)
  | configField (i : Nat) (loops : MapLoops) (field : BEField) (container : GoString)
  | addDocument (i : Nat) (loops : MapLoops) (doc : Document)
  | buildIndex (i : Nat)
  | reset (i : Nat)

section

variable [FloatOps] [Codec]

/-- `Encode` succeeds on what the expressions of the document are prepared to, and `Decode` undoes it. -/
def Survives (containers : BEField → GoString) (doc : Document) : Prop :=
  ∀ conj ∈ doc.cons, ∀ expr ∈ exprList conj, ∀ data,
    prepareExpr (containers expr.1) expr.1 expr.2 = .ok data → Undone (containers expr.1) data

theorem Survives.quiet {containers : BEField → GoString} {doc : Document} (codec : Survives containers doc) :
    ∀ conj ∈ doc.cons.zipIdx, ∀ expr ∈ exprList conj.1, EntriesHolder.Quiet (containers expr.1) expr.1 expr.2 :=
  fun conj mem expr hexpr => quiet_of_undone (codec conj.1 (List.fst_mem_of_mem_zipIdx mem) expr hexpr)

end

namespace World

def start : World := ⟨.clear, [], []⟩

/-- A builder works on the cache as the others left it. -/
def attach (w : World) (b : IndexerBuilder) : IndexerBuilder := { b with docLevelCache := some w.cache }

section

variable [FloatOps] [Codec] [AhoMachine]

def call (w : World) (i : Nat) (op : Op) : Go World :=
  match w.builders[i]? with
  | none => .ok w
  | some b => do
    let b' ← (w.attach b).step op
    return { w with cache := b'.docLevelCache.getD w.cache, builders := w.builders.set i b' }

def additions (w : World) (i : Nat) (doc : Document) : List Addition :=
  (w.builders[i]?).toList.map fun b => ⟨doc, b.schemaHash, b.containers⟩

def step (w : World) : Action → Go World
  | .create type behavior => do
    let b ← newIndexerBuilder ⟨type, behavior, some w.cache⟩
    return { w with builders := w.builders ++ [b] }
  | .configField i loops field container => w.call i (.configField loops field container)
  | .addDocument i loops doc => do
    let w' ← w.call i (.addDocument loops [doc])
    return { w' with past := w.additions i doc ++ w.past }
  | .buildIndex i => w.call i .buildIndex
  | .reset i => w.call i .reset

/-- Documents with one id and version have the same content, and the data of this one survives the
encoding. -/
structure Sound (w : World) (b : IndexerBuilder) (doc : Document) : Prop where
  content : ∀ a ∈ w.past, a.doc.id = doc.id → a.doc.version = doc.version → a.doc.Same doc
  codec : Survives b.containers doc

/-- A history in which every document is sound. -/
inductive Reached : World → Prop
  | start : Reached start
  | step {w w' : World} {action : Action} (before : Reached w)
      (sound : ∀ i loops doc b, action = .addDocument i loops doc → w.builders[i]? = some b → w.Sound b doc)
      (run : w.step action = .ok w') : Reached w'

end

/-- The document would be restored to what the builder makes of it: its fields are configured, with the
containers they had whenever the document was added under this schema hash, and the builder can deal
with all of its expressions. -/
structure Restores [FloatOps] (w : World) (b : IndexerBuilder) (doc : Document) : Prop where
  configured : ∀ conj ∈ doc.cons, ∀ expr ∈ exprList conj, b.fieldsData.find expr.1 ≠ none
  schema : ∀ a ∈ w.past, a.doc.id = doc.id → a.doc.version = doc.version → a.schemaHash = b.schemaHash →
    ∀ conj ∈ doc.cons, ∀ expr ∈ exprList conj, a.containers expr.1 = b.containers expr.1
  settled : ∀ conj ∈ doc.cons, Settled b.containers b.badConjBehavior conj

end World

/-- Both calls panic, or both return with the same posting lists, and one with an error if the other. -/
def Agree (o o' : Go (IndexerBuilder × Except GoError Unit)) : Prop :=
  match o, o' with
  | .ok (b, r), .ok (b', r') => r.isOk = r'.isOk ∧ b.store = b'.store
  | .error _, .error _ => True
  | _, _ => False

/-! ### What happens to the cache -/

namespace IndexerBuilder

section

variable [FloatOps] [Codec] {b b' : IndexerBuilder}

theorem addDocument_single (loops : MapLoops) (b : IndexerBuilder) (doc : Document) :
    b.addDocument loops [doc] = addOne loops b doc := by
  rw [addDocument, mapCalls]
  rcases addOne loops b doc with fault | ⟨b', e | u⟩ <;> rfl

/-- The entry holds what the document was prepared to when it was added. -/
structure StoredBy (a : Addition) (entry : DocIdxCache) : Prop where
  docID : entry.docID = a.doc.id
  schemaHash : entry.schemaHash = a.schemaHash
  whole : ∃ behavior found, a.doc.cons.zipIdx.mapM (prepareConjTx a.containers behavior a.doc.id) = .ok found ∧
    List.Forall₂ ConjTx.CapturedBy found.reduceOption entry.conjIdxCaches

variable {loops : MapLoops} {doc : Document}

theorem prepared_captured (wf : b.WF) (codec : Survives b.containers doc) {b₁ : IndexerBuilder}
    {prepared : List (Option ConjIndexingData)}
    (run : mapCalls (prepareConj loops doc.id) b doc.cons.zipIdx = .ok (b₁, .ok prepared)) :
    StoredBy ⟨doc, b.schemaHash, b.containers⟩
      ⟨doc.id, doc.version, b.schemaHash, prepared.reduceOption.map (·.toCacheResult loops)⟩ := by
  obtain ⟨found, all, txs, _⟩ := prepareConjs_ok wf.shows codec.quiet run
  refine ⟨rfl, rfl, b.badConjBehavior, found, all, ?_⟩
  rw [txs, List.forall₂_map_left_iff, List.forall₂_map_right_iff, List.forall₂_same]
  intro cd mem
  refine toCacheResult_captured loops fun tx htx => ?_
  have listed : cd.toConjTx ∈ found.reduceOption := txs ▸ List.mem_map.mpr ⟨cd, mem, rfl⟩
  obtain ⟨conj, hconj, made⟩ := mem_mapM all (List.reduceOption_mem_iff.mp listed)
  obtain ⟨expr, hexpr, _, data⟩ := (prepareConjTx_sized made).2.2 tx.toTx (List.mem_map.mpr ⟨tx, htx, rfl⟩)
  obtain ⟨bytes, encoded, _⟩ := codec conj.1 (List.fst_mem_of_mem_zipIdx hconj) expr hexpr _ data
  exact ⟨bytes, encoded⟩

/-- An entry in the cache after a document was added was there before, or holds that document. -/
theorem addOne_stores (wf : b.WF) (codec : Survives b.containers doc) {r : Except GoError Unit}
    (run : addOne loops b doc = .ok (b', r)) {cache' : DocLevelCache} (isSome : b'.docLevelCache = some cache')
    {key : DocCacheKey} {entry : DocIdxCache} (found : cache' key = some entry) :
    (∃ cache, b.docLevelCache = some cache ∧ cache key = some entry) ∨
      key = ⟨doc.id, doc.version⟩ ∧ StoredBy ⟨doc, b.schemaHash, b.containers⟩ entry := by
  rcases addOne_captures run isSome found with old | ⟨here, b₁, prepared, run₁, rfl⟩
  · exact Or.inl old
  · exact Or.inr ⟨here, prepared_captured wf codec run₁⟩

end

end IndexerBuilder

/-! ### What a history leaves in the cache -/

namespace World

variable [FloatOps] [Codec] {w w' : World}

/-- The entry under the key comes from a document that was added. -/
def Recorded (past : List Addition) (key : DocCacheKey) (entry : DocIdxCache) : Prop :=
  ∃ a ∈ past, a.doc.id = key.docID ∧ a.doc.version = key.version ∧ IndexerBuilder.StoredBy a entry

structure Inv (w : World) : Prop where
  wf : ∀ b ∈ w.builders, b.WF
  cache : ∀ key entry, w.cache key = some entry → Recorded w.past key entry

variable [AhoMachine]

theorem call_cases {i : Nat} {op : Op} (run : w.call i op = .ok w') :
    w' = w ∨ ∃ b b', w.builders[i]? = some b ∧ (w.attach b).step op = .ok b' ∧
      w' = { w with cache := b'.docLevelCache.getD w.cache, builders := w.builders.set i b' } := by
  unfold call at run
  split at run
  · exact Or.inl (Except.ok.inj run).symm
  · rename_i b found
    obtain ⟨b', stepped, done⟩ := bind_eq_ok.mp run
    exact Or.inr ⟨b, b', found, stepped, (Except.ok.inj done).symm⟩

omit [FloatOps] [Codec] [AhoMachine] in
theorem attach_wf {b : IndexerBuilder} (wf : b.WF) : (w.attach b).WF := ⟨wf.fits, wf.wildcard⟩

theorem call_inv (inv : w.Inv) {i : Nat} {op : Op} (run : w.call i op = .ok w') {new : List Addition}
    (stores : ∀ b b' cache', w.builders[i]? = some b → (w.attach b).WF → (w.attach b).step op = .ok b' →
      b'.docLevelCache = some cache' → ∀ key entry, cache' key = some entry →
        w.cache key = some entry ∨ Recorded new key entry) : Inv { w' with past := new ++ w.past } := by
  have old : ∀ key entry, w.cache key = some entry → Recorded (new ++ w.past) key entry := by
    intro key entry hit
    obtain ⟨a, mem, id, version, stored⟩ := inv.cache key entry hit
    exact ⟨a, List.mem_append_right _ mem, id, version, stored⟩
  rcases call_cases run with rfl | ⟨b, b', found, stepped, rfl⟩
  · exact ⟨inv.wf, old⟩
  · have wf : (w.attach b).WF := attach_wf (inv.wf b (List.mem_of_getElem? found))
    refine ⟨fun b₁ mem => ?_, fun key entry hit => ?_⟩
    · rcases List.mem_or_eq_of_mem_set mem with old | rfl
      · exact inv.wf b₁ old
      · exact IndexerBuilder.step_wf wf stepped
    · cases cached : b'.docLevelCache with
      | none =>
        simp only [cached, Option.getD_none] at hit
        exact old key entry hit
      | some cache' =>
        simp only [cached, Option.getD_some] at hit
        rcases stores b b' cache' found wf stepped cached key entry hit with kept | ⟨a, mem, id, version, stored⟩
        · exact old key entry kept
        · exact ⟨a, List.mem_append_left _ mem, id, version, stored⟩

theorem call_keeps (inv : w.Inv) {i : Nat} {op : Op} (run : w.call i op = .ok w')
    (within : ∀ b b' : IndexerBuilder, b.step op = .ok b' → b.Within b') : w'.Inv := by
  have past : w'.past = w.past := by
    rcases call_cases run with rfl | ⟨_, _, _, _, rfl⟩ <;> rfl
  have kept : Inv { w' with past := [] ++ w.past } :=
    call_inv inv run fun b b' cache' _ _ stepped cached key entry hit => by
    obtain ⟨cache, had, subset⟩ := within _ _ stepped cache' cached
    obtain rfl := Option.some.inj had
    exact Or.inl (subset key entry hit)
  rw [List.nil_append, ← past] at kept
  exact kept

theorem step_inv (inv : w.Inv) {action : Action}
    (sound : ∀ i loops doc b, action = .addDocument i loops doc → w.builders[i]? = some b → w.Sound b doc)
    (run : w.step action = .ok w') : w'.Inv := by
  cases action with
  | create type behavior =>
    obtain ⟨b, made, done⟩ := bind_eq_ok.mp run
    obtain rfl := Except.ok.inj done
    refine ⟨fun b₁ mem => ?_, inv.cache⟩
    rcases List.mem_append.mp mem with old | new
    · exact inv.wf b₁ old
    · have fresh : IndexerBuilder.run ⟨type, behavior, some w.cache⟩ [] = .ok b := bind_eq_ok.mpr ⟨b, made, rfl⟩
      rw [List.mem_singleton.mp new]
      exact IndexerBuilder.run_wf fresh
  | configField i loops field container =>
    refine call_keeps inv run fun b b' stepped => ?_
    obtain ⟨⟨b₁, desc⟩, configured, done⟩ := bind_eq_ok.mp stepped
    obtain rfl := Except.ok.inj done
    exact IndexerBuilder.configureField_within (panicIfErr_eq_ok.mp configured)
  | addDocument i loops doc =>
    obtain ⟨w₁, called, done⟩ := bind_eq_ok.mp run
    obtain rfl := Except.ok.inj done
    refine call_inv inv called fun b b' cache' found wf stepped cached key entry hit => ?_
    obtain ⟨⟨b₁, r⟩, added, rfl⟩ := map_eq_ok.mp stepped
    rw [IndexerBuilder.addDocument_single] at added
    rcases IndexerBuilder.addOne_stores wf (sound i loops doc b rfl found).codec added cached hit with
      ⟨cache, had, kept⟩ | ⟨rfl, stored⟩
    · obtain rfl := Option.some.inj had
      exact Or.inl kept
    · refine Or.inr ⟨_, ?_, rfl, rfl, stored⟩
      rw [additions, found]
      exact List.mem_singleton.mpr rfl
  | buildIndex i =>
    refine call_keeps inv run fun b b' stepped => ?_
    obtain ⟨idx, _, done⟩ := bind_eq_ok.mp stepped
    obtain rfl := Except.ok.inj done
    exact .of_eq rfl
  | reset i =>
    refine call_keeps inv run fun b b' stepped => ?_
    obtain ⟨idx, _, done⟩ := bind_eq_ok.mp stepped
    obtain rfl := Except.ok.inj done
    exact .of_eq rfl

/-- Whatever the builders did, an entry holds what its document was prepared to. -/
theorem reached_inv (reached : Reached w) : w.Inv := by
  induction reached with
  | start => exact ⟨by simp [start], fun key entry hit => by cases hit⟩
  | step _ sound run ih => exact step_inv ih sound run

/-! ### Hits and misses -/

omit [Codec] [AhoMachine] [FloatOps] in
theorem agree_of_follows {C : BEField → GoString} {B : BadConjBehavior} {b₀ b₀' : IndexerBuilder}
    {o o' : Go (IndexerBuilder × Except GoError Unit)} {p p' : Go (Store × Except GoError Unit)}
    (h : Follows IndexerBuilder.Later (IndexerBuilder.Shows C B) (fun _ _ _ => True) b₀ o p)
    (h' : Follows IndexerBuilder.Later (IndexerBuilder.Shows C B) (fun _ _ _ => True) b₀' o' p')
    (same : p = p' ∨ ∃ f f', p = .error f ∧ p' = .error f') : Agree o o' := by
  rcases same with rfl | ⟨f, f', rfl, rfl⟩
  · cases h with
    | fault f =>
      cases h'
      trivial
    | failed e _ shows =>
      cases h' with
      | failed _ _ shows' => exact ⟨rfl, shows.store.trans shows'.store.symm⟩
    | done _ shows _ =>
      cases h' with
      | done _ shows' _ => exact ⟨rfl, shows.store.trans shows'.store.symm⟩
  · cases h
    cases h'
    trivial

omit [AhoMachine] in
/-- A hit, when the document would be restored to what the builder makes of it. -/
theorem restored_same {b : IndexerBuilder} {doc : Document} {entry : DocIdxCache} {a : Addition}
    (stored : IndexerBuilder.StoredBy a entry) (content : a.doc.Same doc) (codec : Survives b.containers doc)
    (configured : ∀ conj ∈ doc.cons, ∀ expr ∈ exprList conj, b.fieldsData.find expr.1 ≠ none)
    (agree : ∀ conj ∈ doc.cons, ∀ expr ∈ exprList conj, a.containers expr.1 = b.containers expr.1)
    (settled : ∀ conj ∈ doc.cons, Settled b.containers b.badConjBehavior conj) :
    ∃ found restored, doc.cons.zipIdx.mapM (prepareConjTx b.containers b.badConjBehavior doc.id) = .ok found ∧
      entry.conjIdxCaches.mapM (restoreConjTx b.fieldsData.containers entry.docID) = .ok restored ∧
      List.Forall₂ ConjTx.Same restored found.reduceOption ∧ ∀ c ∈ restored, c.Sized := by
  obtain ⟨behavior, found₀, prepared₀, captured⟩ := stored.whole
  obtain ⟨id, _, conjs⟩ := content
  rw [id] at prepared₀
  obtain ⟨found, prepared, same⟩ := prepareConjs_same conjs agree settled prepared₀
  have known : ∀ c ∈ found₀.reduceOption, c.Sized ∧ newConjID doc.id c.idx c.incSize = .ok c.conjID ∧
      ∀ tx ∈ c.txs, ∃ container h, b.fieldsData.containers tx.field = some container ∧
        newEntriesHolder container = some h ∧ Undone container tx.data := by
    intro c mem
    obtain ⟨conj, hconj, made⟩ := mem_mapM prepared₀ (List.reduceOption_mem_iff.mp mem)
    obtain ⟨sized, packed, exprs⟩ := prepareConjTx_sized made
    refine ⟨sized, packed, fun tx htx => ?_⟩
    obtain ⟨expr, hexpr, field, data⟩ := exprs tx htx
    obtain ⟨conj', hconj', sameConj⟩ := forall₂_left conjs (List.fst_mem_of_mem_zipIdx hconj)
    have hexpr' := (exprList_perm sameConj).mem_iff.mp hexpr
    rw [agree conj' hconj' expr hexpr'] at data
    have undone := codec conj' hconj' expr hexpr' _ data
    obtain ⟨desc, isSome⟩ := Option.ne_none_iff_exists'.mp (configured conj' hconj' expr hexpr')
    have container : b.containers expr.1 = desc.container := by rw [IndexerBuilder.containers, isSome]
    rw [container] at data undone
    unfold prepareExpr at data
    split at data
    · rename_i h registered
      refine ⟨desc.container, h, ?_, registered, undone⟩
      rw [FieldTable.containers, field, isSome]
      rfl
    · cases data
  have each : List.Forall₂ (fun c cached => ∃ c', restoreConjTx b.fieldsData.containers doc.id cached = .ok c' ∧
      ConjTx.Same c c') found₀.reduceOption entry.conjIdxCaches :=
    ((List.forall₂_and_left _ _).mpr ⟨known, captured⟩).imp fun c cached both =>
      restoreConjTx_captured both.2 both.1.1 both.1.2.1 both.1.2.2
  obtain ⟨restored, decoded, sameRestored⟩ := mapM_related each
  refine ⟨found, restored, prepared, ?_, ?_, ?_⟩
  · rw [stored.docID, id]
    exact decoded
  · exact forall₂_join (fun c c' c'' h h' => h.symm.trans h') sameRestored same
  · intro c mem
    obtain ⟨c₀, mem₀, same⟩ := forall₂_right sameRestored mem
    exact same.sized (known c₀ mem₀).1

/-- With the cache a document is added as without one: the calls return an error both or neither, and
leave the same posting lists and the same wildcard list behind, whatever the builders did before. -/
theorem addDocument_transparent {i : Nat} {b : IndexerBuilder} {loops loops' : MapLoops} {doc : Document}
    (reached : Reached w) (builder : w.builders[i]? = some b) (sound : w.Sound b doc)
    (restores : (w.attach b).cachedEntry doc ≠ none → w.Restores b doc) :
    Agree ((w.attach b).addDocument loops [doc]) ({ b with docLevelCache := none }.addDocument loops' [doc]) := by
  have inv := reached_inv reached
  have wf := inv.wf b (List.mem_of_getElem? builder)
  have shows : IndexerBuilder.Shows b.containers b.badConjBehavior (w.attach b) b.store :=
    ⟨attach_wf wf, rfl, rfl, rfl⟩
  have showsPlain : IndexerBuilder.Shows b.containers b.badConjBehavior { b with docLevelCache := none } b.store :=
    ⟨⟨wf.fits, wf.wildcard⟩, rfl, rfl, rfl⟩
  rw [IndexerBuilder.addDocument_single, IndexerBuilder.addDocument_single]
  have plain := IndexerBuilder.addOne_misses showsPlain loops' rfl sound.codec.quiet
  cases hit : (w.attach b).cachedEntry doc with
  | none => exact agree_of_follows (IndexerBuilder.addOne_misses shows loops hit sound.codec.quiet) plain (Or.inl rfl)
  | some entry =>
    have fits := restores (by simp [hit])
    obtain ⟨cache, isSome, listed, _, hash⟩ := IndexerBuilder.cachedEntry_some hit
    obtain rfl := Option.some.inj isSome
    obtain ⟨a, past, id, version, stored⟩ := inv.cache _ _ listed
    have agree := fits.schema a past id version (stored.schemaHash.symm.trans hash)
    obtain ⟨found, restored, prepared, decoded, same, sized⟩ :=
      restored_same stored (sound.content a past id version) sound.codec fits.configured agree fits.settled
    refine agree_of_follows (IndexerBuilder.addOne_hits shows loops hit) plain ?_
    rw [Store.addOne]
    cases IndexerBuilder.validDocument doc with
    | error fault => exact Or.inl (by cases fault <;> rfl)
    | ok u =>
      change Store.restore b.fieldsData.containers _ _ _ = Store.build _ _ _ _ _ ∨ ∃ f f',
        Store.restore b.fieldsData.containers _ _ _ = _ ∧ Store.build _ _ _ _ _ = _
      rw [Store.restore_eq decoded, Store.build, prepared]
      change _ = (found.reduceOption.foldlM Store.commitConj b.store).map _ ∨ ∃ f f', _ ∧
        (found.reduceOption.foldlM Store.commitConj b.store).map _ = _
      have sized' : ∀ c ∈ found.reduceOption, c.Sized := by
        intro c mem
        obtain ⟨c₀, mem₀, sameConj⟩ := forall₂_right same mem
        exact sameConj.sized (sized c₀ mem₀)
      cases first : restored.foldlM Store.commitConj b.store with
      | ok s' =>
        rw [Store.commitConjs_same sized same first]
        exact Or.inl rfl
      | error f =>
        cases second : found.reduceOption.foldlM Store.commitConj b.store with
        | error f' => exact Or.inr ⟨f, f', rfl, rfl⟩
        | ok s' =>
          have reversed : List.Forall₂ ConjTx.Same found.reduceOption restored :=
            List.Forall₂.flip (same.imp fun _ _ h => h.symm)
          have back := Store.commitConjs_same sized' reversed second
          rw [first] at back
          cases back

/-! ### One token -/

theorem Reached.other {action : Action} (before : Reached w) (run : w.step action = .ok w')
    (isOther : ∀ i loops doc, action ≠ .addDocument i loops doc) : Reached w' :=
  before.step (fun i loops doc _ same => absurd same (isOther i loops doc)) run

theorem Reached.added (i : Nat) (loops : MapLoops) {doc : Document} {b : IndexerBuilder} (before : Reached w)
    (builder : w.builders[i]? = some b) (sound : w.Sound b doc) (run : w.step (.addDocument i loops doc) = .ok w') :
    Reached w' := by
  refine before.step (fun i' loops' doc' b' same builder' => ?_) run
  cases same
  obtain rfl := Option.some.inj (builder.symm.trans builder')
  exact sound

def tokenDoc : Document := ⟨1, 1, [⟨AList.singleton (str "age") [⟨true, .strings (some [str "x"]), .eq⟩]⟩]⟩

@[reducible]
def tokenCodec : Codec := Codec.single [str "x"] [0x0A, 1, 0x78] ⟨.eq, false, []⟩ []

omit [FloatOps] [Codec] [AhoMachine] in
theorem tokenDoc_survives {containers : BEField → GoString} (isDefault : containers (str "age") = HolderNameDefault) :
    letI := FloatOps.noFloats
    letI := tokenCodec
    Survives containers tokenDoc := by
  let _ := FloatOps.noFloats
  let _ := tokenCodec
  intro conj hconj expr hexpr data prepared
  obtain rfl := List.mem_singleton.mp hconj
  obtain rfl := List.mem_singleton.mp hexpr
  rw [isDefault] at prepared ⊢
  obtain rfl : data = .strTokens [str "x"] := Except.ok.inj (prepared.symm.trans rfl)
  refine ⟨[0x0A, 1, 0x78], rfl, ?_⟩
  rintro h ⟨⟩
  rfl

omit [FloatOps] [Codec] [AhoMachine] in
/-- Two builders configure one field alike, and the second restores what the first stored. -/
theorem addDocument_transparent_on_hit :
    letI := FloatOps.noFloats
    letI := tokenCodec
    letI := AhoMachine.naive
    ∃ w b, Reached w ∧ w.builders[1]? = some b ∧ (w.attach b).cachedEntry tokenDoc ≠ none ∧
      Agree ((w.attach b).addDocument .id [tokenDoc])
        ({ b with docLevelCache := none }.addDocument .id [tokenDoc]) := by
  let _ := FloatOps.noFloats
  let _ := tokenCodec
  let _ := AhoMachine.naive
  have created : ∀ i loops doc, Action.create .default .error ≠ .addDocument i loops doc := by
    rintro _ _ _ ⟨⟩
  have configured : ∀ j i loops doc,
      Action.configField j .id (str "age") HolderNameDefault ≠ .addDocument i loops doc := by
    rintro _ _ _ _ ⟨⟩
  have both : Reached _ := (((Reached.start.other rfl created).other rfl (configured 0)).other rfl created).other rfl
    (configured 1)
  have stored : Reached _ := both.added 0 .id rfl ⟨nofun, tokenDoc_survives rfl⟩ rfl
  refine ⟨_, _, stored, rfl, Option.some_ne_none _, ?_⟩
  refine addDocument_transparent (i := 1) stored rfl ⟨?_, tokenDoc_survives rfl⟩ fun _ => ⟨?_, ?_, ?_⟩
  · intro a mem _ _
    obtain rfl := List.mem_singleton.mp mem
    exact .refl _
  · intro conj hconj expr hexpr
    obtain rfl := List.mem_singleton.mp hconj
    obtain rfl := List.mem_singleton.mp hexpr
    exact Option.some_ne_none _
  · intro a mem _ _ _ conj hconj expr hexpr
    obtain rfl := List.mem_singleton.mp mem
    rfl
  · intro conj hconj expr hexpr
    obtain rfl := List.mem_singleton.mp hconj
    obtain rfl := List.mem_singleton.mp hexpr
    exact Or.inl ⟨_, rfl⟩

omit [FloatOps] [Codec] [AhoMachine] in
/-- Two builders without fields have one schema hash. The first creates a field for the document and
stores it under that hash; the second finds the entry and does not know the field. -/
theorem addDocument_fails_on_hit :
    letI := FloatOps.noFloats
    letI := tokenCodec
    letI := AhoMachine.naive
    ∃ w b b₁ b₂ err, Reached w ∧ w.builders[1]? = some b ∧ w.Sound b tokenDoc ∧
      (w.attach b).addDocument .id [tokenDoc] = .ok (b₁, .error err) ∧
      { b with docLevelCache := none }.addDocument .id [tokenDoc] = .ok (b₂, .ok ()) := by
  let _ := FloatOps.noFloats
  let _ := tokenCodec
  let _ := AhoMachine.naive
  have created : ∀ i loops doc, Action.create .default .error ≠ .addDocument i loops doc := by
    rintro _ _ _ ⟨⟩
  have both : Reached _ := (Reached.start.other rfl created).other rfl created
  refine ⟨_, _, _, _, _, both.added 0 .id rfl ⟨nofun, tokenDoc_survives rfl⟩ rfl, rfl,
    ⟨?_, tokenDoc_survives rfl⟩, rfl, rfl⟩
  intro a mem _ _
  obtain rfl := List.mem_singleton.mp mem
  exact .refl _

end World

end BeIndexer
