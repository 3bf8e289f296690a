import BeIndexer.Cache.Capture
import BeIndexer.Holder.RangeEncoding
import BeIndexer.Refinement.Build
import BeIndexer.Store.Prepare

/-!
# From a document to the cache and back

A document prepared again, its maps visited in another order, gives the same conjunctions up to the
order of their fields. So does restoring what was captured of it, for data that decoding gives back.
-/

namespace BeIndexer

open Calls

/-! ### Restoring what was captured -/

section Restore

variable [Codec]

/-- `Encode` succeeds, and `Decode` undoes it. -/
def Undone (container : GoString) (data : IndexingData) : Prop :=
  ∃ bytes, data.encode = .ok bytes ∧
    ∀ h, newEntriesHolder container = some h → h.decodeFieldIndexingData bytes = .ok data

omit [Codec] in
/-- What the optimised range holder does not list as points it keeps as an interval with different ends. -/
theorem optimizedBuild_kept [FloatOps] {h h' : OptimizedRangeHolder} {field : BEField} {bv : BoolValues}
    {data : OptimizedRangeTxData} (run : h.buildFieldIndexingData field bv = .ok (h', data)) :
    data.operator = .eq ∨ ∃ rg, data.rgValue = some rg ∧ bumpEqual rg.left rg.right = rg.right := by
  unfold OptimizedRangeHolder.buildFieldIndexingData at run
  split at run
  · obtain ⟨ids, _, done⟩ := bind_eq_ok.mp run
    obtain ⟨_, rfl⟩ := Prod.mk.inj (Except.ok.inj done)
    exact Or.inl rfl
  · cases run
  · obtain ⟨rg, parsed, rest⟩ := bind_eq_ok.mp run
    split at rest
    · obtain ⟨vs, _, done⟩ := bind_eq_ok.mp rest
      obtain ⟨_, rfl⟩ := Prod.mk.inj (Except.ok.inj done)
      exact Or.inl rfl
    · obtain ⟨_, _, rest⟩ := bind_eq_ok.mp rest
      obtain ⟨_, _, done⟩ := bind_eq_ok.mp rest
      obtain ⟨_, rfl⟩ := Prod.mk.inj (Except.ok.inj done)
      exact Or.inr ⟨rg, rfl, parseRange_bump parsed⟩

theorem quiet_of_undone [FloatOps] {container : GoString} {field : BEField} {bv : BoolValues}
    (undone : ∀ data, prepareExpr container field bv = .ok data → Undone container data) :
    EntriesHolder.Quiet container field bv := by
  intro data prepared
  obtain ⟨bytes, _, decodes⟩ := undone _ prepared
  unfold prepareExpr at prepared
  split at prepared
  · rename_i h made
    have decoded := decodes h made
    obtain ⟨⟨h', _⟩, built, rfl⟩ := map_eq_ok.mp prepared
    cases h with
    | optimizedRange h =>
      obtain ⟨data', parsed, same⟩ := map_eq_ok.mp decoded
      obtain rfl := IndexingData.optimizedRange.inj same
      obtain ⟨json, _, rfl⟩ := map_eq_ok.mp (returned_eq_ok.mp parsed)
      obtain ⟨⟨h₁, data₁⟩, kept, done⟩ := bind_eq_ok.mp built
      obtain ⟨_, same⟩ := Prod.mk.inj (Except.ok.inj done)
      obtain rfl := IndexingData.optimizedRange.inj same
      rcases optimizedBuild_kept kept with points | ⟨rg, isInterval, ends⟩
      · exact points
      · unfold RangeTxData.ofJSON at isInterval
        dsimp only at isInterval
        split at isInterval
        · obtain rfl := Option.some.inj isInterval
          exact absurd ends (by decide)
        · cases isInterval
    | _ =>
      obtain ⟨_, _, done⟩ := bind_eq_ok.mp built
      cases done
  · cases prepared

/-- The cached conjunction has a pair for every piece of data, field by field. -/
structure ConjTx.CapturedBy (c : ConjTx) (cached : ConjIdxCache) : Prop where
  idx : cached.conjIdx = c.idx
  size : cached.conjSize = c.incSize
  groups : ∀ g ∈ cached.fieldCacheIdx, g.entries ≠ []
  entries : ∀ f, List.Forall₂ (fun e tx => e.eid = tx.eid ∧ tx.data.encode = .ok e.dataBytes)
    (cached.entriesOf f) (txsOf f c.txs)

theorem toCacheResult_captured (loops : MapLoops) {cd : ConjIndexingData}
    (encodes : ∀ tx ∈ cd.fieldData, ∃ bytes, tx.data.encode = .ok bytes) :
    cd.toConjTx.CapturedBy (cd.toCacheResult loops) := by
  obtain ⟨idx, size, entries⟩ := (cd.toCacheResult_whole_iff loops).mpr encodes
  refine ⟨idx, size, fun g mem => ?_, fun f => ?_⟩
  · simpa using (List.mem_filter.mp mem).2
  · have filtered : txsOf f cd.toConjTx.txs = (cd.txsOf f).map FieldIndexingData.toTx := by
      rw [txsOf, ConjIndexingData.toConjTx, List.filter_map]
      rfl
    rw [filtered, List.forall₂_map_right_iff]
    exact entries f

variable {fields : BEField → Option GoString} {k : Nat} {f : BEField}

/-- The entry is decoded to the data by the holder of the field. -/
def Decodes (fields : BEField → Option GoString) (k : Nat) (f : BEField) (e : IdxCacheEntry) (tx : Tx) : Prop :=
  ∃ container h, fields f = some container ∧ newEntriesHolder container = some h ∧ restoreTx h k f e = .ok tx

theorem decodes_unique : Relator.RightUnique (Decodes fields k f) := by
  rintro e tx tx' ⟨container, h, configured, registered, decoded⟩ ⟨container', h', configured', registered', decoded'⟩
  obtain rfl := Option.some.inj (configured.symm.trans configured')
  obtain rfl := Option.some.inj (registered.symm.trans registered')
  exact Except.ok.inj (decoded.symm.trans decoded')

theorem restoreTxs_decodes {g : FieldIndexes} {txs : List Tx} (run : restoreTxs fields k g = .ok txs) :
    List.Forall₂ (Decodes fields k g.field) g.entries txs ∧ ∀ tx ∈ txs, tx.field = g.field := by
  unfold restoreTxs at run
  split at run
  · cases run
  · rename_i container configured
    split at run
    · cases run
    · rename_i h registered
      refine ⟨(mapM_eq_ok.mp run).imp fun e tx decoded => ⟨container, h, configured, registered, decoded⟩, ?_⟩
      intro tx mem
      obtain ⟨e, _, decoded⟩ := mem_mapM run mem
      obtain ⟨data, _, done⟩ := bind_eq_ok.mp decoded
      obtain rfl := Except.ok.inj done
      rfl

theorem restoreGroups_decodes {groups : List FieldIndexes} {lists : List (List Tx)}
    (run : groups.mapM (restoreTxs fields k) = .ok lists) (f : BEField) :
    List.Forall₂ (Decodes fields k f) ((groups.filter fun g => g.field == f).flatMap FieldIndexes.entries)
      (txsOf f lists.flatten) := by
  have each := mapM_eq_ok.mp run
  clear run
  induction each with
  | nil => exact .nil
  | @cons g txs _ _ head _ ih =>
    obtain ⟨decodes, field⟩ := restoreTxs_decodes head
    rw [List.flatten_cons, txsOf, List.filter_append]
    by_cases here : g.field = f
    · subst here
      have all : (txs.filter fun tx => tx.field == g.field) = txs :=
        List.filter_eq_self.mpr fun tx mem => by simp [field tx mem]
      rw [List.filter_cons_of_pos (by simp), List.flatMap_cons, all]
      exact List.rel_append decodes ih
    · have none : (txs.filter fun tx => tx.field == f) = [] :=
        List.filter_eq_nil_iff.mpr fun tx mem => by simpa [field tx mem] using here
      rw [List.filter_cons_of_neg (by simpa using here), none]
      exact ih

/-- What was captured of a conjunction is restored to the conjunction, its fields in another order. -/
theorem restoreConjTx_captured {docID : DocID} {c : ConjTx} {cached : ConjIdxCache} (captured : c.CapturedBy cached)
    (sized : c.Sized) (packed : newConjID docID c.idx c.incSize = .ok c.conjID)
    (known : ∀ tx ∈ c.txs, ∃ container h, fields tx.field = some container ∧ newEntriesHolder container = some h ∧
      Undone container tx.data) :
    ∃ c', restoreConjTx fields docID cached = .ok c' ∧ c.Same c' := by
  have size : cached.conjSize.toNat = c.conjID.size := by
    have := (newConjID_fields packed).2.1
    rw [captured.size]
    omega
  have decodes : ∀ f e tx, tx ∈ txsOf f c.txs → e.eid = tx.eid → tx.data.encode = .ok e.dataBytes →
      Decodes fields c.conjID.size f e tx := by
    intro f e tx listed eid encoded
    obtain ⟨mem, rfl⟩ := mem_txsOf.mp listed
    obtain ⟨container, h, configured, registered, bytes, encodes, decodes⟩ := known tx mem
    obtain rfl := Except.ok.inj (encoded.symm.trans encodes)
    refine ⟨container, h, configured, registered, ?_⟩
    rw [restoreTx, decodes h registered, ← sized tx mem, eid]
    rfl
  have each : ∀ g ∈ cached.fieldCacheIdx, ∃ txs, restoreTxs fields c.conjID.size g = .ok txs := by
    intro g hg
    have paired : ∀ e ∈ g.entries, ∃ tx, Decodes fields c.conjID.size g.field e tx := by
      intro e he
      have listed : e ∈ cached.entriesOf g.field :=
        List.mem_flatMap.mpr ⟨g, List.mem_filter.mpr ⟨hg, by simp⟩, he⟩
      obtain ⟨tx, mem, eid, encoded⟩ := forall₂_left (captured.entries g.field) listed
      exact ⟨tx, decodes _ e tx mem eid encoded⟩
    obtain ⟨e, he⟩ := List.exists_mem_of_ne_nil _ (captured.groups g hg)
    obtain ⟨_, container, h, configured, registered, _⟩ := paired e he
    simp only [restoreTxs, configured, registered]
    refine mapM_runs fun e he => ?_
    obtain ⟨tx, container', h', configured', registered', decoded⟩ := paired e he
    obtain rfl := Option.some.inj (configured.symm.trans configured')
    obtain rfl := Option.some.inj (registered.symm.trans registered')
    exact ⟨tx, decoded⟩
  obtain ⟨lists, restored⟩ := mapM_runs each
  refine ⟨⟨cached.conjIdx.toNat, cached.conjSize.toNat, c.conjID, lists.flatten⟩, ?_, ?_, rfl, fun f => ?_⟩
  · rw [restoreConjTx, captured.idx, captured.size, packed]
    rw [captured.size] at size
    simp only [bind, Except.bind, size, restored]
    rfl
  · simp [captured.size]
  · have direct : List.Forall₂ (Decodes fields c.conjID.size f) (cached.entriesOf f) (txsOf f c.txs) :=
      (forall₂_mem (captured.entries f)).imp fun e tx pair => decodes f e tx pair.1 pair.2.1 pair.2.2
    exact List.right_unique_forall₂' decodes_unique direct (restoreGroups_decodes restored f)

end Restore

end BeIndexer
