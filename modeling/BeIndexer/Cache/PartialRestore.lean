import BeIndexer.Refinement.Runs
import Mathlib.Order.Basic

/-!
# Restoring a document that cannot be restored whole

`AddDocIndexingData` commits a conjunction before it decodes the next one, so the conjunctions before
the one that fails stay. They go unnoticed only if none of them writes to a posting list. A commit
that writes anything makes some list longer, and no commit makes a list shorter.
-/

namespace BeIndexer

open Calls

/-! ### Commits that write nothing -/

namespace Postings

/-- The data leaves the posting lists as they are. An interval is lost on a compiled index. -/
def ignores : Postings → IndexingData → Bool
  | .tokens _, .strTokens values => values.isEmpty
  | .range h, .range data =>
    match data.operator with
    | .eq => data.eqValues.isEmpty
    | _ => h.rangeIdx.compiled
  | .optimizedRange _, .optimizedRange data =>
    match data.operator with
    | .eq => data.eqValues.isEmpty
    | .between => false
    | _ => true
  | .acMatcher _, .acKeys keys => keys.isEmpty
  | _, _ => false

/-- The length of the posting lists of a token and a number. -/
def volume (p : Postings) (key : GoString × Int64) : Nat :=
  match p with
  | .tokens entries => (entries key.1).length
  | .range h => (h.plEntries key.2).length + (h.rangeIdx.cellEntries key.2).length
  | .optimizedRange h => h.pendingRanges.length
  | .acMatcher h => ((h.values.lookup key.1).getD []).length

/-- An interval that was decoded has a place in the index. -/
def Wide : Postings → Prop
  | .range h => h.rangeIdx.valueMin ≤ 0 ∧ 0 < h.rangeIdx.valueMax
  | _ => True

end Postings

/-- The ends of an interval are not encoded. -/
def IndexingData.Decoded : IndexingData → Prop
  | .range data => ∀ rg, data.rgValue = some rg → rg = zeroRange
  | _ => True

/-- A step either is ignored and changes nothing, or makes the state larger. -/
def Swells {σ V : Type} [Preorder V] (volume : σ → V) (ignored : Prop) (s s' : σ) : Prop :=
  ignored ∧ s' = s ∨ ¬ ignored ∧ volume s < volume s'

theorem Swells.unchanged_iff {σ V : Type} [Preorder V] {volume : σ → V} {ignored : Prop} {s s' : σ}
    (swells : Swells volume ignored s s') : s' = s ↔ ignored := by
  rcases swells with ⟨ignored, same⟩ | ⟨used, lt⟩
  · exact ⟨fun _ => ignored, fun _ => same⟩
  · refine ⟨?_, fun ignored => absurd ignored used⟩
    rintro rfl
    exact absurd lt (lt_irrefl _)

theorem foldlM_swells {σ ι V : Type} [Preorder V] {volume : σ → V} {Inv : σ → Prop} {ignored : σ → ι → Prop}
    {f : σ → ι → Go σ} {is : List ι}
    (step : ∀ i ∈ is, ∀ s s', Inv s → f s i = .ok s' → Inv s' ∧ Swells volume (ignored s i) s s') {s s' : σ}
    (inv : Inv s) (run : is.foldlM f s = .ok s') : Inv s' ∧ Swells volume (∀ i ∈ is, ignored s i) s s' := by
  induction is generalizing s with
  | nil =>
    obtain rfl := Except.ok.inj run
    exact ⟨inv, Or.inl ⟨by simp, rfl⟩⟩
  | cons i is ih =>
    rw [List.foldlM_cons] at run
    obtain ⟨s₁, first, rest⟩ := bind_eq_ok.mp run
    obtain ⟨inv₁, swells₁⟩ := step i List.mem_cons_self s s₁ inv first
    obtain ⟨inv', swells'⟩ := ih (fun j mem => step j (List.mem_cons_of_mem _ mem)) inv₁ rest
    refine ⟨inv', ?_⟩
    rcases swells₁ with ⟨ignored₁, rfl⟩ | ⟨used, lt⟩
    · rcases swells' with ⟨all, same⟩ | ⟨used, lt⟩
      · exact Or.inl ⟨List.forall_mem_cons.mpr ⟨ignored₁, all⟩, same⟩
      · exact Or.inr ⟨fun all => used (List.forall_mem_cons.mp all).2, lt⟩
    · refine Or.inr ⟨fun all => used (List.forall_mem_cons.mp all).1, ?_⟩
      rcases swells' with ⟨_, rfl⟩ | ⟨_, lt'⟩
      · exact lt
      · exact lt_trans lt lt'

namespace Postings

variable {p p' : Postings} {eid : EntryID} {data : IndexingData}

theorem volume_lt (key : GoString × Int64) (le : ∀ key, p.volume key ≤ p'.volume key)
    (lt : p.volume key < p'.volume key) : p.volume < p'.volume :=
  Pi.lt_def.mpr ⟨le, key, lt⟩

theorem commitTokens_swells (entries : GoString → Entries) (values : List GoString) :
    Swells volume (values.isEmpty = true) (tokens entries)
      (tokens fun value => if value ∈ values then entries value ++ [eid] else entries value) := by
  cases values with
  | nil => exact Or.inl ⟨rfl, by simp⟩
  | cons v values =>
    refine Or.inr ⟨by simp, volume_lt (v, 0) (fun key => ?_) ?_⟩
    · simp only [volume]
      split <;> simp
    · simp [volume]

theorem commitRange_swells {h h' : RangeHolder} {data : RangeTxData} (wide : (range h).Wide)
    (decoded : ∀ rg, data.rgValue = some rg → rg = zeroRange) (run : h.commitFieldIndexingData eid data = .ok h') :
    Swells volume ((range h).ignores (.range data) = true) (range h) (range h') := by
  unfold RangeHolder.commitFieldIndexingData at run
  split at run
  · rename_i isEq
    obtain rfl := Except.ok.inj run
    simp only [ignores, isEq]
    cases values : data.eqValues with
    | nil => exact Or.inl ⟨rfl, by simp⟩
    | cons v values =>
      refine Or.inr ⟨by simp, volume_lt ([], v) (fun key => ?_) ?_⟩
      · simp only [volume]
        split <;> simp
      · simp [volume]
  · cases run
  · rename_i notEq notOther
    split at run
    · cases run
    · rename_i rg interval
      obtain ⟨rix, placed, done⟩ := bind_eq_ok.mp run
      obtain rfl := Except.ok.inj done
      obtain rfl := decoded rg interval
      have ignored : (range h).ignores (.range data) = h.rangeIdx.compiled := by
        cases op : data.operator with
        | eq => exact absurd op notEq
        | _ => simp only [ignores, op]
      rw [ignored]
      by_cases compiled : h.rangeIdx.compiled = true
      · rw [RangeIdx.indexingRange_compiled _ _ compiled] at placed
        obtain rfl := Except.ok.inj placed
        exact Or.inl ⟨compiled, rfl⟩
      · have cells := fun v => RangeIdx.indexingRange_cell v (by simpa using compiled) placed
        refine Or.inr ⟨compiled, volume_lt ([], 0) (fun key => ?_) ?_⟩
        · simp [volume, cells]
        · have inside : (0 : Int64) < h.rangeIdx.valueMax ∧ h.rangeIdx.valueMin ≤ zeroRange.left ∧
              zeroRange.left ≤ 0 ∧ 0 < bumpEqual zeroRange.left zeroRange.right :=
            ⟨wide.2, wide.1, by decide, by decide⟩
          simp [volume, cells, inside]

theorem commitOptimized_swells {h h' : OptimizedRangeHolder} {data : OptimizedRangeTxData}
    (run : h.commitFieldIndexingData eid data = .ok h') :
    Swells volume ((optimizedRange h).ignores (.optimizedRange data) = true) (optimizedRange h)
      (optimizedRange h') := by
  unfold OptimizedRangeHolder.commitFieldIndexingData at run
  split at run
  · rename_i isEq
    simp only [ignores, isEq]
    cases values : data.eqValues with
    | nil =>
      rw [values] at run
      obtain rfl := Except.ok.inj run
      exact Or.inl ⟨rfl, rfl⟩
    | cons v values' =>
      have pos : 0 < data.eqValues.dedup.length :=
        List.length_pos_of_mem (List.mem_dedup.mpr (values ▸ List.mem_cons_self))
      have longer := (OptimizedRangeHolder.commitPoints_frame run).2
      refine Or.inr ⟨by simp, volume_lt ([], 0) (fun key => ?_) ?_⟩
      · simp only [volume]
        omega
      · simp only [volume]
        omega
  · rename_i isBetween
    simp only [ignores, isBetween]
    split at run
    · cases run
    · obtain rfl := Except.ok.inj run
      refine Or.inr ⟨by simp, volume_lt ([], 0) (fun key => ?_) ?_⟩ <;> simp [volume]
  · rename_i notEq notBetween
    obtain rfl := Except.ok.inj run
    refine Or.inl ⟨?_, rfl⟩
    cases op : data.operator with
    | eq => exact absurd op notEq
    | between => exact absurd op notBetween
    | _ => simp only [ignores, op]

theorem commitKeys_swells (h : ACEntriesHolder) (keys : List GoString) :
    Swells volume (keys.isEmpty = true) (acMatcher h) (acMatcher (h.commitFieldIndexingData eid keys)) := by
  cases keys with
  | nil => exact Or.inl ⟨rfl, rfl⟩
  | cons k keys =>
    refine Or.inr ⟨by simp, volume_lt (k, 0) (fun key => ?_) ?_⟩
    · simp [volume, ACEntriesHolder.commit_lookup]
    · simp [volume, ACEntriesHolder.commit_lookup]

/-- A commit of decoded data writes nothing or makes a posting list longer. -/
theorem commit_swells (wide : p.Wide) (decoded : data.Decoded) (run : p.commit eid data = .ok p') :
    p'.Wide ∧ Swells volume (p.ignores data = true) p p' := by
  cases p <;> cases data <;> simp only [commit, panicf, errorf, reduceCtorEq] at run
  · obtain rfl := Except.ok.inj run
    exact ⟨trivial, commitTokens_swells _ _⟩
  · obtain ⟨h', committed, rfl⟩ := map_eq_ok.mp run
    obtain ⟨_, _, min, max⟩ := RangeHolder.commit_frame committed
    refine ⟨?_, commitRange_swells wide decoded committed⟩
    rw [Wide, min, max]
    exact wide
  · obtain ⟨h', committed, rfl⟩ := map_eq_ok.mp run
    exact ⟨trivial, commitOptimized_swells committed⟩
  · obtain rfl := Except.ok.inj run
    exact ⟨trivial, commitKeys_swells _ _⟩

end Postings

/-! ### Conjunctions that write nothing -/

namespace Store

variable {s s' : Store}

def volume (s : Store) : Nat × (Nat → BEField → GoString × Int64 → Nat) :=
  (s.wildcard.length, fun k f => (s.posts k f).volume)

def Wide (s : Store) : Prop := ∀ k f, (s.posts k f).Wide

def ignoresTx (s : Store) (tx : Tx) : Prop := (s.posts tx.k tx.field).ignores tx.data = true

/-- Committing the conjunction writes to no list, the wildcard list included. -/
def ignoresConj (s : Store) (c : ConjTx) : Prop := c.incSize ≠ 0 ∧ ∀ tx ∈ c.txs, s.ignoresTx tx

theorem Slot.posts {k k' : Nat} (slot : s.Slot k k') : s.posts k' = s.posts k := by
  rcases slot with compact | rfl
  · exact s.shared compact _ _
  · rfl

theorem put_volume_lt {k : Nat} {f : BEField} {p : Postings} (lt : (s.posts k f).volume < p.volume) :
    s.volume < (s.put k f p).volume := by
  refine Prod.mk_lt_mk_iff_right.mpr
    (Pi.lt_def.mpr ⟨fun k' => Pi.le_def.mpr fun f' => ?_, k, Pi.lt_def.mpr ⟨fun f' => ?_, f, ?_⟩⟩)
  · simp only [put]
    split
    · rename_i here
      rw [here.1.posts, here.2]
      exact lt.le
    · exact le_refl _
  · simp only [put]
    split
    · rename_i here
      rw [here.2]
      exact lt.le
    · exact le_refl _
  · simpa [put, Slot] using lt

theorem commitTx_swells {tx : Tx} (wide : s.Wide) (decoded : tx.data.Decoded) (run : s.commitTx tx = .ok s') :
    s'.Wide ∧ Swells volume (s.ignoresTx tx) s s' := by
  obtain ⟨p, committed, done⟩ := bind_eq_ok.mp run
  obtain rfl := Except.ok.inj done
  obtain ⟨wide', swells⟩ := Postings.commit_swells (wide _ _) decoded (panicIfErr_eq_ok.mp committed)
  refine ⟨fun k f => ?_, ?_⟩
  · simp only [put]
    split
    · exact wide'
    · exact wide k f
  · rcases swells with ⟨ignored, rfl⟩ | ⟨used, lt⟩
    · exact Or.inl ⟨ignored, s.put_self _ _⟩
    · exact Or.inr ⟨used, put_volume_lt lt⟩

theorem commitConj_swells {c : ConjTx} (decoded : ∀ tx ∈ c.txs, tx.data.Decoded) (wide : s.Wide)
    (run : s.commitConj c = .ok s') : s'.Wide ∧ Swells volume (s.ignoresConj c) s s' := by
  have step : ∀ tx ∈ c.txs, ∀ s s' : Store, s.Wide → s.commitTx tx = .ok s' →
      s'.Wide ∧ Swells volume (s.ignoresTx tx) s s' :=
    fun tx mem _ _ wide run => commitTx_swells wide (decoded tx mem) run
  unfold commitConj at run
  by_cases zero : c.incSize = 0
  · rw [if_pos zero] at run
    obtain ⟨wide', swells⟩ := foldlM_swells step (s := s.addWildcard _) wide run
    have lt : s.volume < (s.addWildcard (newEntryID c.conjID true)).volume :=
      Prod.mk_lt_mk_iff_left.mpr (by simp [addWildcard])
    refine ⟨wide', Or.inr ⟨fun ignored => ignored.1 zero, ?_⟩⟩
    rcases swells with ⟨_, rfl⟩ | ⟨_, lt'⟩
    · exact lt
    · exact lt_trans lt lt'
  · rw [if_neg zero] at run
    obtain ⟨wide', swells⟩ := foldlM_swells step wide run
    refine ⟨wide', ?_⟩
    rcases swells with ⟨all, same⟩ | ⟨used, lt⟩
    · exact Or.inl ⟨⟨zero, all⟩, same⟩
    · exact Or.inr ⟨fun ignored => used ignored.2, lt⟩

end Store

/-! ### Failed restores -/

section Restore

variable [Codec] {fields : BEField → Option GoString} {docID : DocID}

/-- The fields of the conjunction are configured, and its bytes can be decoded. -/
def restorable (fields : BEField → Option GoString) (docID : DocID) (cached : ConjIdxCache) : Bool :=
  (restoreConjTx fields docID cached).isOk

theorem decode_decoded {h : EntriesHolder} {bytes : Bytes} {data : IndexingData}
    (run : h.decodeFieldIndexingData bytes = .ok data) : data.Decoded := by
  cases h <;> obtain ⟨d, decoded, rfl⟩ := map_eq_ok.mp run
  case range =>
    obtain ⟨json, _, rfl⟩ := map_eq_ok.mp (returned_eq_ok.mp decoded)
    intro rg isSome
    unfold RangeTxData.ofJSON at isSome
    dsimp only at isSome
    split at isSome
    · exact (Option.some.inj isSome).symm
    · cases isSome
  all_goals trivial

theorem restoreTxs_decoded {k : Nat} {fieldTx : FieldIndexes} {txs : List Tx}
    (run : restoreTxs fields k fieldTx = .ok txs) : ∀ tx ∈ txs, tx.data.Decoded := by
  unfold restoreTxs at run
  split at run
  · cases run
  · split at run
    · cases run
    · intro tx mem
      obtain ⟨e, _, restored⟩ := mem_mapM run mem
      obtain ⟨data, decoded, done⟩ := bind_eq_ok.mp restored
      obtain rfl := Except.ok.inj done
      exact decode_decoded (wrapErr_eq_ok.mp decoded)

theorem restoreConjTx_decoded {cached : ConjIdxCache} {c : ConjTx} (run : restoreConjTx fields docID cached = .ok c) :
    ∀ tx ∈ c.txs, tx.data.Decoded := by
  obtain ⟨conjID, _, rest⟩ := bind_eq_ok.mp run
  obtain ⟨groups, restored, done⟩ := bind_eq_ok.mp rest
  obtain rfl := Except.ok.inj done
  intro tx mem
  obtain ⟨group, hgroup, mem⟩ := List.mem_flatten.mp mem
  obtain ⟨fieldTx, _, restored⟩ := mem_mapM restored hgroup
  exact restoreTxs_decoded restored tx mem

/-- Before a failed restore stands every conjunction that can be restored. -/
theorem Store.restore_failed {s s' : Store} {cached : List ConjIdxCache} {err : GoError}
    (run : s.restore fields docID cached = .ok (s', .error err)) :
    ∃ cs, (cached.takeWhile (restorable fields docID)).mapM (restoreConjTx fields docID) = .ok cs ∧
      cs.foldlM Store.commitConj s = .ok s' := by
  obtain ⟨pre, c, post, s₁, us, rfl, before, failed⟩ := mapCalls_error (andThen_error run)
  obtain ⟨cs, restored, commits⟩ := Store.restoreConjs_ok before
  rcases Store.restoreConj_cases failed with ⟨_, stops, rfl, _⟩ | ⟨_, _, _, absurd⟩
  · refine ⟨cs, ?_, commits⟩
    have restores : ∀ c ∈ pre, restorable fields docID c = true := by
      intro c mem
      obtain ⟨ctx, _, ok⟩ := mapM_mem restored mem
      rw [restorable, ok]
      rfl
    have stuck : ¬ restorable fields docID c = true := by
      rw [restorable, stops]
      exact Bool.false_ne_true
    rw [List.takeWhile_append_of_pos restores, List.takeWhile_cons_of_neg stuck, List.append_nil]
    exact restored
  · cases absurd

end Restore

namespace IndexerBuilder

theorem WF.wide {b : IndexerBuilder} (wf : b.WF) : b.store.Wide := by
  intro k f
  simp only [store, EntriesContainer.postings]
  cases known : b.fieldsData.find f with
  | none => trivial
  | some desc =>
    dsimp only
    cases held : (b.indexer.container k).heldBy desc with
    | none => trivial
    | some h =>
      have of := EntriesContainer.heldBy_of (wf.fits k) known held
      cases h with
      | range h =>
        obtain ⟨_, _, min, max⟩ := of.range_eq
        exact ⟨min ▸ Int64.minValue_le 0, max ▸ by decide⟩
      | _ => trivial

variable [FloatOps] [Codec] [AhoMachine]

/-- A failed restore leaves the posting lists as they were exactly if every conjunction before the
one that fails is ignored by them: its size is not 0, and its data is empty or, for an interval of a
compiled index, without effect. -/
theorem addDocIndexingData_unchanged_iff {option : BuilderOption} {ops : List Op} {b b' : IndexerBuilder}
    {cached : DocIdxCache} {err : GoError} (reached : run option ops = .ok b)
    (failed : b.addDocIndexingData cached = .ok (b', .error err)) :
    b'.store = b.store ↔
      ∀ c ∈ cached.conjIdxCaches.takeWhile (restorable b.fieldsData.containers cached.docID),
        ∀ tx, restoreConjTx b.fieldsData.containers cached.docID c = .ok tx → b.store.ignoresConj tx := by
  have wf := run_wf reached
  have follows := addDocIndexingData_follows wf.shows cached
  rw [failed] at follows
  obtain ⟨s', shows', restore⟩ := follows.returns_left
  obtain ⟨cs, restored, commits⟩ := Store.restore_failed restore
  have swells := foldlM_swells (fun c mem s s' wide run => by
    obtain ⟨cached, _, restored⟩ := mem_mapM restored mem
    exact Store.commitConj_swells (restoreConjTx_decoded restored) wide run) wf.wide commits
  rw [shows'.store, swells.2.unchanged_iff]
  constructor
  · intro ignored c mem tx restored'
    obtain ⟨ctx, hctx, same⟩ := mapM_mem restored mem
    obtain rfl := Except.ok.inj (restored'.symm.trans same)
    exact ignored tx hctx
  · intro ignored c mem
    obtain ⟨cached, hcached, restored⟩ := mem_mapM restored mem
    exact ignored cached hcached c restored

omit [FloatOps] [Codec] [AhoMachine] in
/-- A conjunction without fields before one with a field that is not configured. -/
theorem addDocIndexingData_unchanged_by_empty :
    letI := FloatOps.noFloats
    letI := Codec.single [] [] ⟨.eq, false, []⟩ []
    letI := AhoMachine.naive
    let cached : DocIdxCache := ⟨1, 1, 0, [⟨0, 1, 0, []⟩, ⟨1, 1, 0, [⟨str "city", []⟩]⟩]⟩
    ∃ b b' err, run ⟨.default, .error, none⟩ [] = .ok b ∧ b.addDocIndexingData cached = .ok (b', .error err) ∧
      b'.store = b.store := by
  let _ := FloatOps.noFloats
  let _ := Codec.single [] [] ⟨.eq, false, []⟩ []
  let _ := AhoMachine.naive
  intro cached
  obtain ⟨b, reached, fields, b', err, failed, _⟩ : ∃ b, run ⟨.default, .error, none⟩ [] = .ok b ∧
      b.fieldsData = .empty ∧ ∃ b' err, b.addDocIndexingData cached = .ok (b', .error err) ∧ true = true :=
    ⟨_, rfl, rfl, failed_iff.mp (by decide +kernel)⟩
  refine ⟨b, b', err, reached, failed, (addDocIndexingData_unchanged_iff reached failed).mpr ?_⟩
  rw [fields]
  intro c mem tx restored
  have first : cached.conjIdxCaches.takeWhile (restorable FieldTable.empty.containers cached.docID) =
      [⟨0, 1, 0, []⟩] := by decide +kernel
  rw [first, List.mem_singleton] at mem
  subst mem
  obtain rfl := Except.ok.inj restored
  exact ⟨by decide, by simp⟩

omit [FloatOps] [Codec] [AhoMachine] in
/-- A conjunction of size 0 stays on the wildcard list when a later one cannot be restored. -/
theorem addDocIndexingData_leaves_wildcard :
    letI := FloatOps.noFloats
    letI := Codec.single [] [] ⟨.eq, false, []⟩ []
    letI := AhoMachine.naive
    let cached : DocIdxCache := ⟨1, 1, 0, [⟨0, 0, 0, []⟩, ⟨1, 1, 0, [⟨str "city", []⟩]⟩]⟩
    ∃ b b' err, run ⟨.default, .error, none⟩ [] = .ok b ∧ b.addDocIndexingData cached = .ok (b', .error err) ∧
      b.store.wildcard = [] ∧ b'.store.wildcard.length = 1 := by
  let _ := FloatOps.noFloats
  let _ := Codec.single [] [] ⟨.eq, false, []⟩ []
  let _ := AhoMachine.naive
  intro cached
  obtain ⟨b, reached, empty, b', err, failed, one⟩ : ∃ b, run ⟨.default, .error, none⟩ [] = .ok b ∧
      b.store.wildcard = [] ∧ ∃ b' err, b.addDocIndexingData cached = .ok (b', .error err) ∧
        decide (b'.store.wildcard.length = 1) = true :=
    ⟨_, rfl, rfl, failed_iff.mp (by decide +kernel)⟩
  exact ⟨b, b', err, reached, failed, empty, of_decide_eq_true one⟩

end IndexerBuilder

end BeIndexer
