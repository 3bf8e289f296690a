import BeIndexer.Retrieval.Hits
import BeIndexer.Store.Prepare

/-!
# Conjunctions that a query satisfies

A conjunction is hit exactly when the query satisfies it. Its size is the number of fields with an
include expression, so meeting as many fields as its size means meeting all of them.
-/

namespace BeIndexer

open Leapfrog FieldCursors

/-- The conjunction as `indexingConjunction` makes it: all data goes to the lists of its size, under
its own entry ids, and its size is the number of fields with include data. -/
structure ConjTx.Formed (c : ConjTx) : Prop where
  valid : ValidConjID c.conjID
  size : c.conjID.size = c.incSize
  sized : ∀ tx ∈ c.txs, tx.k = c.incSize
  entries : ∀ tx ∈ c.txs, ∃ incl, tx.eid = newEntryID c.conjID incl
  includes : ∃ fields : List BEField, fields.Nodup ∧ fields.length = c.incSize ∧
    ∀ f, f ∈ fields ↔ ∃ tx ∈ c.txs, tx.field = f ∧ tx.eid.isInclude = true

variable [FloatOps]

def Tx.MatchedBy (q : Assignments) (tx : Tx) : Prop := ∃ v, q.lookup tx.field = some v ∧ tx.data.Matches v

structure ConjTx.SatisfiedBy (q : Assignments) (c : ConjTx) : Prop where
  includes : ∀ tx ∈ c.txs, tx.eid.isInclude = true →
    ∃ tx' ∈ c.txs, tx'.field = tx.field ∧ tx'.eid.isInclude = true ∧ tx'.MatchedBy q
  excludes : ∀ tx ∈ c.txs, tx.eid.isInclude = false → ¬ tx.MatchedBy q

theorem matchedBy_iff {q : Assignments} {tx : Tx} :
    tx.MatchedBy q ↔ ∃ a ∈ q.entries, tx.field = a.1 ∧ tx.data.Matches a.2 := by
  constructor
  · rintro ⟨v, found, matched⟩
    exact ⟨⟨tx.field, v⟩, AList.mem_lookup_iff.mp found, rfl, matched⟩
  · rintro ⟨⟨f, v⟩, mem, rfl, matched⟩
    exact ⟨v, AList.mem_lookup_iff.mpr mem, matched⟩

omit [FloatOps] in
theorem ConjTx.Formed.getConjID {c : ConjTx} (formed : c.Formed) {tx : Tx} (mem : tx ∈ c.txs) :
    tx.eid.getConjID = c.conjID := by
  obtain ⟨incl, eid⟩ := formed.entries tx mem
  rw [eid, getConjID_newEntryID formed.valid]

/-! ### Hits -/

section Hits

/-- The answers of a scan over the conjunctions of `part`. -/
structure Scanned (part : List ConjTx) (q : Assignments) (zeros : Set EntryID)
    (answer : (Sigma fun _ : BEField => Value) → Set EntryID) : Prop where
  formed : ∀ c ∈ part, c.Formed
  -- conjunctions under one id have the same data
  single : ∀ c ∈ part, ∀ d ∈ part, c.conjID = d.conjID → ∀ tx ∈ d.txs, tx ∈ c.txs
  zeros : ∀ e, e ∈ zeros ↔ ∃ c ∈ part, c.incSize = 0 ∧ e = newEntryID c.conjID true
  answers : ∀ a ∈ q.entries, ∀ e, e ∈ answer a ↔
    ∃ c ∈ part, ∃ tx ∈ c.txs, tx.field = a.1 ∧ tx.eid = e ∧ tx.data.Matches a.2

variable {part : List ConjTx} {q : Assignments} {zeros : Set EntryID}
  {answer : (Sigma fun _ : BEField => Value) → Set EntryID} {c : ConjTx}

theorem Scanned.answer_iff (scanned : Scanned part q zeros answer) (mem : c ∈ part)
    {a : Sigma fun _ : BEField => Value} (ha : a ∈ q.entries) (e : EntryID) :
    (e ∈ answer a ∧ e.getConjID = c.conjID) ↔ ∃ tx ∈ c.txs, tx.field = a.1 ∧ tx.eid = e ∧ tx.data.Matches a.2 := by
  rw [scanned.answers a ha]
  constructor
  · rintro ⟨⟨d, hd, tx, htx, field, rfl, matched⟩, same⟩
    rw [(scanned.formed d hd).getConjID htx] at same
    exact ⟨tx, scanned.single c mem d hd same.symm tx htx, field, rfl, matched⟩
  · rintro ⟨tx, htx, field, rfl, matched⟩
    exact ⟨⟨c, mem, tx, htx, field, rfl, matched⟩, (scanned.formed c mem).getConjID htx⟩

theorem Scanned.zeros_iff (scanned : Scanned part q zeros answer) (mem : c ∈ part) (e : EntryID) :
    (e ∈ zeros ∧ e.getConjID = c.conjID) ↔ c.incSize = 0 ∧ e = newEntryID c.conjID true := by
  rw [scanned.zeros]
  constructor
  · rintro ⟨⟨d, hd, zero, rfl⟩, same⟩
    rw [getConjID_newEntryID (scanned.formed d hd).valid] at same
    have sizes : d.incSize = c.incSize := by
      rw [← (scanned.formed d hd).size, same, (scanned.formed c mem).size]
    exact ⟨sizes ▸ zero, by rw [same]⟩
  · rintro ⟨zero, rfl⟩
    exact ⟨⟨c, mem, zero, rfl⟩, getConjID_newEntryID (scanned.formed c mem).valid true⟩

theorem Scanned.vetoes (scanned : Scanned part q zeros answer) (mem : c ∈ part) :
    (∀ t ∈ (zeros :: q.entries.map answer).map Tape.unread, ∀ e ∈ t.all, byConj.key e = c.conjID → ¬ byConj.veto e) ↔
      ∀ tx ∈ c.txs, tx.eid.isInclude = false → ¬ tx.MatchedBy q := by
  constructor
  · intro none tx htx excl matched
    obtain ⟨a, ha, field, matched⟩ := matchedBy_iff.mp matched
    obtain ⟨found, key⟩ := (scanned.answer_iff mem ha tx.eid).mpr ⟨tx, htx, field, rfl, matched⟩
    refine none (Tape.unread (answer a)) ?_ tx.eid found key excl
    exact List.mem_map_of_mem (List.mem_cons_of_mem _ (List.mem_map_of_mem ha))
  · intro none t ht e he key veto
    obtain ⟨s, hs, rfl⟩ := List.mem_map.mp ht
    rcases List.mem_cons.mp hs with rfl | later
    · obtain ⟨_, rfl⟩ := (scanned.zeros_iff mem e).mp ⟨he, key⟩
      rw [show byConj.veto _ ↔ _ from Iff.rfl] at veto
      simp only [byConj, isInclude_newEntryID (scanned.formed c mem).valid, Bool.true_eq_false] at veto
    · obtain ⟨a, ha, rfl⟩ := List.mem_map.mp later
      obtain ⟨tx, htx, field, rfl, matched⟩ := (scanned.answer_iff mem ha e).mp ⟨he, key⟩
      exact none tx htx veto (matchedBy_iff.mpr ⟨a, ha, field, matched⟩)

open Classical in
/-- The assignments of the query that match include data of the conjunction. -/
noncomputable def ConjTx.metBy (q : Assignments) (c : ConjTx) : List (Sigma fun _ : BEField => Value) :=
  q.entries.filter fun a => decide (∃ tx ∈ c.txs, tx.field = a.1 ∧ tx.eid.isInclude = true ∧ tx.data.Matches a.2)

theorem ConjTx.mem_metBy {a : Sigma fun _ : BEField => Value} :
    a ∈ c.metBy q ↔ a ∈ q.entries ∧ ∃ tx ∈ c.txs, tx.field = a.1 ∧ tx.eid.isInclude = true ∧ tx.data.Matches a.2 := by
  simp [ConjTx.metBy]

/-- As many assignments match as the conjunction has fields with include data exactly when all of
these fields are met. -/
theorem ConjTx.Formed.metBy_enough (formed : c.Formed) :
    c.incSize ≤ (c.metBy q).length ↔ ∀ tx ∈ c.txs, tx.eid.isInclude = true →
      ∃ tx' ∈ c.txs, tx'.field = tx.field ∧ tx'.eid.isInclude = true ∧ tx'.MatchedBy q := by
  obtain ⟨fields, nodup, length, members⟩ := formed.includes
  have distinct : ((c.metBy q).map Sigma.fst).Nodup := q.nodupKeys.sublist List.filter_sublist
  have inside : ((c.metBy q).map Sigma.fst) ⊆ fields := by
    intro f hf
    obtain ⟨a, ha, rfl⟩ := List.mem_map.mp hf
    obtain ⟨_, tx, htx, field, incl, _⟩ := ConjTx.mem_metBy.mp ha
    exact (members a.1).mpr ⟨tx, htx, field, incl⟩
  have met : ∀ f, f ∈ (c.metBy q).map Sigma.fst ↔
      ∃ tx ∈ c.txs, tx.field = f ∧ tx.eid.isInclude = true ∧ tx.MatchedBy q := by
    intro f
    constructor
    · intro hf
      obtain ⟨a, ha, rfl⟩ := List.mem_map.mp hf
      obtain ⟨mem, tx, htx, field, incl, matched⟩ := ConjTx.mem_metBy.mp ha
      exact ⟨tx, htx, field, incl, matchedBy_iff.mpr ⟨a, mem, field, matched⟩⟩
    · rintro ⟨tx, htx, rfl, incl, matched⟩
      obtain ⟨a, mem, field, matched⟩ := matchedBy_iff.mp matched
      rw [field]
      exact List.mem_map_of_mem (ConjTx.mem_metBy.mpr ⟨mem, tx, htx, field, incl, matched⟩)
  have same : ((c.metBy q).map Sigma.fst).length = (c.metBy q).length := List.length_map _
  rw [← length, ← same]
  constructor
  · intro enough tx htx incl
    have perm := (List.subperm_of_subset distinct inside).perm_of_length_le enough
    have listed := perm.mem_iff.mpr ((members tx.field).mpr ⟨tx, htx, rfl, incl⟩)
    exact (met tx.field).mp listed
  · intro all
    refine (List.subperm_of_subset nodup fun f hf => ?_).length_le
    obtain ⟨tx, htx, rfl, incl⟩ := (members f).mp hf
    exact (met tx.field).mpr (all tx htx incl)

/-- The number of tapes that hold entries of a conjunction no exclude data of which is matched. -/
theorem Scanned.count_holds (scanned : Scanned part q zeros answer) (mem : c ∈ part)
    (excludes : ∀ tx ∈ c.txs, tx.eid.isInclude = false → ¬ tx.MatchedBy q) :
    count (byConj.Holds c.conjID) ((zeros :: q.entries.map answer).map Tape.unread) =
      (if c.incSize = 0 then 1 else 0) + (c.metBy q).length := by
  classical
  have first : byConj.Holds c.conjID (Tape.unread zeros) ↔ c.incSize = 0 := by
    constructor
    · rintro ⟨e, he, key⟩
      exact ((scanned.zeros_iff mem e).mp ⟨he, key⟩).1
    · intro zero
      obtain ⟨found, key⟩ := (scanned.zeros_iff mem _).mpr ⟨zero, rfl⟩
      exact ⟨_, found, key⟩
  have later : ∀ a ∈ q.entries, byConj.Holds c.conjID (Tape.unread (answer a)) ↔
      ∃ tx ∈ c.txs, tx.field = a.1 ∧ tx.eid.isInclude = true ∧ tx.data.Matches a.2 := by
    intro a ha
    constructor
    · rintro ⟨e, he, key⟩
      obtain ⟨tx, htx, field, rfl, matched⟩ := (scanned.answer_iff mem ha e).mp ⟨he, key⟩
      refine ⟨tx, htx, field, ?_, matched⟩
      by_contra excl
      exact excludes tx htx (by simpa using excl) (matchedBy_iff.mpr ⟨a, ha, field, matched⟩)
    · rintro ⟨tx, htx, field, _, matched⟩
      obtain ⟨found, key⟩ := (scanned.answer_iff mem ha tx.eid).mpr ⟨tx, htx, field, rfl, matched⟩
      exact ⟨tx.eid, found, key⟩
  have split : (zeros :: q.entries.map answer).map Tape.unread =
      [Tape.unread zeros] ++ (q.entries.map answer).map Tape.unread := rfl
  rw [split, count_append]
  congr 1
  · by_cases zero : c.incSize = 0
    · rw [if_pos zero, count_eq_length (by simpa using first.mpr zero)]
      rfl
    · rw [if_neg zero]
      exact count_eq_zero (by simpa using fun h => zero (first.mp h))
  · rw [count, List.map_map, List.countP_map, List.countP_eq_length_filter, ConjTx.metBy]
    congr 1
    refine List.filter_congr fun a ha => ?_
    simpa using later a ha

/-- A scan hits exactly the conjunctions that the query satisfies. -/
theorem Scanned.hit_iff (scanned : Scanned part q zeros answer) {need : ConjID → Nat}
    (needs : ∀ c ∈ part, need c.conjID = max c.incSize 1) (positive : ∀ id, 0 < need id) (id : ConjID) :
    Hit byConj need ((zeros :: q.entries.map answer).map Tape.unread) id ↔
      ∃ c ∈ part, c.conjID = id ∧ c.SatisfiedBy q := by
  have each : ∀ c ∈ part, Hit byConj need ((zeros :: q.entries.map answer).map Tape.unread) c.conjID ↔
    c.SatisfiedBy q := by
    intro c mem
    rw [Hit, scanned.vetoes mem, needs c mem]
    have formed := scanned.formed c mem
    constructor
    · rintro ⟨enough, excludes⟩
      rw [scanned.count_holds mem excludes] at enough
      refine ⟨formed.metBy_enough.mp ?_, excludes⟩
      split at enough <;> omega
    · intro satisfied
      refine ⟨?_, satisfied.excludes⟩
      have met := formed.metBy_enough.mpr satisfied.includes
      rw [scanned.count_holds mem satisfied.excludes]
      split <;> omega
  constructor
  · intro hit
    -- some tape holds an entry of the conjunction, so there is one
    have some : ∃ t ∈ (zeros :: q.entries.map answer).map Tape.unread, byConj.Holds id t := by
      by_contra none
      have zero : count (byConj.Holds id) ((zeros :: q.entries.map answer).map Tape.unread) = 0 :=
        count_eq_zero fun t ht holds => none ⟨t, ht, holds⟩
      have enough := hit.1
      have := positive id
      omega
    have found : ∃ c ∈ part, c.conjID = id := by
      obtain ⟨t, ht, e, he, key⟩ := some
      have key : e.getConjID = id := key
      obtain ⟨s, hs, rfl⟩ := List.mem_map.mp ht
      rcases List.mem_cons.mp hs with rfl | later
      · obtain ⟨c, mem, _, rfl⟩ := (scanned.zeros e).mp he
        exact ⟨c, mem, by rw [← key, getConjID_newEntryID (scanned.formed c mem).valid]⟩
      · obtain ⟨a, ha, rfl⟩ := List.mem_map.mp later
        obtain ⟨c, mem, tx, htx, _, rfl, _⟩ := (scanned.answers a ha e).mp he
        exact ⟨c, mem, by rw [← key, (scanned.formed c mem).getConjID htx]⟩
    obtain ⟨c, mem, rfl⟩ := found
    exact ⟨c, mem, rfl, (each c mem).mp hit⟩
  · rintro ⟨c, mem, rfl, satisfied⟩
    exact (each c mem).mpr satisfied

end Hits

/-! ### Stores that hold given conjunctions -/

namespace Store

variable {s : Store} {all : List ConjTx} {q : Assignments}

/-- Conjunctions under one id have the same data. -/
def Single (all : List ConjTx) : Prop := ∀ c ∈ all, ∀ d ∈ all, c.conjID = d.conjID → ∀ tx ∈ d.txs, tx ∈ c.txs

theorem Keeps.answer_iff (keeps : s.Keeps all) (k : Nat) (a : Sigma fun _ : BEField => Value) (e : EntryID) :
    e ∈ s.answer k a ↔
      ∃ c ∈ all, ∃ tx ∈ c.txs, s.Slot tx.k k ∧ tx.field = a.1 ∧ tx.eid = e ∧ tx.data.Matches a.2 := by
  have answers := keeps.recalls.answers k a.1 a.2 e
  rw [show e ∈ s.answer k a ↔ _ from answers]
  simp only [List.mem_flatMap]
  constructor
  · rintro ⟨tx, ⟨c, mem, htx⟩, matched⟩
    exact ⟨c, mem, tx, htx, matched⟩
  · rintro ⟨c, mem, tx, htx, matched⟩
    exact ⟨tx, ⟨c, mem, htx⟩, matched⟩

theorem Keeps.usable (keeps : s.Keeps all) (formed : ∀ c ∈ all, c.Formed) : s.Usable where
  served k f := (keeps.recalls.standard k f).served
  valid k f v e found := by
    obtain ⟨c, mem, tx, htx, _, _, rfl, _⟩ := (keeps.answer_iff k ⟨f, v⟩ e).mp found
    obtain ⟨incl, eid⟩ := (formed c mem).entries tx htx
    exact ⟨c.conjID, incl, (formed c mem).valid, eid⟩
  zeros e he := by
    obtain ⟨c, mem, _, eid⟩ := (keeps.wildcard e).mp he
    exact ⟨c.conjID, true, (formed c mem).valid, eid⟩

theorem Keeps.scannedAt (keeps : s.Keeps all) (grouped : s.compact = false) (formed : ∀ c ∈ all, c.Formed)
    (single : Single all) (k : Nat) (q : Assignments) :
    Scanned (all.filter fun c => c.incSize = k) q (s.zeros k) (s.answer k) where
  formed c mem := formed c (List.mem_filter.mp mem).1
  single c hc d hd := single c (List.mem_filter.mp hc).1 d (List.mem_filter.mp hd).1
  zeros e := by
    rw [zeros, Set.mem_ofPred_eq, keeps.wildcard e]
    simp only [List.mem_filter, decide_eq_true_eq]
    constructor
    · rintro ⟨rfl, c, mem, zero, eid⟩
      exact ⟨c, ⟨mem, zero⟩, zero, eid⟩
    · rintro ⟨c, ⟨mem, size⟩, zero, eid⟩
      exact ⟨size.symm.trans zero, c, mem, zero, eid⟩
  answers a _ e := by
    rw [keeps.answer_iff]
    simp only [List.mem_filter, decide_eq_true_eq]
    constructor
    · rintro ⟨c, mem, tx, htx, slot, matched⟩
      rcases slot with compact | here
      · rw [grouped] at compact
        cases compact
      · exact ⟨c, ⟨mem, ((formed c mem).sized tx htx).symm.trans here⟩, tx, htx, matched⟩
    · rintro ⟨c, ⟨mem, size⟩, tx, htx, matched⟩
      exact ⟨c, mem, tx, htx, Or.inr (((formed c mem).sized tx htx).trans size), matched⟩

theorem Keeps.scannedAll (keeps : s.Keeps all) (compact : s.compact = true) (formed : ∀ c ∈ all, c.Formed)
    (single : Single all) (q : Assignments) : Scanned all q (s.zeros 0) (s.answer 0) where
  formed := formed
  single := single
  zeros e := by
    rw [zeros, Set.mem_ofPred_eq, keeps.wildcard e]
    simp
  answers a _ e := by
    rw [keeps.answer_iff]
    simp [Slot, compact]

theorem Keeps.hitsAt_iff (keeps : s.Keeps all) (grouped : s.compact = false) (formed : ∀ c ∈ all, c.Formed)
    (single : Single all) (k : Nat) (id : ConjID) :
    s.HitsAt k q id ↔ ∃ c ∈ all, c.incSize = k ∧ c.conjID = id ∧ c.SatisfiedBy q := by
  rw [HitsAt, (keeps.scannedAt grouped formed single k q).hit_iff]
  · simp only [List.mem_filter, decide_eq_true_eq, and_assoc]
  · intro c mem
    have size : c.incSize = k := by simpa using (List.mem_filter.mp mem).2
    rw [size]
  · intro id
    omega

theorem Keeps.hitsAll_iff (keeps : s.Keeps all) (compact : s.compact = true) (formed : ∀ c ∈ all, c.Formed)
    (single : Single all) (id : ConjID) :
    s.HitsAll q id ↔ ∃ c ∈ all, c.conjID = id ∧ c.SatisfiedBy q := by
  rw [HitsAll, (keeps.scannedAll compact formed single q).hit_iff]
  · intro c mem
    rw [needMatch, (formed c mem).size, max_comm]
  · exact needMatch_pos

end Store

/-! ### Prepared conjunctions -/

open IndexerBuilder (exprList) in
theorem prepareConjTx_formed {C : BEField → GoString} {B : BadConjBehavior} {docID : DocID} {conj : Conjunction × Nat}
    {c : ConjTx} (run : prepareConjTx C B docID conj = .ok (some c)) : c.Formed := by
  obtain ⟨packed, _, size, prepared⟩ := prepareConjTx_some run
  obtain ⟨valid, sizes, _, _⟩ := newConjID_fields packed
  have each : ∀ tx ∈ c.txs, ∃ expr ∈ exprList conj.1, prepareTx C c.conjID expr = .ok tx :=
    fun tx mem => mem_mapM prepared mem
  have same : c.conjID.size = c.incSize := by omega
  refine ⟨valid, same, fun tx mem => ?_, fun tx mem => ?_, conj.1.includeFields, conj.1.includeFields_nodup,
    ?_, fun f => ?_⟩
  · obtain ⟨expr, _, made⟩ := each tx mem
    rw [(prepareTx_ok made).2.1, same]
  · obtain ⟨expr, _, made⟩ := each tx mem
    exact ⟨expr.2.incl, prepareTx_eid made⟩
  · rw [conj.1.includeFields_length, size]
  · rw [Conjunction.mem_includeFields]
    constructor
    · rintro ⟨bv, hbv, incl⟩
      obtain ⟨tx, mem, made⟩ := mapM_mem prepared (mem_exprList.mpr hbv)
      refine ⟨tx, mem, (prepareTx_ok made).2.2, ?_⟩
      rw [prepareTx_eid made, isInclude_newEntryID valid]
      exact incl
    · rintro ⟨tx, mem, rfl, incl⟩
      obtain ⟨⟨f, bv⟩, hexpr, made⟩ := each tx mem
      rw [prepareTx_eid made, isInclude_newEntryID valid] at incl
      rw [(prepareTx_ok made).2.2]
      exact ⟨bv, mem_exprList.mp hexpr, incl⟩

end BeIndexer
