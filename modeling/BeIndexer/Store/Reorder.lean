import BeIndexer.Store

/-!
# Commits in another order

The fields of a conjunction come out of a map, so a restored conjunction may hold them in another
order than a prepared one. Only the order within a field matters: the posting lists of a field depend
on the data of that field alone.
-/

namespace BeIndexer

def txsOf (f : BEField) (txs : List Tx) : List Tx := txs.filter fun tx => tx.field == f

theorem txsOf_cons_self (tx : Tx) (txs : List Tx) : txsOf tx.field (tx :: txs) = tx :: txsOf tx.field txs :=
  List.filter_cons_of_pos (by simp)

theorem txsOf_cons_ne {f : BEField} {tx : Tx} (other : f ≠ tx.field) (txs : List Tx) :
    txsOf f (tx :: txs) = txsOf f txs :=
  List.filter_cons_of_neg (by simpa using Ne.symm other)

theorem mem_txsOf {f : BEField} {tx : Tx} {txs : List Tx} : tx ∈ txsOf f txs ↔ tx ∈ txs ∧ tx.field = f := by
  simp [txsOf]

def Postings.commitAll (p : Postings) (txs : List Tx) : Go Postings :=
  txs.foldlM (fun p tx => Store.commitPostings p tx.eid tx.data) p

/-- Conjunctions that differ in the order of their fields. -/
structure ConjTx.Same (c d : ConjTx) : Prop where
  incSize : c.incSize = d.incSize
  conjID : c.conjID = d.conjID
  txs : ∀ f, txsOf f c.txs = txsOf f d.txs

def ConjTx.Sized (c : ConjTx) : Prop := ∀ tx ∈ c.txs, tx.k = c.conjID.size

theorem ConjTx.Same.symm {c d : ConjTx} (same : c.Same d) : d.Same c :=
  ⟨same.incSize.symm, same.conjID.symm, fun f => (same.txs f).symm⟩

theorem ConjTx.Same.trans {c d e : ConjTx} (first : c.Same d) (second : d.Same e) : c.Same e :=
  ⟨first.incSize.trans second.incSize, first.conjID.trans second.conjID,
    fun f => (first.txs f).trans (second.txs f)⟩

theorem ConjTx.Same.sized {c d : ConjTx} (same : c.Same d) (sized : c.Sized) : d.Sized := by
  intro tx mem
  have here : tx ∈ txsOf tx.field c.txs := by
    rw [same.txs]
    exact mem_txsOf.mpr ⟨mem, rfl⟩
  rw [sized tx (mem_txsOf.mp here).1, same.conjID]

namespace Store

variable {s s' : Store} {k : Nat} {txs : List Tx}

theorem put_posts_self (s : Store) (k : Nat) (f : BEField) (p : Postings) : (s.put k f p).posts k f = p := by
  simp [put, Slot]

theorem put_posts_ne (s : Store) {k : Nat} {f g : BEField} (p : Postings) (other : g ≠ f) (k' : Nat) :
    (s.put k f p).posts k' g = s.posts k' g := by
  simp [put, other]

theorem put_posts_size (s : Store) {k k' : Nat} (f : BEField) (p : Postings) (other : ¬ s.Slot k k') :
    (s.put k f p).posts k' = s.posts k' := by
  funext g
  simp [put, other]

theorem commitTxs_posts (sized : ∀ tx ∈ txs, tx.k = k) (run : txs.foldlM commitTx s = .ok s') :
    s'.compact = s.compact ∧ s'.wildcard = s.wildcard ∧ (∀ k', ¬ s.Slot k k' → s'.posts k' = s.posts k') ∧
      ∀ f, (s.posts k f).commitAll (txsOf f txs) = .ok (s'.posts k f) := by
  induction txs generalizing s with
  | nil =>
    obtain rfl := Except.ok.inj run
    exact ⟨rfl, rfl, fun _ _ => rfl, fun _ => rfl⟩
  | cons tx txs ih =>
    obtain ⟨here, later⟩ := List.forall_mem_cons.mp sized
    subst here
    rw [List.foldlM_cons] at run
    obtain ⟨s₁, first, rest⟩ := bind_eq_ok.mp run
    obtain ⟨p, committed, done⟩ := bind_eq_ok.mp first
    obtain rfl := Except.ok.inj done
    obtain ⟨compact, wildcard, frame, posts⟩ := ih later rest
    refine ⟨compact, wildcard, fun k' other => ?_, fun f => ?_⟩
    · rw [frame k' other, put_posts_size s _ _ other]
    · by_cases same : f = tx.field
      · subst same
        have after := posts tx.field
        rw [put_posts_self] at after
        rw [txsOf_cons_self, Postings.commitAll, List.foldlM_cons, committed]
        exact after
      · rw [txsOf_cons_ne same, ← posts f, put_posts_ne _ _ same]

theorem commitTxs_runs (sized : ∀ tx ∈ txs, tx.k = k)
    (each : ∀ f, ∃ p, (s.posts k f).commitAll (txsOf f txs) = .ok p) : ∃ s', txs.foldlM commitTx s = .ok s' := by
  induction txs generalizing s with
  | nil => exact ⟨s, rfl⟩
  | cons tx txs ih =>
    obtain ⟨here, later⟩ := List.forall_mem_cons.mp sized
    subst here
    obtain ⟨p, committed⟩ := each tx.field
    rw [txsOf_cons_self, Postings.commitAll, List.foldlM_cons] at committed
    obtain ⟨p₁, first, rest⟩ := bind_eq_ok.mp committed
    have step : s.commitTx tx = .ok (s.put tx.k tx.field p₁) := bind_eq_ok.mpr ⟨p₁, first, rfl⟩
    obtain ⟨s', run⟩ := ih (s := s.put tx.k tx.field p₁) later fun f => by
      by_cases same : f = tx.field
      · subst same
        rw [put_posts_self]
        exact ⟨p, rest⟩
      · rw [put_posts_ne _ _ same]
        obtain ⟨q, run⟩ := each f
        rw [txsOf_cons_ne same] at run
        exact ⟨q, run⟩
    refine ⟨s', ?_⟩
    rw [List.foldlM_cons, step]
    exact run

theorem commitTxs_same {txs' : List Tx} (sized : ∀ tx ∈ txs, tx.k = k) (sized' : ∀ tx ∈ txs', tx.k = k)
    (same : ∀ f, txsOf f txs = txsOf f txs') (run : txs.foldlM commitTx s = .ok s') :
    txs'.foldlM commitTx s = .ok s' := by
  obtain ⟨compact, wildcard, frame, posts⟩ := commitTxs_posts sized run
  obtain ⟨s'', run'⟩ := commitTxs_runs sized' fun f => ⟨_, same f ▸ posts f⟩
  obtain ⟨compact', wildcard', frame', posts'⟩ := commitTxs_posts sized' run'
  rw [run']
  congr 1
  ext1
  · rw [compact', compact]
  · rw [wildcard', wildcard]
  · funext k'
    by_cases slot : s.Slot k k'
    · have here : ∀ s₁ : Store, s₁.compact = s.compact → s₁.posts k' = s₁.posts k := by
        intro s₁ sameKind
        rcases slot with isCompact | rfl
        · exact s₁.shared (sameKind.trans isCompact) _ _
        · rfl
      rw [here s'' compact', here s' compact]
      funext f
      exact Except.ok.inj ((posts' f).symm.trans (same f ▸ posts f))
    · rw [frame' k' slot, frame k' slot]

/-- The order of the fields of a conjunction does not matter. -/
theorem commitConj_same {c d : ConjTx} (sized : c.Sized) (same : c.Same d) (run : s.commitConj c = .ok s') :
    s.commitConj d = .ok s' := by
  unfold commitConj at run ⊢
  rw [← same.incSize, ← same.conjID]
  exact commitTxs_same sized (same.conjID ▸ same.sized sized) same.txs run

theorem commitConjs_same {cs ds : List ConjTx} (sized : ∀ c ∈ cs, c.Sized) (same : List.Forall₂ ConjTx.Same cs ds)
    (run : cs.foldlM commitConj s = .ok s') : ds.foldlM commitConj s = .ok s' := by
  induction same generalizing s with
  | nil => exact run
  | cons head _ ih =>
    obtain ⟨here, later⟩ := List.forall_mem_cons.mp sized
    rw [List.foldlM_cons] at run ⊢
    obtain ⟨s₁, first, rest⟩ := bind_eq_ok.mp run
    rw [commitConj_same here head first]
    exact ih later rest

end Store

end BeIndexer
