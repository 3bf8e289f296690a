import BeIndexer.Store

/-!
# What posting lists answer

A query value matches the data of an expression, and the posting lists of a field answer a query
value with entry ids. The posting lists of the default and of the range container, while they are
not compiled, answer with the ids of exactly the data that matches.
-/

namespace BeIndexer

variable [FloatOps]

/-- A query value shares a token with the data, or holds a value that its range covers. -/
def IndexingData.Matches (v : Value) : IndexingData → Prop
  | .strTokens values => ∃ tokens, tokenizeAssign v = .ok tokens ∧ ∃ token ∈ tokens, token ∈ values
  | .range data => ∃ ids, parseIntegers v newRangeHolderOption.enableFloat2Int = .ok ids ∧
      ∃ id ∈ ids, data.Covers Int64.minValue Int64.maxValue id
  | _ => False

omit [FloatOps] in
def IndexingData.Kept : IndexingData → Prop
  | .range data => data.operator ≠ .eq
  | _ => False

namespace Postings

/-- The posting lists, once compiled, give the entry id for a query value. -/
def Answers (v : Value) (e : EntryID) : Postings → Prop
  | .tokens entries => ∃ tokens, tokenizeAssign v = .ok tokens ∧ ∃ token ∈ tokens, e ∈ entries token
  | .range h => ∃ ids, parseIntegers v h.option.enableFloat2Int = .ok ids ∧ ∃ id ∈ ids, h.Covers id e
  | _ => False

omit [FloatOps] in
/-- Posting lists of the default or the range container that were never compiled. -/
def Open : Postings → Prop
  | .tokens _ => True
  | .range h => h.option = newRangeHolderOption ∧ h.rangeIdx.compiled = false ∧
      h.rangeIdx.valueMin = Int64.minValue ∧ h.rangeIdx.valueMax = Int64.maxValue
  | _ => False

omit [FloatOps] in
def Served : Postings → Prop
  | .tokens _ => True
  | .range _ => True
  | _ => False

omit [FloatOps] in
/-- Posting lists of the default container, or of the range container as the builder makes it. -/
def Standard : Postings → Prop
  | .tokens _ => True
  | .range h => h.option = newRangeHolderOption ∧ h.rangeIdx.valueMin = Int64.minValue ∧
      h.rangeIdx.valueMax = Int64.maxValue
  | _ => False

omit [FloatOps] in
def Compiled : Postings → Prop
  | .range h => h.rangeIdx.compiled = true
  | _ => False

omit [FloatOps] in
theorem open_iff {p : Postings} : p.Open ↔ p.Standard ∧ ¬ p.Compiled := by
  cases p with
  | tokens entries => simp [Open, Standard, Compiled]
  | range h =>
    simp only [Open, Standard, Compiled, Bool.not_eq_true]
    tauto
  | optimizedRange h => simp [Open, Standard]
  | acMatcher h => simp [Open, Standard]

omit [FloatOps] in
theorem Standard.served {p : Postings} (standard : p.Standard) : p.Served := by
  cases p with
  | tokens entries => trivial
  | range h => trivial
  | _ => exact standard

theorem empty_answers (v : Value) (e : EntryID) : ¬ empty.Answers v e := by
  rintro ⟨_, _, _, _, mem⟩
  exact absurd mem List.not_mem_nil

theorem extRange_answers (v : Value) (e : EntryID) : ¬ (Postings.range extRangeHolder).Answers v e := by
  rintro ⟨_, _, id, _, point | interval⟩
  · exact absurd point List.not_mem_nil
  · exact RangeIdx.fresh_covers (by decide) id e interval

theorem fresh_answers {container : GoString} (served : (fresh container).Served) (v : Value) (e : EntryID) :
    ¬ (fresh container).Answers v e := by
  cases made : newEntriesHolder container with
  | none =>
    rw [fresh, made]
    exact empty_answers v e
  | some h =>
    rw [fresh, made] at served ⊢
    unfold newEntriesHolder at made
    split_ifs at made
    · obtain rfl := Option.some.inj made
      exact empty_answers v e
    · obtain rfl := Option.some.inj made
      exact extRange_answers v e
    · obtain rfl := Option.some.inj made
      exact served.elim
    · obtain rfl := Option.some.inj made
      exact served.elim

omit [FloatOps] in
theorem commit_standard {p p' : Postings} {eid : EntryID} {data : IndexingData} (standard : p.Standard)
    (run : p.commit eid data = .ok p') : p'.Standard ∧ (p'.Compiled ↔ p.Compiled) := by
  cases p with
  | tokens entries =>
    cases data with
    | strTokens values =>
      obtain rfl := Except.ok.inj run
      exact ⟨trivial, Iff.rfl⟩
    | _ => cases run
  | range h =>
    cases data with
    | range data =>
      obtain ⟨h', committed, rfl⟩ := map_eq_ok.mp run
      obtain ⟨option, compiled, min, max⟩ := RangeHolder.commit_frame committed
      refine ⟨⟨option.trans standard.1, min.trans standard.2.1, max.trans standard.2.2⟩, ?_⟩
      rw [Compiled, Compiled, compiled]
    | _ => cases run
  | optimizedRange h => exact standard.elim
  | acMatcher h => exact standard.elim

theorem commit_answers {p p' : Postings} {eid : EntryID} {data : IndexingData} (standard : p.Standard)
    (placeable : p.Compiled → ¬ data.Kept) (run : p.commit eid data = .ok p') (v : Value) (e : EntryID) :
    p'.Answers v e ↔ p.Answers v e ∨ (e = eid ∧ data.Matches v) := by
  cases p with
  | tokens entries =>
    cases data with
    | strTokens values =>
      obtain rfl := Except.ok.inj run
      simp only [Answers, IndexingData.Matches]
      constructor
      · rintro ⟨tokens, tokenized, token, mem, he⟩
        by_cases shared : token ∈ values
        · rw [if_pos shared, List.mem_append, List.mem_singleton] at he
          rcases he with old | new
          · exact Or.inl ⟨tokens, tokenized, token, mem, old⟩
          · exact Or.inr ⟨new, tokens, tokenized, token, mem, shared⟩
        · rw [if_neg shared] at he
          exact Or.inl ⟨tokens, tokenized, token, mem, he⟩
      · rintro (⟨tokens, tokenized, token, mem, he⟩ | ⟨rfl, tokens, tokenized, token, mem, shared⟩)
        · refine ⟨tokens, tokenized, token, mem, ?_⟩
          split
          · exact List.mem_append_left _ he
          · exact he
        · refine ⟨tokens, tokenized, token, mem, ?_⟩
          rw [if_pos shared]
          exact List.mem_append_right _ List.mem_cons_self
    | _ => cases run
  | range h =>
    cases data with
    | range data =>
      obtain ⟨option, min, max⟩ := standard
      obtain ⟨h', committed, rfl⟩ := map_eq_ok.mp run
      have covers : ∀ id, h'.Covers id e ↔
        h.Covers id e ∨ (e = eid ∧ data.Covers Int64.minValue Int64.maxValue id) := by
        intro id
        rw [RangeHolder.commit_covers_iff (fun compiled => not_not.mp (placeable compiled)) committed, min, max]
      simp only [Answers, IndexingData.Matches, (RangeHolder.commit_frame committed).1, option, covers]
      constructor
      · rintro ⟨ids, parsed, id, mem, old | ⟨rfl, covered⟩⟩
        · exact Or.inl ⟨ids, parsed, id, mem, old⟩
        · exact Or.inr ⟨rfl, ids, parsed, id, mem, covered⟩
      · rintro (⟨ids, parsed, id, mem, old⟩ | ⟨rfl, ids, parsed, id, mem, covered⟩)
        · exact ⟨ids, parsed, id, mem, Or.inl old⟩
        · exact ⟨ids, parsed, id, mem, Or.inr ⟨rfl, covered⟩⟩
    | _ => cases run
  | optimizedRange h => exact standard.elim
  | acMatcher h => exact standard.elim

end Postings

/-! ### The store -/

namespace Store

structure Records (s : Store) (txs : List Tx) : Prop where
  opened : ∀ k f, (s.posts k f).Open
  answers : ∀ k f v e, (s.posts k f).Answers v e ↔
    ∃ tx ∈ txs, s.Slot tx.k k ∧ tx.field = f ∧ tx.eid = e ∧ tx.data.Matches v

structure Holds (s : Store) (all : List ConjTx) : Prop where
  records : s.Records (all.flatMap ConjTx.txs)
  wildcard : ∀ e, e ∈ s.wildcard ↔ ∃ c ∈ all, c.incSize = 0 ∧ e = newEntryID c.conjID true

structure Recalls (s : Store) (txs : List Tx) : Prop where
  standard : ∀ k f, (s.posts k f).Standard
  answers : ∀ k f v e, (s.posts k f).Answers v e ↔
    ∃ tx ∈ txs, s.Slot tx.k k ∧ tx.field = f ∧ tx.eid = e ∧ tx.data.Matches v

/-- The store answers with the conjunctions of `all`. -/
structure Keeps (s : Store) (all : List ConjTx) : Prop where
  recalls : s.Recalls (all.flatMap ConjTx.txs)
  wildcard : ∀ e, e ∈ s.wildcard ↔ ∃ c ∈ all, c.incSize = 0 ∧ e = newEntryID c.conjID true

omit [FloatOps] in
def Uncompiled (s : Store) : Prop := ∀ k f, ¬ (s.posts k f).Compiled

variable {s s' : Store} {txs : List Tx}

theorem holds_iff {all : List ConjTx} : s.Holds all ↔ s.Keeps all ∧ s.Uncompiled := by
  constructor
  · rintro ⟨⟨opened, answers⟩, wildcard⟩
    exact ⟨⟨⟨fun k f => (Postings.open_iff.mp (opened k f)).1, answers⟩, wildcard⟩,
      fun k f => (Postings.open_iff.mp (opened k f)).2⟩
  · rintro ⟨⟨⟨standard, answers⟩, wildcard⟩, uncompiled⟩
    exact ⟨⟨fun k f => Postings.open_iff.mpr ⟨standard k f, uncompiled k f⟩, answers⟩, wildcard⟩

theorem Holds.keeps {all : List ConjTx} (holds : s.Holds all) : s.Keeps all := (holds_iff.mp holds).1

omit [FloatOps] in
/-- Commits change neither the kind of the store nor which cells were compiled. -/
structure Extends (s s' : Store) : Prop where
  compact : s'.compact = s.compact
  compiled : ∀ k f, (s'.posts k f).Compiled → (s.posts k f).Compiled

omit [FloatOps] in
theorem Extends.refl (s : Store) : s.Extends s := ⟨rfl, fun _ _ compiled => compiled⟩

omit [FloatOps] in
theorem Extends.trans {s₁ s₂ s₃ : Store} (first : s₁.Extends s₂) (second : s₂.Extends s₃) : s₁.Extends s₃ :=
  ⟨second.compact.trans first.compact, fun k f compiled => first.compiled k f (second.compiled k f compiled)⟩

omit [FloatOps] in
theorem Extends.uncompiled (grows : s.Extends s') (uncompiled : s.Uncompiled) : s'.Uncompiled :=
  fun k f compiled => uncompiled k f (grows.compiled k f compiled)

omit [FloatOps] in
/-- There are cells for every range of the data that is still to be placed. -/
def Places (s : Store) (txs : List Tx) : Prop := ∀ tx ∈ txs, (s.posts tx.k tx.field).Compiled → ¬ tx.data.Kept

omit [FloatOps] in
theorem Uncompiled.places (uncompiled : s.Uncompiled) (txs : List Tx) : s.Places txs :=
  fun tx _ compiled => absurd compiled (uncompiled tx.k tx.field)

omit [FloatOps] in
theorem Places.later (places : s.Places txs) (grows : s.Extends s') : s'.Places txs :=
  fun tx mem compiled => places tx mem (grows.compiled _ _ compiled)

theorem commitTx_recalls {tx : Tx} (recalls : s.Recalls txs)
    (placeable : (s.posts tx.k tx.field).Compiled → ¬ tx.data.Kept) (run : s.commitTx tx = .ok s') :
    s'.Recalls (txs ++ [tx]) ∧ s'.wildcard = s.wildcard ∧ s.Extends s' := by
  obtain ⟨p, committed, done⟩ := bind_eq_ok.mp run
  have committed := panicIfErr_eq_ok.mp committed
  obtain rfl := Except.ok.inj done
  obtain ⟨standard, compiled⟩ := Postings.commit_standard (recalls.standard _ _) committed
  have shared : ∀ {k}, s.Slot tx.k k → s.posts tx.k tx.field = s.posts k tx.field := by
    rintro k (compact | rfl)
    · rw [s.shared compact tx.k k]
    · rfl
  refine ⟨⟨fun k f => ?_, fun k f v e => ?_⟩, rfl, rfl, fun k f => ?_⟩
  · simp only [put]
    split
    · exact standard
    · exact recalls.standard k f
  · have slot : ∀ k, (s.put tx.k tx.field p).Slot tx.k k ↔ s.Slot tx.k k := fun _ => Iff.rfl
    simp only [List.mem_append, List.mem_singleton, or_and_right, exists_or, exists_eq_left]
    have old := recalls.answers k f v e
    by_cases here : s.Slot tx.k k ∧ tx.field = f
    · obtain ⟨hk, rfl⟩ := here
      have put : (s.put tx.k tx.field p).posts k tx.field = p := by simp [Store.put, hk]
      rw [put, Postings.commit_answers (recalls.standard _ _) placeable committed, shared hk, old]
      simp only [slot, hk, true_and, eq_comm (a := e)]
      rfl
    · have put : (s.put tx.k tx.field p).posts k f = s.posts k f := by
        simp only [Store.put]
        rw [if_neg]
        exact fun h => here ⟨h.1, h.2.symm⟩
      rw [put, old]
      have none : ¬ ((s.put tx.k tx.field p).Slot tx.k k ∧ tx.field = f ∧ tx.eid = e ∧ tx.data.Matches v) :=
        fun h => here ⟨h.1, h.2.1⟩
      simp only [none, or_false]
      rfl
  · simp only [put]
    split
    · rename_i here
      rw [compiled, here.2, shared here.1]
      exact fun compiled => compiled
    · exact fun compiled => compiled

theorem commitTxs_recalls {more : List Tx} (recalls : s.Recalls txs) (places : s.Places more)
    (run : more.foldlM commitTx s = .ok s') :
    s'.Recalls (txs ++ more) ∧ s'.wildcard = s.wildcard ∧ s.Extends s' := by
  induction more generalizing s txs with
  | nil =>
    obtain rfl := Except.ok.inj run
    exact ⟨by simpa using recalls, rfl, Extends.refl s⟩
  | cons tx more ih =>
    rw [List.foldlM_cons] at run
    obtain ⟨s₁, first, rest⟩ := bind_eq_ok.mp run
    obtain ⟨step, wildcard, grows⟩ := commitTx_recalls recalls (places tx List.mem_cons_self) first
    have later : s₁.Places more := Places.later (fun tx mem => places tx (List.mem_cons_of_mem _ mem)) grows
    obtain ⟨whole, wildcard', grows'⟩ := ih step later rest
    exact ⟨by simpa using whole, wildcard'.trans wildcard, grows.trans grows'⟩

theorem commitConj_keeps {all : List ConjTx} {c : ConjTx} (keeps : s.Keeps all) (places : s.Places c.txs)
    (run : s.commitConj c = .ok s') : s'.Keeps (all ++ [c]) ∧ s.Extends s' := by
  unfold commitConj at run
  have same : s.Extends (if c.incSize = 0 then s.addWildcard (newEntryID c.conjID true) else s) := by
    split
    · exact ⟨rfl, fun _ _ compiled => compiled⟩
    · exact Extends.refl s
  have recalls : (if c.incSize = 0 then s.addWildcard (newEntryID c.conjID true) else s).Recalls
      (all.flatMap ConjTx.txs) := by
    split
    · exact ⟨keeps.recalls.standard, keeps.recalls.answers⟩
    · exact keeps.recalls
  obtain ⟨whole, wildcard, grows⟩ := commitTxs_recalls recalls (places.later same) run
  refine ⟨⟨by simpa using whole, fun e => ?_⟩, same.trans grows⟩
  rw [wildcard]
  simp only [List.mem_append, List.mem_singleton, or_and_right, exists_or, exists_eq_left, ← keeps.wildcard e]
  split
  · rename_i zero
    simp [addWildcard, zero]
  · rename_i positive
    simp [positive]

theorem commitConjs_keeps {all more : List ConjTx} (keeps : s.Keeps all) (places : ∀ c ∈ more, s.Places c.txs)
    (run : more.foldlM commitConj s = .ok s') : s'.Keeps (all ++ more) ∧ s.Extends s' := by
  induction more generalizing s all with
  | nil =>
    obtain rfl := Except.ok.inj run
    exact ⟨by simpa using keeps, Extends.refl s⟩
  | cons c more ih =>
    rw [List.foldlM_cons] at run
    obtain ⟨s₁, first, rest⟩ := bind_eq_ok.mp run
    obtain ⟨step, grows⟩ := commitConj_keeps keeps (places c List.mem_cons_self) first
    obtain ⟨whole, grows'⟩ := ih step (fun d mem => (places d (List.mem_cons_of_mem _ mem)).later grows) rest
    exact ⟨by simpa using whole, grows.trans grows'⟩

theorem commitConjs_holds {all more : List ConjTx} (holds : s.Holds all) (run : more.foldlM commitConj s = .ok s') :
    s'.Holds (all ++ more) ∧ s'.compact = s.compact := by
  obtain ⟨keeps, uncompiled⟩ := holds_iff.mp holds
  obtain ⟨keeps', grows⟩ := commitConjs_keeps keeps (fun c _ => uncompiled.places c.txs) run
  exact ⟨holds_iff.mpr ⟨keeps', grows.uncompiled uncompiled⟩, grows.compact⟩

end Store

end BeIndexer
