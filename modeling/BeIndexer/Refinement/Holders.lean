import BeIndexer.Refinement.Runs
import BeIndexer.Store.Prepare

/-!
# Fields that an index has a holder for

Preparing an expression creates its field and the field's holder before it looks at the value, so a
conjunction that cannot be prepared leaves behind the holders of the fields visited up to the one that
failed. None of this shows in the posting lists; it decides which values of a query are read at all.
-/

namespace BeIndexer

open Calls
open IndexerBuilder (exprList)

/-! ### Containers -/

namespace EntriesContainer

variable {c c' : EntriesContainer} {t : FieldTable} {f g : BEField} {desc desc' : FieldDesc} {h : EntriesHolder}

theorem setHolder_held (known : t.find f = some desc) (known' : t.find g = some desc') (of : h.Of desc.container) :
    (c.setHolder desc h).getFieldHolder desc' ≠ none ↔ c.getFieldHolder desc' ≠ none ∨ g = f := by
  by_cases named' : desc'.container = HolderNameDefault
  · simp [getFieldHolder, named']
  by_cases isDefault : h.kind = .default
  · cases h with
    | default d =>
      have other : g ≠ f := by
        rintro rfl
        obtain rfl := Option.some.inj (known.symm.trans known')
        exact named' (of.default_iff.mp isDefault)
      simp [setHolder, getFieldHolder, named', other]
    | _ => cases isDefault
  · have written : c.setHolder desc h = { c with fieldHolder := c.fieldHolder.insert desc.field h } := by
      cases h with
      | default d => exact absurd rfl isDefault
      | _ => rfl
    simp only [written, getFieldHolder, if_neg named']
    rw [(FieldTable.find_mem known).2, (FieldTable.find_mem known').2]
    by_cases same : g = f
    · subst same
      simp [AList.lookup_insert]
    · simp [AList.lookup_insert_ne same, same]

theorem createHolder_held (known : t.find f = some desc) (known' : t.find g = some desc')
    (run : c.createHolder desc = .ok (c', h)) :
    c'.getFieldHolder desc' ≠ none ↔ c.getFieldHolder desc' ≠ none ∨ g = f := by
  obtain ⟨held, ⟨rfl, found⟩ | ⟨rfl, missing⟩⟩ := createHolder_cases run
  · refine ⟨Or.inl, ?_⟩
    rintro (old | rfl)
    · exact old
    · obtain rfl := Option.some.inj (known.symm.trans known')
      simp [found]
  · rw [heldBy, missing, Option.none_or] at held
    exact setHolder_held known known' (EntriesHolder.of_newEntriesHolder held)

end EntriesContainer

/-! ### Builders -/

/-- What an index has beside posting lists: a container for a size, and a holder for a field in the
container of a size. -/
inductive Mark where
  | size (k : Nat)
  | holder (k : Nat) (f : BEField)

/-- Where the first mark is made the second is there. Containers are appended up to the size that is
asked for, the compact index has one for all sizes, and every container has the default holder. -/
def Mark.Brings (compact : Bool) (C : BEField → GoString) : Mark → Mark → Prop
  | .size k, .size k' => compact = true ∨ k' ≤ k
  | .holder k f, .holder k' g => g = f ∧ (compact = true ∨ k = k' ∨ C f = HolderNameDefault)
  | _, _ => False

theorem BEIndex.newContainer_has_iff {idx : BEIndex} {k k' : Nat} :
    (idx.newContainer k).HasContainer k' ↔ idx.HasContainer k' ∨ idx.isCompact = true ∨ k' ≤ k := by
  cases idx with
  | compact bi => simp [HasContainer, newContainer]
  | kgroups bi =>
    simp only [HasContainer, newContainer, KGroupsBEIndex.newContainer, isCompact, List.length_append,
      List.length_replicate, Bool.false_eq_true, false_or]
    omega

theorem BEIndex.setContainer_has_iff {idx : BEIndex} {k k' : Nat} {c : EntriesContainer} :
    (idx.setContainer k c).HasContainer k' ↔ idx.HasContainer k' ∨ idx.isCompact = true ∨ k' ≤ k := by
  rw [← newContainer_has_iff]
  cases idx with
  | compact bi => exact Iff.rfl
  | kgroups bi => simp [HasContainer, setContainer, newContainer]

namespace IndexerBuilder

def Marked (b : IndexerBuilder) : Mark → Prop
  | .size k => b.indexer.HasContainer k
  | .holder k f => ∃ desc, b.fieldsData.find f = some desc ∧ (b.indexer.container k).getFieldHolder desc ≠ none

variable {b b' : IndexerBuilder} {f : BEField} {desc : FieldDesc} {k : Nat} {c : EntriesContainer}
  {C : BEField → GoString} {B : BadConjBehavior} {s : Store} {loops : MapLoops}

theorem setContainer_marked (known : b.fieldsData.find f = some desc) (named : desc.container = C f)
    (held : ∀ g desc', b.fieldsData.find g = some desc' →
      (c.getFieldHolder desc' ≠ none ↔ (b.indexer.container k).getFieldHolder desc' ≠ none ∨ g = f)) (m : Mark) :
    (b.setContainer k c).Marked m ↔ b.Marked m ∨ (Mark.size k).Brings b.indexer.isCompact C m ∨
      (Mark.holder k f).Brings b.indexer.isCompact C m := by
  cases m with
  | size k' =>
    simp only [Mark.Brings, or_false]
    exact BEIndex.setContainer_has_iff
  | holder k' g =>
    have written : (b.setContainer k c).indexer.container k' =
        if b.indexer.isCompact = true ∨ k = k' then c else b.indexer.container k' :=
      BEIndex.setContainer_container k k' c b.indexer
    have shared : b.indexer.isCompact = true ∨ k = k' → b.indexer.container k = b.indexer.container k' := by
      rintro (compact | rfl)
      · exact BEIndex.shared_container compact k k'
      · rfl
    simp only [Marked, Mark.Brings, false_or, written]
    constructor
    · rintro ⟨desc', known', has⟩
      split at has
      · rename_i slot
        rcases (held g desc' known').mp has with old | same
        · exact Or.inl ⟨desc', known', shared slot ▸ old⟩
        · exact Or.inr ⟨same, slot.imp_right Or.inl⟩
      · exact Or.inl ⟨desc', known', has⟩
    · rintro (⟨desc', known', has⟩ | ⟨rfl, slot⟩)
      · refine ⟨desc', known', ?_⟩
        split
        · rename_i slot
          exact (held g desc' known').mpr (Or.inl (shared slot ▸ has))
        · exact has
      · refine ⟨desc, known, ?_⟩
        split
        · exact (held g desc known).mpr (Or.inr rfl)
        · rename_i elsewhere
          have isDefault : desc.container = HolderNameDefault := by
            rw [named]
            tauto
          simp [EntriesContainer.getFieldHolder, isDefault]

theorem newContainer_marked (b : IndexerBuilder) (C : BEField → GoString) (k : Nat) (m : Mark) :
    Marked { b with indexer := b.indexer.newContainer k } m ↔
      b.Marked m ∨ (Mark.size k).Brings b.indexer.isCompact C m := by
  cases m with
  | size k' => exact BEIndex.newContainer_has_iff
  | holder k' g => simp [Marked, Mark.Brings]

theorem add_marked (wf : b.WF) {container : GoString} (fresh : b.fieldsData.find f = none)
    (table : b'.fieldsData = b.fieldsData.add f container fresh) (index : b'.indexer = b.indexer) (m : Mark) :
    b'.Marked m ↔ b.Marked m ∨ (container = HolderNameDefault ∧ ∃ k, m = .holder k f) := by
  cases m with
  | size k => simp [Marked, index]
  | holder k g =>
    simp only [Marked, table, index, FieldTable.find_add, Mark.holder.injEq]
    by_cases same : g = f
    · subst same
      have missing : (b.indexer.container k).fieldHolder.lookup g = none := by
        rw [Option.eq_none_iff_forall_ne_some]
        intro h found
        obtain ⟨_, known, _⟩ := (wf.fits k).kinds g h found
        rw [fresh] at known
        cases known
      simp [fresh, EntriesContainer.getFieldHolder, missing]
    · simp [same]

theorem createFieldData_marked (shows : Shows C B b s) (run : b.createFieldData loops f = .ok (b', desc)) (k : Nat)
    (m : Mark) : b'.Marked m ∨ (Mark.holder k f).Brings b.indexer.isCompact C m ↔
      b.Marked m ∨ (Mark.holder k f).Brings b.indexer.isCompact C m := by
  unfold createFieldData at run
  split at run
  · obtain ⟨rfl, _⟩ := Prod.mk.inj (Except.ok.inj run)
    rfl
  · rename_i fresh
    have configured := panicIfErr_eq_ok.mp run
    rw [configureField, dif_pos fresh] at configured
    obtain ⟨same, _⟩ := Prod.mk.inj (Except.ok.inj configured)
    have table : b'.fieldsData = b.fieldsData.add f HolderNameDefault fresh := by
      rw [← same]
      rfl
    have named : C f = HolderNameDefault := by
      rw [← shows.containers, IndexerBuilder.containers, fresh]
    rw [add_marked shows.wf fresh table (by rw [← same])]
    have brings : (∃ k, m = .holder k f) → (Mark.holder k f).Brings b.indexer.isCompact C m := by
      rintro ⟨k', rfl⟩
      exact ⟨rfl, Or.inr (Or.inr named)⟩
    rw [or_assoc, or_iff_right_of_imp fun added => brings added.2]

/-! ### Preparing -/

/-- Calls that show in nothing but the marks they make. -/
structure Reaches (C : BEField → GoString) (B : BadConjBehavior) (b : IndexerBuilder) (made : List Mark)
    (b' : IndexerBuilder) : Prop where
  shows : ∀ s, Shows C B b s → Shows C B b' s
  kind : b'.indexer.isCompact = b.indexer.isCompact
  marks : ∀ m, b'.Marked m ↔ b.Marked m ∨ ∃ m' ∈ made, m'.Brings b.indexer.isCompact C m

theorem Reaches.nil (b : IndexerBuilder) : Reaches C B b [] b := ⟨fun _ shows => shows, rfl, by simp⟩

theorem Reaches.append (b₁ : IndexerBuilder) (ms : List Mark) (b₂ : IndexerBuilder) (ns : List Mark)
    (b₃ : IndexerBuilder) (first : Reaches C B b₁ ms b₂) (second : Reaches C B b₂ ns b₃) :
    Reaches C B b₁ (ms ++ ns) b₃ := by
  refine ⟨fun s shows => second.shows s (first.shows s shows), second.kind.trans first.kind, fun m => ?_⟩
  rw [second.marks, first.marks, first.kind]
  simp only [List.mem_append, or_and_right, exists_or, or_assoc]

variable [FloatOps]

/-- What preparing an expression does: there is a holder for its field before the value is looked at. -/
def exprSteps (C : BEField → GoString) (k : Nat) (expr : BEField × BoolValues) : List (Go (List Mark)) :=
  [.ok [.size k, .holder k expr.1], (prepareExpr (C expr.1) expr.1 expr.2).map fun _ => []]

/-- Preparing a conjunction starts with a container for its size. -/
def conjPlan (C : BEField → GoString) (conj : Conjunction) : List (Go (List Mark)) :=
  .ok [.size conj.calcConjSize] :: (exprList conj).flatMap (exprSteps C conj.calcConjSize)

/-- The marks of a conjunction up to the expression that cannot be prepared, if there is one. -/
def visited (C : BEField → GoString) (conj : Conjunction) : List Mark := upTo (conjPlan C conj)

/-- A conjunction that is skipped leaves its marks. -/
def conjSteps (C : BEField → GoString) (B : BadConjBehavior) (conj : Conjunction) : List (Go (List Mark)) :=
  match B with
  | .skip => [.ok (visited C conj)]
  | _ => conjPlan C conj

theorem exprSteps_succeed {expr : BEField × BoolValues} :
    Succeed (exprSteps C k expr) ↔ ∃ data, prepareExpr (C expr.1) expr.1 expr.2 = .ok data := by
  simp only [Succeed, exprSteps, List.forall_mem_cons, List.not_mem_nil, false_implies, implies_true, and_true]
  constructor
  · rintro ⟨_, _, prepared⟩
    obtain ⟨data, prepared, _⟩ := map_eq_ok.mp prepared
    exact ⟨data, prepared⟩
  · rintro ⟨data, prepared⟩
    exact ⟨⟨_, rfl⟩, [], by rw [prepared]; rfl⟩

theorem exprSteps_upTo (expr : BEField × BoolValues) : upTo (exprSteps C k expr) = [.size k, .holder k expr.1] := by
  unfold exprSteps
  cases prepareExpr (C expr.1) expr.1 expr.2 <;> rfl

theorem conjPlan_succeed {conj : Conjunction} :
    Succeed (conjPlan C conj) ↔ ∀ expr ∈ exprList conj, ∃ data, prepareExpr (C expr.1) expr.1 expr.2 = .ok data := by
  have first : Succeed (conjPlan C conj) ↔ Succeed ((exprList conj).flatMap (exprSteps C conj.calcConjSize)) := by
    simp [conjPlan, Succeed]
  rw [first, succeed_flatMap]
  simp only [exprSteps_succeed]

theorem indexingExpr_marked (shows : Shows C B b s) {conjID : ConjID} {expr : BEField × BoolValues}
    {r : Except GoError FieldIndexingData} (run : indexingExpr loops conjID b expr = .ok (b', r)) :
    b'.indexer.isCompact = b.indexer.isCompact ∧ ∀ m, b'.Marked m ↔ b.Marked m ∨
      ∃ m' ∈ [Mark.size conjID.size, .holder conjID.size expr.1], m'.Brings b.indexer.isCompact C m := by
  obtain ⟨b₁, desc, created, known, later, shows'⟩ := createFieldData_spec shows loops expr.1
  have field := createFieldData_marked shows created conjID.size
  obtain ⟨_, created', rest⟩ := bind_eq_ok.mp run
  obtain rfl := Except.ok.inj (created.symm.trans created')
  obtain ⟨⟨c, h⟩, made, rest⟩ := bind_eq_ok.mp rest
  have named := shows'.container known
  have kind : b₁.indexer.isCompact = b.indexer.isCompact := by
    have same := shows'.store.trans shows.store.symm
    exact congrArg Store.compact same
  obtain ⟨_, _, of, _, _⟩ := EntriesContainer.createHolder_spec (shows'.wf.fits _) known made
  have first := setContainer_marked (k := conjID.size) known named fun g desc' known' =>
    EntriesContainer.createHolder_held known known' made
  have whole : ∀ m, (b₁.setContainer conjID.size c).Marked m ↔ b.Marked m ∨
      ∃ m' ∈ [Mark.size conjID.size, .holder conjID.size expr.1], m'.Brings b.indexer.isCompact C m := by
    intro m
    have field := field m
    rw [first m, kind]
    simp only [List.mem_cons, List.not_mem_nil, or_false, exists_eq_or_imp, exists_eq_left]
    rw [or_left_comm, field, or_left_comm]
  dsimp only at rest
  split at rest
  · rename_i h' data built
    obtain ⟨rfl, _⟩ := Prod.mk.inj (Except.ok.inj rest)
    have of' : h'.Of desc.container := by
      rw [EntriesHolder.Of, (EntriesHolder.build_keeps built).1]
      exact of
    have here : (b₁.setContainer conjID.size c).indexer.container conjID.size = c := by
      simp [setContainer, BEIndex.setContainer_container]
    refine ⟨by simp [setContainer, kind], fun m => ?_⟩
    rw [setContainer_marked (b := b₁.setContainer conjID.size c) (C := C) known named fun g desc' known' => ?_, whole]
    · have same : (b₁.setContainer conjID.size c).indexer.isCompact = b.indexer.isCompact := by
        simp [setContainer, kind]
      rw [same]
      simp only [List.mem_cons, List.not_mem_nil, or_false, exists_eq_or_imp, exists_eq_left]
      rw [or_assoc, or_self]
    · rw [here]
      exact EntriesContainer.setHolder_held known known' of'
  · obtain ⟨rfl, _⟩ := Prod.mk.inj (Except.ok.inj rest)
    exact ⟨by simp [setContainer, kind], whole⟩
  · cases rest

omit [FloatOps] in
theorem follows_settle {α β σ τ : Type} {Later : σ → σ → Prop} {Inv : σ → τ → Prop} {Out : σ → α → β → Prop}
    {s s' : σ} {t : τ} {r : Except GoError α} {p : Go β} (h : Follows Later Inv Out s (.ok (s', r)) (settle t p)) :
    Inv s' t ∧ ((∃ a, r = .ok a) ↔ ∃ x, p = .ok x) := by
  rcases p with (e | e | _) | x
  · cases h with
    | failed _ _ inv => exact ⟨inv, by simp⟩
  · cases h
  · cases h
  · cases h with
    | done _ inv _ => exact ⟨inv, by simp⟩

theorem indexingExpr_performs (shows : Shows C B b s) (loops : MapLoops) (conjID : ConjID) {expr : BEField × BoolValues}
    (quiet : EntriesHolder.Quiet (C expr.1) expr.1 expr.2) :
    Performs (Reaches C B) b (exprSteps C conjID.size expr) (indexingExpr loops conjID b expr) := by
  intro b' r run
  have follows : ∀ s, Shows C B b s → Shows C B b' s ∧
    ((∃ tx, r = .ok tx) ↔ ∃ tx, prepareTx C conjID expr = .ok tx) := by
    intro s shows
    have follows := indexingExpr_follows shows loops conjID quiet
    rw [run] at follows
    exact follows_settle follows
  obtain ⟨kind, marks⟩ := indexingExpr_marked shows run
  refine ⟨⟨fun s shows => (follows s shows).1, kind, ?_⟩, ?_⟩
  · rwa [exprSteps_upTo]
  · rw [(follows s shows).2, exprSteps_succeed]
    constructor
    · rintro ⟨tx, made⟩
      exact ⟨tx.data, (prepareTx_ok made).1⟩
    · rintro ⟨data, prepared⟩
      rw [prepareTx, prepared]
      exact ⟨_, rfl⟩

theorem indexingConjunction_performs (shows : Shows C B b s) (loops : MapLoops) {conjID : ConjID} {conj : Conjunction}
    (size : conjID.size = conj.calcConjSize)
    (quiet : ∀ expr ∈ exprList conj, EntriesHolder.Quiet (C expr.1) expr.1 expr.2) :
    Performs (Reaches C B) b (conjPlan C conj) (b.indexingConjunction loops conjID conj) := by
  have grown : Reaches C B b [.size conjID.size] { b with indexer := b.indexer.newContainer conjID.size } :=
    ⟨fun s shows => shows.newContainer conjID.size, by simp, fun m => by simp [newContainer_marked b C]⟩
  have loop := Performs.mapCalls Reaches.nil Reaches.append fun expr mem b₁ fields since =>
    indexingExpr_performs (since.shows s (grown.shows s shows)) loops conjID (quiet expr mem)
  intro b' r run
  obtain ⟨reaches, returned⟩ := loop b' r run
  rw [size] at grown reaches returned
  refine ⟨Reaches.append _ [_] _ _ _ grown reaches, returned.trans ?_⟩
  simp [conjPlan, Succeed]

theorem prepareConj_performs (shows : Shows C B b s) (loops : MapLoops) (docID : DocID) {conj : Conjunction × Nat}
    (quiet : ∀ expr ∈ exprList conj.1, EntriesHolder.Quiet (C expr.1) expr.1 expr.2) :
    Performs (Reaches C B) b (conjSteps C B conj.1) (prepareConj loops docID b conj) := by
  intro b' r run
  obtain ⟨conjID, packed, rest⟩ := bind_eq_ok.mp run
  obtain ⟨⟨b₁, prepared⟩, indexed, rest⟩ := bind_eq_ok.mp rest
  have size : conjID.size = conj.1.calcConjSize := Int.ofNat.inj (newConjID_fields packed).2.1
  obtain ⟨reaches, returned⟩ := indexingConjunction_performs shows loops size quiet b₁ prepared indexed
  have behavior := (reaches.shows s shows).behavior
  have skipped : Reaches C B b (upTo [(.ok (visited C conj.1) : Go _)]) b₁ := by
    rw [upTo, upTo, List.append_nil]
    exact reaches
  cases prepared with
  | ok fieldData =>
    obtain ⟨rfl, rfl⟩ := Prod.mk.inj (Except.ok.inj rest)
    cases B with
    | skip => exact ⟨skipped, iff_of_true ⟨_, rfl⟩ (by simp [Succeed, conjSteps])⟩
    | error => exact ⟨reaches, iff_of_true ⟨_, rfl⟩ (returned.mp ⟨_, rfl⟩)⟩
    | panic => exact ⟨reaches, iff_of_true ⟨_, rfl⟩ (returned.mp ⟨_, rfl⟩)⟩
  | error err =>
    simp only [behavior] at rest
    cases B with
    | skip =>
      obtain ⟨rfl, rfl⟩ := Prod.mk.inj (Except.ok.inj rest)
      exact ⟨skipped, iff_of_true ⟨_, rfl⟩ (by simp [Succeed, conjSteps])⟩
    | error =>
      obtain ⟨rfl, rfl⟩ := Prod.mk.inj (Except.ok.inj rest)
      refine ⟨reaches, iff_of_false (by rintro ⟨_, ⟨⟩⟩) fun succeed => ?_⟩
      obtain ⟨_, absurd⟩ := returned.mpr succeed
      cases absurd
    | panic => cases rest

theorem prepareConjs_performs (shows : Shows C B b s) (loops : MapLoops) (docID : DocID)
    {cons : List (Conjunction × Nat)}
    (quiet : ∀ conj ∈ cons, ∀ expr ∈ exprList conj.1, EntriesHolder.Quiet (C expr.1) expr.1 expr.2) :
    Performs (Reaches C B) b ((cons.map Prod.fst).flatMap (conjSteps C B))
      (mapCalls (prepareConj loops docID) b cons) := by
  rw [List.flatMap_map]
  exact Performs.mapCalls Reaches.nil Reaches.append fun conj mem b₁ fields since =>
    prepareConj_performs (since.shows s shows) loops docID (quiet conj mem)

theorem visited_all {conj : Conjunction}
    (prepared : ∀ expr ∈ exprList conj, ∃ data, prepareExpr (C expr.1) expr.1 expr.2 = .ok data) (m : Mark) :
    m ∈ visited C conj ↔ m = .size conj.calcConjSize ∨ ∃ expr ∈ exprList conj,
      m = .holder conj.calcConjSize expr.1 := by
  have fields : m ∈ upTo ((exprList conj).flatMap (exprSteps C conj.calcConjSize)) ↔
      ∃ expr ∈ exprList conj, m = .size conj.calcConjSize ∨ m = .holder conj.calcConjSize expr.1 := by
    rw [mem_upTo_flatMap fun expr mem => exprSteps_succeed.mpr (prepared expr mem)]
    simp [exprSteps_upTo]
  rw [visited, conjPlan, upTo, List.mem_append, fields, List.mem_singleton]
  constructor
  · rintro (size | ⟨expr, mem, size | holder⟩)
    · exact Or.inl size
    · exact Or.inl size
    · exact Or.inr ⟨expr, mem, holder⟩
  · rintro (size | ⟨expr, mem, holder⟩)
    · exact Or.inl size
    · exact Or.inr ⟨expr, mem, Or.inr holder⟩

theorem prepared_marked {docID : DocID} {cons : List (Conjunction × Nat)} {found : List (Option ConjTx)}
    (run : cons.mapM (prepareConjTx C B docID) = .ok found) {c : ConjTx} (mem : c ∈ found.reduceOption) {tx : Tx}
    (inside : tx ∈ c.txs) (succeed : Succeed ((cons.map Prod.fst).flatMap (conjSteps C B))) :
    Mark.size tx.k ∈ upTo ((cons.map Prod.fst).flatMap (conjSteps C B)) ∧
      Mark.holder tx.k tx.field ∈ upTo ((cons.map Prod.fst).flatMap (conjSteps C B)) := by
  obtain ⟨conj, hconj, made⟩ := mem_mapM run (List.reduceOption_mem_iff.mp mem)
  obtain ⟨packed, _, _, prepared⟩ := prepareConjTx_some made
  have each : ∀ expr ∈ exprList conj.1, ∃ data, prepareExpr (C expr.1) expr.1 expr.2 = .ok data := by
    intro expr listed
    obtain ⟨tx, _, made⟩ := mapM_mem prepared listed
    exact ⟨_, (prepareTx_ok made).1⟩
  obtain ⟨expr, listed, made⟩ := mem_mapM prepared inside
  obtain ⟨_, size, field⟩ := prepareTx_ok made
  have same := Int.ofNat.inj (newConjID_fields packed).2.1
  rw [same] at size
  have lasts : ∀ m ∈ visited C conj.1, m ∈ upTo ((cons.map Prod.fst).flatMap (conjSteps C B)) := by
    intro m visits
    rw [mem_upTo_flatMap (succeed_flatMap.mp succeed)]
    refine ⟨conj.1, List.mem_map_of_mem hconj, ?_⟩
    unfold conjSteps
    split
    · simpa [upTo] using visits
    · exact visits
  rw [size, field]
  exact ⟨lasts _ ((visited_all each _).mpr (Or.inl rfl)),
    lasts _ ((visited_all each _).mpr (Or.inr ⟨expr, listed, rfl⟩))⟩

/-! ### Committing -/

omit [FloatOps] in
theorem Marked.brings (shows : Shows C B b s) {m m' : Mark} (marked : b.Marked m)
    (brings : m.Brings b.indexer.isCompact C m') : b.Marked m' := by
  cases m with
  | size k =>
    cases m' with
    | size k' =>
      cases index : b.indexer with
      | compact bi => rw [Marked, index]; trivial
      | kgroups bi =>
        rw [Marked, index] at marked ⊢
        rw [index] at brings
        have inside : k < bi.kSizeContainers.length := marked
        have le : k' ≤ k := brings.resolve_left (by simp [BEIndex.isCompact])
        exact Nat.lt_of_le_of_lt le inside
    | holder k' f => exact brings.elim
  | holder k f =>
    cases m' with
    | size k' => exact brings.elim
    | holder k' g =>
      obtain ⟨rfl, slot⟩ := brings
      obtain ⟨desc, known, has⟩ := marked
      refine ⟨desc, known, ?_⟩
      rcases slot with compact | rfl | isDefault
      · rwa [BEIndex.shared_container compact k' k]
      · exact has
      · rw [← shows.container known] at isDefault
        simp [EntriesContainer.getFieldHolder, isDefault]

omit [FloatOps] in
theorem commit_marked (shows : Shows C B b s) {tx : FieldIndexingData} (knows : b.Knows tx)
    (size : b.Marked (.size tx.toTx.k)) (field : b.Marked (.holder tx.toTx.k tx.toTx.field))
    (run : b.commitFieldIndexingData tx = .ok b') (m : Mark) : b'.Marked m ↔ b.Marked m := by
  obtain ⟨known, _⟩ := knows
  obtain ⟨⟨c, h⟩, made, rest⟩ := bind_eq_ok.mp run
  obtain ⟨h', committed, done⟩ := bind_eq_ok.mp rest
  obtain rfl := Except.ok.inj done
  obtain ⟨_, _, of, _, _⟩ := EntriesContainer.createHolder_spec (shows.wf.fits _) known made
  have of' : h'.Of tx.field.container := by
    rw [EntriesHolder.Of, EntriesHolder.commit_kind committed]
    exact of
  rw [setContainer_marked known (shows.container known) fun g desc' known' => ?_]
  · refine ⟨?_, Or.inl⟩
    rintro (old | bySize | byField)
    · exact old
    · exact size.brings shows bySize
    · exact field.brings shows byField
  · rw [EntriesContainer.setHolder_held known known' of', EntriesContainer.createHolder_held known known' made]
    rw [or_assoc, or_self]

omit [FloatOps] in
theorem addWildcard_marked (b : IndexerBuilder) (id : EntryID) (m : Mark) :
    Marked { b with indexer := b.indexer.addWildcardEID id } m ↔ b.Marked m := by
  cases m with
  | size k => cases index : b.indexer <;> simp [Marked, index, BEIndex.addWildcardEID, BEIndex.HasContainer]
  | holder k f => simp [Marked]

/-- A builder after commits that made no mark. -/
structure Settles (b b' : IndexerBuilder) : Prop where
  indexed : Indexed b b'
  wf : b'.WF
  kind : b'.indexer.isCompact = b.indexer.isCompact
  marks : ∀ m, b'.Marked m ↔ b.Marked m

omit [FloatOps] in
theorem Settles.commit {b₁ b₂ : IndexerBuilder} {tx : FieldIndexingData} (since : Settles b b₁) (knows : b.Knows tx)
    (size : b.Marked (.size tx.toTx.k)) (field : b.Marked (.holder tx.toTx.k tx.toTx.field))
    (run : panicIfErr "commit indexing data failed" [] (b₁.commitFieldIndexingData tx) = .ok b₂) : Settles b b₂ := by
  have knows := knows.later since.indexed.later
  have tracks := commit_tracks since.wf.shows knows
  rw [run] at tracks
  obtain ⟨_, committed, indexed, shows⟩ := tracks.ok_left
  have kind : b₂.indexer.isCompact = b₁.indexer.isCompact := by
    obtain ⟨p, _, done⟩ := bind_eq_ok.mp committed
    have same := congrArg Store.compact shows.store
    rw [← Except.ok.inj done] at same
    exact same
  refine ⟨Indexed.trans _ _ _ since.indexed indexed, shows.wf, kind.trans since.kind, fun m => ?_⟩
  rw [commit_marked since.wf.shows knows ((since.marks _).mpr size) ((since.marks _).mpr field)
    (panicIfErr_eq_ok.mp run),
    since.marks]

omit [FloatOps] in
theorem commitConjs_marked {all : List ConjIndexingData} (wf : b.WF) (prepared : ∀ cd ∈ all, b.Prepared cd)
    (marked : ∀ cd ∈ all, ∀ tx ∈ cd.fieldData, b.Marked (.size tx.toTx.k) ∧ b.Marked (.holder tx.toTx.k tx.toTx.field))
    (run : all.foldlM commitConjIndexingData b = .ok b') : Settles b b' := by
  have start : Settles b b := ⟨Indexed.refl b, wf, rfl, fun _ => Iff.rfl⟩
  refine foldlM_inv (P := Settles b) (fun cd mem b₁ b₂ since ran => ?_) start run
  have ready := prepared cd mem
  refine foldlM_inv (fun tx inside b₁ b₂ since committed => ?_) ?_ ran
  · obtain ⟨size, field⟩ := marked cd mem tx inside
    exact since.commit (ready.fields tx inside) size field committed
  · split
    · rename_i zero
      have has := since.indexed.sizes _ (zero ▸ ready.size)
      refine ⟨Indexed.trans _ _ _ since.indexed ⟨rfl, fun _ h => h.addWildcardEID⟩, ?_, ?_, fun m => ?_⟩
      · exact (since.wf.shows.addWildcard _ has).wf
      · simp [since.kind]
      · rw [addWildcard_marked, since.marks]
    · exact since

/-! ### Documents -/

variable [Codec]

/-- What adding a document does, of which only its marks last if it fails. -/
def docSteps (C : BEField → GoString) (B : BadConjBehavior) (doc : Document) : List (Go (List Mark)) :=
  (validDocument doc).map (fun _ => []) :: doc.cons.flatMap (conjSteps C B)

omit [FloatOps] in
theorem saveEntry_indexer (loops : MapLoops) (b : IndexerBuilder) (doc : Document) (hash : UInt64)
    (all : List ConjIndexingData) :
    (b.saveEntry loops doc hash all).indexer = b.indexer ∧
      (b.saveEntry loops doc hash all).fieldsData = b.fieldsData := by
  unfold saveEntry
  split <;> exact ⟨rfl, rfl⟩

omit [FloatOps] [Codec] in
theorem marked_congr (index : b'.indexer = b.indexer) (table : b'.fieldsData = b.fieldsData) (m : Mark) :
    b'.Marked m ↔ b.Marked m := by
  cases m <;> simp only [Marked, index, table]

/-- A document that is not restored leaves the marks that were made, and is accepted if no step fails. -/
theorem addOne_marked (shows : Shows C B b s) {doc : Document} (miss : b.cachedEntry doc = none)
    (plain : ∀ f, C f ≠ HolderNameOptimizedRange) {r : Except GoError Unit} (run : addOne loops b doc = .ok (b', r)) :
    b'.indexer.isCompact = b.indexer.isCompact ∧
      (∀ m, b'.Marked m ↔ b.Marked m ∨ ∃ m' ∈ upTo (docSteps C B doc), m'.Brings b.indexer.isCompact C m) ∧
      ((∃ u, r = .ok u) ↔ Succeed (docSteps C B doc)) := by
  unfold docSteps
  rcases settled_cases run with ⟨e, invalid, rfl, rfl⟩ | ⟨u, valid, built⟩
  · rw [invalid]
    exact ⟨rfl, by simp [Except.map, upTo], by simp [Except.map, Succeed]⟩
  · obtain ⟨_, _, rest⟩ := bind_eq_ok.mp built
    obtain ⟨_, _, rest⟩ := bind_eq_ok.mp rest
    rw [miss] at rest
    have quiet : ∀ conj ∈ doc.cons.zipIdx, ∀ expr ∈ exprList conj.1, EntriesHolder.Quiet (C expr.1) expr.1 expr.2 :=
      fun _ _ _ _ => EntriesHolder.quiet_of_ne (plain _)
    have performs := prepareConjs_performs shows loops doc.id quiet
    rw [List.zipIdx_map_fst] at performs
    have first : ∀ {steps : List (Go (List Mark))}, Succeed ((validDocument doc).map (fun _ => []) :: steps) ↔
      Succeed steps := by
      rw [valid]
      simp [Succeed, Except.map]
    rw [first, valid]
    change b'.indexer.isCompact = b.indexer.isCompact ∧ (∀ m, b'.Marked m ↔ b.Marked m ∨
      ∃ m' ∈ upTo (doc.cons.flatMap (conjSteps C B)), m'.Brings b.indexer.isCompact C m) ∧ _
    unfold buildEntries at rest
    rcases loop : mapCalls (prepareConj loops doc.id) b doc.cons.zipIdx with fault | ⟨b₁, e | prepared⟩
    · rw [loop] at rest
      cases rest
    · rw [loop] at rest
      obtain ⟨rfl, rfl⟩ := Prod.mk.inj (Except.ok.inj rest)
      obtain ⟨reaches, returned⟩ := performs b₁ _ loop
      exact ⟨reaches.kind, reaches.marks, by simpa using returned⟩
    · rw [loop] at rest
      obtain ⟨b₂, commits, done⟩ := map_eq_ok.mp rest
      obtain ⟨rfl, rfl⟩ := Prod.mk.inj done
      obtain ⟨reaches, returned⟩ := performs b₁ _ loop
      have succeed := returned.mp ⟨_, rfl⟩
      obtain ⟨found, made, same, ready⟩ := prepareConjs_ok shows quiet loop
      have shows₁ := reaches.shows s shows
      have marked : ∀ cd ∈ prepared.reduceOption, ∀ tx ∈ cd.fieldData,
          b₁.Marked (.size tx.toTx.k) ∧ b₁.Marked (.holder tx.toTx.k tx.toTx.field) := by
        intro cd mem tx inside
        have listed : cd.toConjTx ∈ found.reduceOption := same ▸ List.mem_map_of_mem mem
        have inside' : tx.toTx ∈ cd.toConjTx.txs := List.mem_map_of_mem inside
        have both := prepared_marked made listed inside'
        rw [List.zipIdx_map_fst] at both
        obtain ⟨size, field⟩ := both succeed
        rw [reaches.marks, reaches.marks]
        exact ⟨Or.inr ⟨_, size, Or.inr (Nat.le_refl _)⟩, Or.inr ⟨_, field, rfl, Or.inr (Or.inl rfl)⟩⟩
      have settles := commitConjs_marked shows₁.wf ready marked commits
      obtain ⟨index, table⟩ := saveEntry_indexer loops b₂ doc b.schemaHash prepared.reduceOption
      refine ⟨?_, fun m => ?_, iff_of_true ⟨_, rfl⟩ succeed⟩
      · rw [index, settles.kind, reaches.kind]
      · rw [marked_congr index table, settles.marks, reaches.marks]

end IndexerBuilder

end BeIndexer
