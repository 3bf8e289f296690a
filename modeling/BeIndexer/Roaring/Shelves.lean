import BeIndexer.Roaring.Hints

/-!
# What a container is for

A container of a field holds the conjunctions of the documents that were added while the field had it.
Its bitmaps are written at once. The machines of a keyword container are made when it is built, so it
searches for the keywords there were then.
-/

namespace BeIndexer.Roaring

open Calls

/-! ### Shelves -/

/-- The documents that were added while a field had a container, and those that were there when the
container was last built. -/
structure Shelf where
  kind : ContainerKind
  docs : List Document
  built : List Document

def Shelf.add (doc : Document) (shelf : Shelf) : Shelf := { shelf with docs := shelf.docs ++ [doc] }

def Shelf.build (shelf : Shelf) : Shelf := { shelf with built := shelf.docs }

def keywordsOf (expr : BoolValues) : List GoString :=
  if expr.value.isNil then []
  else match parseAcMatchDict expr.value with
    | .ok keys => keys
    | .error _ => []

namespace Shelf

/-- The keyword was there when the machines were made. -/
def Searches (shelf : Shelf) (field : BEField) (incl : Bool) (key : GoString) : Prop :=
  ∃ doc ∈ shelf.built, ∃ conj ∈ doc.cons, ∃ expr ∈ conj.exprs field, expr.incl = incl ∧ key ∈ keywordsOf expr

/-- A keyword of the expression occurs in the query and is searched for. -/
def Mentions (shelf : Shelf) (field : BEField) (v : Value) (expr : BoolValues) : Prop :=
  ∃ key ∈ keywordsOf expr, shelf.Searches field expr.incl key ∧
    ∃ content, buildAcMatchContent v (str " ") = .ok content ∧ runes key <:+: content

def Accepts (shelf : Shelf) (field : BEField) (v : Value) (conj : Conjunction) : Prop :=
  match shelf.kind with
  | .default parser => ∀ ids, queryIDs parser v = .ok ids → Roaring.Accepts parser ids (conj.exprs field)
  | .ac =>
    ((∀ expr ∈ conj.exprs field, expr.incl = false) ∨
      ∃ expr ∈ conj.exprs field, expr.incl = true ∧ shelf.Mentions field v expr) ∧
    ∀ expr ∈ conj.exprs field, expr.incl = false → ¬ shelf.Mentions field v expr

def Reads (shelf : Shelf) (v : Value) : Prop :=
  match shelf.kind with
  | .default parser => v.isArray = false ∧ ∃ ids, queryIDs parser v = .ok ids
  | .ac => nilInterface v = .ok true ∨ ∃ content, buildAcMatchContent v (str " ") = .ok content

/-- No keyword of the field is empty or not valid UTF-8. -/
def Spelled (shelf : Shelf) (field : BEField) : Prop :=
  ∀ doc ∈ shelf.docs, ∀ conj ∈ doc.cons, ∀ expr ∈ conj.exprs field, ∀ key ∈ keywordsOf expr, key ≠ [] ∧ ValidUtf8 key

end Shelf

/-! ### Keyword containers -/

namespace ContainerKind

variable {exprs : List BoolValues} {expr : BoolValues} {slots : List AnySlot}

theorem slots_ac (run : ContainerKind.ac.slots expr = .ok slots) :
    slots = (keywordsOf expr).map fun key => .word (.of expr.incl key) := by
  obtain ⟨isNil, asked, rest⟩ := bind_eq_ok.mp run
  rw [nilInterface_eq] at asked
  split at asked
  · cases asked
  · obtain rfl := Except.ok.inj asked
    unfold keywordsOf
    cases isNil : expr.value.isNil with
    | true =>
      rw [isNil] at rest
      exact (Except.ok.inj rest).symm
    | false =>
      rw [isNil] at rest
      obtain ⟨_, _, rest⟩ := bind_eq_ok.mp rest
      obtain ⟨keys, parsed, done⟩ := bind_eq_ok.mp rest
      rw [wrapErr_eq_ok.mp parsed]
      exact (Except.ok.inj done).symm

theorem wildcard_mem_ac (succeed : Succeed (ContainerKind.ac.steps exprs)) :
    .word .wildcard ∈ upTo (ContainerKind.ac.steps exprs) ↔ ∀ expr ∈ exprs, expr.incl = false := by
  rw [mem_steps _ succeed]
  constructor
  · intro held
    rcases held with ⟨expr, _, slots, run, held⟩ | ⟨_, none⟩
    · rw [slots_ac run] at held
      obtain ⟨key, _, same⟩ := List.mem_map.mp held
      exact absurd (AnySlot.word.inj same) (Slot.of_ne_wildcard _ _)
    · exact none
  · intro none
    exact Or.inr ⟨rfl, none⟩

theorem word_mem_ac (succeed : Succeed (ContainerKind.ac.steps exprs)) {incl : Bool} {key : GoString} :
    .word (.of incl key) ∈ upTo (ContainerKind.ac.steps exprs) ↔
      ∃ expr ∈ exprs, expr.incl = incl ∧ key ∈ keywordsOf expr := by
  rw [mem_steps _ succeed]
  constructor
  · intro held
    rcases held with ⟨expr, mem, slots, run, held⟩ | ⟨same, _⟩
    · rw [slots_ac run] at held
      obtain ⟨key', inside, same⟩ := List.mem_map.mp held
      obtain ⟨side, rfl⟩ := Slot.of_inj.mp (AnySlot.word.inj same)
      exact ⟨expr, mem, side, inside⟩
    · exact absurd (AnySlot.word.inj same) (Slot.of_ne_wildcard _ _)
  · intro given
    obtain ⟨expr, mem, side, inside⟩ := given
    obtain ⟨slots, run⟩ := succeed _ (List.mem_append_left _ (List.mem_map_of_mem mem))
    have listed : AnySlot.word (.of incl key) ∈ slots := by
      rw [slots_ac run, ← side]
      exact List.mem_map.mpr ⟨key, inside, rfl⟩
    exact Or.inl ⟨expr, mem, slots, run, listed⟩

end ContainerKind

/-- Every keyword of the container has an id. -/
def ACBEContainer.Tight (c : ACBEContainer) : Prop :=
  ∀ incl, ∀ key ∈ c.postings.side incl, ∃ id, id ∈ c.postings.bitmap (.of incl key)

/-- A keyword container as it was configured, with the machines of the last build. -/
structure ACBEContainer.Kept (inc exc : Option (List (List Rune))) (c : ACBEContainer) : Prop where
  sep : c.querySep = str " "
  tight : c.Tight
  inc : c.inc = inc
  exc : c.exc = exc

namespace BEContainerBuilder

def Kept (inc exc : Option (List (List Rune))) (c : BEContainerBuilder) : Prop := ∀ d, c = .ac d → d.Kept inc exc

variable {inc exc : Option (List (List Rune))} {c c' : BEContainerBuilder} {id : ConjunctionID}

theorem Kept.encodeWildcard (kept : c.Kept inc exc) : (c.encodeWildcard id).Kept inc exc := by
  intro d same
  cases c with
  | default c => cases same
  | ac c =>
    obtain rfl := BEContainerBuilder.ac.inj same
    obtain ⟨sep, tight, inc, exc⟩ := kept c rfl
    refine ⟨sep, fun incl key mem => ?_, inc, exc⟩
    obtain ⟨x, held⟩ := tight incl key mem
    exact ⟨x, Postings.mem_addWildcard.mpr (Or.inl held)⟩

theorem Kept.encodeExpr {expr : BoolValues} (kept : c.Kept inc exc) (run : c.encodeExpr id expr = .ok c') :
    c'.Kept inc exc := by
  intro d same
  subst same
  cases c with
  | default c =>
    obtain ⟨_, _, absurd⟩ := map_eq_ok.mp run
    cases absurd
  | ac c =>
    obtain ⟨c₁, encoded, made⟩ := map_eq_ok.mp run
    obtain rfl := BEContainerBuilder.ac.inj made
    obtain ⟨sep, tight, inc, exc⟩ := kept c rfl
    obtain ⟨isNil, _, rest⟩ := bind_eq_ok.mp encoded
    cases isNil with
    | true =>
      obtain rfl := Except.ok.inj rest
      exact ⟨sep, tight, inc, exc⟩
    | false =>
      obtain ⟨_, _, rest⟩ := bind_eq_ok.mp rest
      obtain ⟨keys, _, done⟩ := bind_eq_ok.mp rest
      obtain rfl := Except.ok.inj done
      refine ⟨sep, fun incl key mem => ?_, inc, exc⟩
      rcases Postings.mem_side_addValues.mp mem with held | ⟨rfl, listed⟩
      · obtain ⟨x, inside⟩ := tight incl key held
        exact ⟨x, Postings.mem_addValues.mpr (Or.inl inside)⟩
      · exact ⟨id, Postings.mem_addValues.mpr (Or.inr ⟨rfl, List.mem_map_of_mem listed⟩)⟩

end BEContainerBuilder

/-! ### What encoding keeps -/

namespace IvtBEIndexerBuilder

variable {P : BEContainerBuilder → Prop} {b b' : IvtBEIndexerBuilder} {field : BEField}

structure Kept (P : BEContainerBuilder → Prop) : Prop where
  wildcard : ∀ c id, P c → P (c.encodeWildcard id)
  expr : ∀ c id expr c', P c → c.encodeExpr id expr = .ok c' → P c'

theorem encodeExprs_keeps (kept : Kept P) (panics : Bool) (id : ConjunctionID) (c : BEContainerBuilder)
    (exprs : List BoolValues) : Moves (fun c c' => P c → P c') c (encodeExprs panics id c exprs) := by
  refine Moves.mapCalls (fun _ held => held) (fun _ _ _ first second held => second (first held)) fun expr _ c _ => ?_
  intro c' r run before
  cases encoded : c.encodeExpr id expr with
  | ok c₁ =>
    simp only [encoded] at run
    obtain ⟨rfl, _⟩ := Prod.mk.inj (Except.ok.inj run)
    exact kept.expr c id expr _ before encoded
  | error fault =>
    rw [encoded] at run
    cases fault with
    | err e =>
      obtain ⟨rfl, _⟩ := failure_eq_ok run
      exact before
    | panic e => cases run
    | hang => cases run

theorem encodeField_keeps (kept : Kept P) (panics : Bool) (id : ConjunctionID) (c : BEContainerBuilder)
    (exprs : List BoolValues) : Moves (fun c c' => P c → P c') c (encodeField panics id c exprs) := by
  refine Moves.andThen (fun _ _ _ first second held => second (first held)) (encodeExprs_keeps kept panics id c exprs)
    fun c₁ _ _ => ?_
  intro c' r run before
  obtain ⟨rfl, _⟩ := Prod.mk.inj (Except.ok.inj run)
  split
  · exact kept.wildcard c₁ id before
  · exact before

def Has (b : IvtBEIndexerBuilder) (field : BEField) (P : BEContainerBuilder → Prop) : Prop :=
  ∀ c, b.containerBuilder.lookup field = some c → P c

theorem addField_keeps (kept : Kept P) (id : ConjunctionID) (conj : Conjunction) (b : IvtBEIndexerBuilder)
    (g : BEField) : Moves (fun b b' => b.Has field P → b'.Has field P) b (addField id conj b g) := by
  intro b' r run held
  cases found : b.containerBuilder.lookup g with
  | none =>
    simp only [addField, found] at run
    obtain ⟨rfl, _⟩ := Prod.mk.inj (Except.ok.inj run)
    exact held
  | some c =>
    simp only [addField, found] at run
    obtain ⟨⟨c', r'⟩, encoded, done⟩ := bind_eq_ok.mp run
    obtain ⟨rfl, rfl⟩ := Prod.mk.inj (Except.ok.inj done)
    intro d here
    by_cases same : field = g
    · subst same
      rw [AList.lookup_insert] at here
      obtain rfl := Option.some.inj here
      exact encodeField_keeps kept _ id c (conj.exprs field) c' r' encoded (held c found)
    · rw [AList.lookup_insert_ne same] at here
      exact held d here

theorem addConj_keeps (kept : Kept P) (order : Nat → List BEField) (docID : DocID) (b : IvtBEIndexerBuilder)
    (conj : Conjunction × Nat) :
    Moves (fun b b' => b.Has field P → b'.Has field P) b (addConj order docID b conj) := by
  intro b' r run held
  unfold addConj at run
  split at run
  · obtain ⟨rfl, _⟩ := failure_eq_ok run
    exact held
  · cases run
  · split at run
    · obtain ⟨rfl, _⟩ := failure_eq_ok run
      exact held
    · rename_i id _ _ _
      have loop : Moves (fun b b' => b.Has field P → b'.Has field P) b
        (mapCalls (addField id conj.1) b (order conj.2)) :=
        Moves.mapCalls (fun _ held => held) (fun _ _ _ first second held => second (first held))
          fun g _ b _ => addField_keeps kept id conj.1 b g
      exact loop b' r run held

theorem addDocument_keeps (kept : Kept P) {orders : Nat → KeyOrder} {doc : Document}
    (run : b.addDocument orders doc = .ok (b', .ok ())) (held : b.Has field P) : b'.Has field P := by
  obtain ⟨b₁, us, ran, rfl⟩ := addDocument_eq_ok run
  have loop : Moves (fun b b' => b.Has field P → b'.Has field P) b
      (mapCalls (addConj (fun i => (orders i).visit b.containerBuilder.keys) doc.id) b doc.cons.zipIdx) :=
    Moves.mapCalls (fun _ held => held) (fun _ _ _ first second held => second (first held))
      fun conj _ b' _ => addConj_keeps kept _ doc.id b' conj
  exact loop b₁ _ ran held

end IvtBEIndexerBuilder

/-! ### The containers hold what the shelves say -/

/-- `BuildBEContainer`: the machines are set in the container itself. -/
def BEContainerBuilder.compile [AhoMachine] : BEContainerBuilder → Go BEContainerBuilder
  | .default c => .ok (.default c)
  | .ac c => c.build.map .ac

def BEContainerBuilder.container [AhoMachine] : BEContainerBuilder → BEContainer
  | .default c => ⟨c.retrieve⟩
  | .ac c => ⟨c.retrieve⟩

/-- Every keyword of the container has an id, and the machines have those there were at the last build. -/
structure ACBEContainer.Compiled (field : BEField) (shelf : Shelf) (c : ACBEContainer) : Prop where
  sep : c.querySep = str " "
  tight : c.Tight
  words : ∀ incl w, w ∈ (c.machine incl).getD [] ↔ ∃ key, shelf.Searches field incl key ∧ runes key = w

/-- The bitmaps of a container hold the conjunctions of the documents on the shelf. -/
structure Shelf.Holds (field : BEField) (c : BEContainerBuilder) (shelf : Shelf) : Prop where
  kind : c.kind = shelf.kind
  earlier : shelf.built ⊆ shelf.docs
  named : ∀ doc ∈ shelf.docs, ∀ conj ∈ doc.cons.zipIdx, ∃ id, newConjunctionID conj.2 doc.id = .ok id
  encodes : ∀ doc ∈ shelf.docs, ∀ conj ∈ doc.cons, Succeed (shelf.kind.steps (conj.exprs field))
  mem : ∀ slot x, x ∈ c.bitmap slot ↔
    ∃ conj, Names shelf.docs x conj ∧ slot ∈ upTo (shelf.kind.steps (conj.exprs field))
  compiled : ∀ d, c = .ac d → d.Compiled field shelf

section Calls

variable {field : BEField} {c c' : BEContainerBuilder} {shelf : Shelf} {d : ACBEContainer} {incl : Bool}
  {key : GoString}

theorem newContainerBuilder_holds {container : GoString} {parser : ValueIDGenerator}
    (made : IvtBEIndexerBuilder.newContainerBuilder container parser = some c) :
    Shelf.Holds field c ⟨c.kind, [], []⟩ := by
  refine ⟨rfl, List.Subset.refl _, by simp, by simp, fun slot x => ?_, fun d same => ?_⟩
  · rw [IvtBEIndexerBuilder.newContainerBuilder_bitmap made]
    simp [Names]
  · subst same
    unfold IvtBEIndexerBuilder.newContainerBuilder at made
    split at made
    · cases made
    · split at made
      · obtain rfl := BEContainerBuilder.ac.inj (Option.some.inj made)
        refine ⟨rfl, fun incl key mem => ?_, fun incl w => ?_⟩
        · cases incl <;> exact absurd mem (AList.notMem_empty key)
        · cases incl <;> simp [ACBEContainer.machine, Shelf.Searches]
      · cases made

/-- A keyword has ids exactly if a document has it. -/
theorem Shelf.Holds.exists_id (holds : shelf.Holds field (.ac d)) :
    (∃ id, id ∈ d.postings.bitmap (.of incl key)) ↔
      ∃ doc ∈ shelf.docs, ∃ conj ∈ doc.cons, ∃ expr ∈ conj.exprs field, expr.incl = incl ∧ key ∈ keywordsOf expr := by
  have isAc : shelf.kind = .ac := holds.kind.symm
  constructor
  · intro given
    obtain ⟨id, held⟩ := given
    obtain ⟨conj, ⟨doc, mem, i, listed, _⟩, slot⟩ := (holds.mem (.word (.of incl key)) id).mp held
    have inside := List.fst_mem_of_mem_zipIdx listed
    have succeed := holds.encodes doc mem conj inside
    rw [isAc] at slot succeed
    exact ⟨doc, mem, conj, inside, (ContainerKind.word_mem_ac succeed).mp slot⟩
  · intro given
    obtain ⟨doc, mem, conj, inside, written⟩ := given
    have succeed := holds.encodes doc mem conj inside
    rw [isAc] at succeed
    have slot := (ContainerKind.word_mem_ac succeed).mpr written
    obtain ⟨i, bound, rfl⟩ := List.mem_iff_getElem.mp inside
    have listed : (doc.cons[i], i) ∈ doc.cons.zipIdx := List.mk_mem_zipIdx_iff_getElem?.mpr (by simp [bound])
    obtain ⟨id, made⟩ := holds.named doc mem _ listed
    refine ⟨id, (holds.mem (.word (.of incl key)) id).mpr ⟨_, ⟨doc, mem, i, listed, made⟩, ?_⟩⟩
    rw [isAc]
    exact slot

theorem addDocument_holds {b b' : IvtBEIndexerBuilder} {orders : Nat → KeyOrder} {doc : Document}
    (run : b.addDocument orders doc = .ok (b', .ok ())) (found : b.containerBuilder.lookup field = some c)
    (found' : b'.containerBuilder.lookup field = some c') (holds : shelf.Holds field c) :
    Shelf.Holds field c' (shelf.add doc) := by
  have loaded := IvtBEIndexerBuilder.addDocument_loaded run
  have known : b.kinds field = some shelf.kind := by
    rw [IvtBEIndexerBuilder.kinds, found, Option.map_some, holds.kind]
  have known' : b'.kinds field = some c'.kind := by rw [IvtBEIndexerBuilder.kinds, found', Option.map_some]
  have kind : c'.kind = shelf.kind := Option.some.inj (known'.symm.trans (loaded.kinds ▸ known))
  refine ⟨kind, ?_, ?_, ?_, fun slot x => ?_, fun d same => ?_⟩
  · exact List.subset_append_of_subset_left _ holds.earlier
  · exact List.forall_mem_append.mpr ⟨holds.named, loaded.named⟩
  · refine List.forall_mem_append.mpr ⟨holds.encodes, fun doc mem conj inside => ?_⟩
    exact loaded.encodes doc mem conj inside field shelf.kind known
  · have written := loaded.mem field slot x
    simp only [IvtBEIndexerBuilder.bitmap, found, found', known, Option.some.injEq, exists_eq_left',
      holds.mem] at written
    rw [written]
    simp only [Names, Shelf.add, List.mem_append, or_and_right, exists_or]
  · subst same
    cases c with
    | default c =>
      rw [← holds.kind] at kind
      cases kind
    | ac c =>
      obtain ⟨sep, tight, words⟩ := holds.compiled c rfl
      have start : b.Has field (BEContainerBuilder.Kept c.inc c.exc) := by
        intro c₀ found₀ d' same
        obtain rfl := Option.some.inj (found.symm.trans found₀)
        obtain rfl := BEContainerBuilder.ac.inj same
        exact ⟨sep, tight, rfl, rfl⟩
      have kept := IvtBEIndexerBuilder.addDocument_keeps
        ⟨fun _ _ => .encodeWildcard, fun _ _ _ _ => .encodeExpr⟩ run start (.ac d) found' d rfl
      refine ⟨kept.sep, kept.tight, fun incl w => ?_⟩
      have machines : d.machine incl = c.machine incl := by
        cases incl
        · exact kept.exc
        · exact kept.inc
      rw [machines, words]
      rfl

theorem buildMachine_words [AhoMachine] {m : GoMap GoString PostingList} {machine : Option (List (List Rune))}
    (run : ACBEContainer.buildMachine m = .ok machine) (w : List Rune) :
    w ∈ machine.getD [] ↔ ∃ key ∈ m, runes key = w := by
  rw [← mem_wordsOf]
  unfold ACBEContainer.buildMachine at run
  extract_lets keys at run
  split at run
  · rename_i none
    obtain rfl := Except.ok.inj run
    have empty : wordsOf m = [] := List.isEmpty_iff.mp none
    rw [empty]
    rfl
  · obtain ⟨_, _, done⟩ := bind_eq_ok.mp run
    obtain rfl := Except.ok.inj done
    rfl

theorem compile_holds [AhoMachine] (run : c.compile = .ok c') (holds : shelf.Holds field c) :
    Shelf.Holds field c' shelf.build := by
  cases c with
  | default c =>
    obtain rfl := Except.ok.inj run
    exact ⟨holds.kind, List.Subset.refl _, holds.named, holds.encodes, holds.mem, nofun⟩
  | ac c =>
    obtain ⟨d, built, rfl⟩ := map_eq_ok.mp run
    obtain ⟨inc, builtInc, rest⟩ := bind_eq_ok.mp built
    obtain ⟨exc, builtExc, done⟩ := bind_eq_ok.mp rest
    obtain rfl := Except.ok.inj done
    have bitmaps : ∀ slot, (BEContainerBuilder.ac { c with inc := inc, exc := exc }).bitmap slot =
        (BEContainerBuilder.ac c).bitmap slot := by
      intro slot
      cases slot <;> rfl
    refine ⟨holds.kind, List.Subset.refl _, holds.named, holds.encodes, ?_, fun d' same => ?_⟩
    · simp only [bitmaps]
      exact holds.mem
    obtain rfl := BEContainerBuilder.ac.inj same
    obtain ⟨sep, tight, _⟩ := holds.compiled c rfl
    refine ⟨sep, tight, fun incl w => ?_⟩
    have words : w ∈ ((if incl then inc else exc).getD []) ↔ ∃ key ∈ c.postings.side incl, runes key = w := by
      cases incl
      · exact buildMachine_words builtExc w
      · exact buildMachine_words builtInc w
    refine words.trans (exists_congr fun key => and_congr_left fun _ => ?_)
    refine Iff.trans ⟨tight incl key, fun held => ?_⟩ holds.exists_id
    obtain ⟨id, held⟩ := held
    by_contra missing
    rw [Postings.bitmap_of, AList.lookup_eq_none.mpr missing] at held
    cases held

end Calls

/-! ### Answers -/

namespace Shelf.Holds

variable {field : BEField} {c : BEContainerBuilder} {shelf : Shelf} {v : Value} {x : ConjunctionID} {conj : Conjunction}

theorem mem_bitmap (holds : shelf.Holds field c) (distinct : (shelf.docs.map Document.id).Nodup)
    (names : Names shelf.docs x conj) (slot : AnySlot) :
    x ∈ c.bitmap slot ↔ slot ∈ upTo (shelf.kind.steps (conj.exprs field)) := by
  rw [holds.mem]
  constructor
  · intro given
    obtain ⟨conj', names', held⟩ := given
    exact names.unique distinct names' ▸ held
  · intro held
    exact ⟨conj, names, held⟩

theorem steps_succeed (holds : shelf.Holds field c) (names : Names shelf.docs x conj) :
    Succeed (shelf.kind.steps (conj.exprs field)) := by
  obtain ⟨doc, mem, i, listed, _⟩ := names
  exact holds.encodes doc mem conj (List.fst_mem_of_mem_zipIdx listed)

theorem answer_of_names {pl : PostingList} (holds : shelf.Holds field c)
    (inside : ∀ x ∈ pl, ∃ slot, x ∈ c.bitmap slot)
    (each : ∀ x conj, Names shelf.docs x conj → (x ∈ pl ↔ shelf.Accepts field v conj)) (x : ConjunctionID) :
    x ∈ pl ↔ ∃ conj, Names shelf.docs x conj ∧ shelf.Accepts field v conj := by
  constructor
  · intro mem
    obtain ⟨slot, held⟩ := inside x mem
    obtain ⟨conj, names, _⟩ := (holds.mem slot x).mp held
    exact ⟨conj, names, (each x conj names).mp mem⟩
  · intro given
    obtain ⟨conj, names, accepts⟩ := given
    exact (each x conj names).mpr accepts

theorem answer_default {c : DefaultBEContainer} (holds : shelf.Holds field (.default c))
    (distinct : (shelf.docs.map Document.id).Nodup) (reads : shelf.Reads v) :
    ∃ pl, c.retrieve v ∅ = .ok pl ∧
      ∀ x, x ∈ pl ↔ ∃ conj, Names shelf.docs x conj ∧ shelf.Accepts field v conj := by
  have kind : shelf.kind = .default c.parser := holds.kind.symm
  simp only [Reads, kind] at reads
  obtain ⟨plain, ids, parsed⟩ := reads
  have run : c.retrieve v ∅ = .ok (c.answers ids) := by
    rw [c.retrieve_eq plain, parsed]
    rfl
  refine ⟨_, run, holds.answer_of_names (fun x mem => ?_) fun x conj names => ?_⟩
  · obtain ⟨slot, held⟩ := DefaultBEContainer.retrieve_bitmap run mem
    exact ⟨.number slot, held⟩
  · have bits := fun slot => holds.mem_bitmap distinct names (.number slot)
    have succeed := holds.steps_succeed names
    rw [kind] at succeed
    simp only [BEContainerBuilder.bitmap, kind] at bits
    rw [DefaultBEContainer.mem_answers]
    simp only [bits]
    rw [ContainerKind.accepts_iff succeed]
    simp only [Shelf.Accepts, kind, parsed, Except.ok.injEq, forall_eq']

section Words

variable [AhoMachine] [AhoMachine.Documented] {d : ACBEContainer} {content : List Rune} {incl : Bool}

theorem foundBy_iff (holds : shelf.Holds field (.ac d)) (spelled : shelf.Spelled field) {w : List Rune} :
    w ∈ ACBEContainer.foundBy (d.machine incl) content ↔
      ∃ key, shelf.Searches field incl key ∧ runes key = w ∧ runes key <:+: content := by
  have words := (holds.compiled d rfl).words incl
  cases machine : d.machine incl with
  | none =>
    simp only [machine, Option.getD_none, List.not_mem_nil, false_iff, not_exists, not_and] at words
    constructor
    · intro found
      cases found
    · intro given
      obtain ⟨key, searched, same, _⟩ := given
      exact absurd same (words w key searched)
  | some ws =>
    simp only [machine, Option.getD_some] at words
    have nonempty : ∀ w ∈ ws, w ≠ [] := by
      intro w mem
      obtain ⟨key, ⟨doc, built, conj, inside, expr, listed, _, written⟩, rfl⟩ := (words w).mp mem
      exact mt runes_eq_nil.mp (spelled doc (holds.earlier built) conj inside expr listed key written).1
    rw [ACBEContainer.foundBy, AhoMachine.Documented.search ws content w nonempty, words]
    constructor
    · intro given
      obtain ⟨⟨key, searched, same⟩, occurs⟩ := given
      exact ⟨key, searched, same, same ▸ occurs⟩
    · intro given
      obtain ⟨key, searched, same, occurs⟩ := given
      exact ⟨⟨key, searched, same⟩, same ▸ occurs⟩

omit [AhoMachine] [AhoMachine.Documented] in
theorem searched_spelled (holds : shelf.Holds field (.ac d)) (spelled : shelf.Spelled field) {key : GoString}
    (searched : shelf.Searches field incl key) : stringOfRunes (runes key) = key := by
  obtain ⟨doc, built, conj, inside, expr, listed, _, written⟩ := searched
  exact validUtf8_iff.mp (spelled doc (holds.earlier built) conj inside expr listed key written).2

theorem wordList_found (holds : shelf.Holds field (.ac d)) (spelled : shelf.Spelled field) {w : List Rune}
    (found : w ∈ ACBEContainer.foundBy (d.machine incl) content) :
    ∃ pl, ACBEContainer.wordList (d.postings.side incl) w = .ok pl := by
  obtain ⟨key, searched, rfl, _⟩ := (holds.foundBy_iff spelled).mp found
  rw [ACBEContainer.wordList_runs, holds.searched_spelled spelled searched]
  obtain ⟨doc, built, written⟩ := searched
  obtain ⟨id, held⟩ := holds.exists_id.mpr ⟨doc, holds.earlier built, written⟩
  by_contra missing
  rw [Postings.bitmap_of, AList.lookup_eq_none.mpr missing] at held
  cases held

/-- An id is among the bitmaps of the words that are found exactly if its conjunction mentions one. -/
theorem mem_found (holds : shelf.Holds field (.ac d)) (distinct : (shelf.docs.map Document.id).Nodup)
    (spelled : shelf.Spelled field) (built : buildAcMatchContent v (str " ") = .ok content)
    (names : Names shelf.docs x conj) :
    (∃ w ∈ ACBEContainer.foundBy (d.machine incl) content,
        x ∈ ((d.postings.side incl).lookup (stringOfRunes w)).getD ∅) ↔
      ∃ expr ∈ conj.exprs field, expr.incl = incl ∧ shelf.Mentions field v expr := by
  have bits := fun key => holds.mem_bitmap distinct names (.word (.of incl key))
  have succeed := holds.steps_succeed names
  have isAc : shelf.kind = .ac := holds.kind.symm
  rw [isAc] at succeed
  simp only [BEContainerBuilder.bitmap, isAc, ContainerKind.word_mem_ac succeed, Postings.bitmap_of] at bits
  constructor
  · intro given
    obtain ⟨w, found, held⟩ := given
    obtain ⟨key, searched, rfl, occurs⟩ := (holds.foundBy_iff spelled).mp found
    rw [holds.searched_spelled spelled searched, bits] at held
    obtain ⟨expr, listed, rfl, written⟩ := held
    exact ⟨expr, listed, rfl, key, written, searched, content, built, occurs⟩
  · intro given
    obtain ⟨expr, listed, side, key, written, searched, content', built', occurs⟩ := given
    obtain rfl := Except.ok.inj (built.symm.trans built')
    subst side
    refine ⟨runes key, (holds.foundBy_iff spelled).mpr ⟨key, searched, rfl, occurs⟩, ?_⟩
    rw [holds.searched_spelled spelled searched, bits]
    exact ⟨expr, listed, rfl, written⟩

omit [AhoMachine] [AhoMachine.Documented] in
theorem not_mentions_nil (holds : shelf.Holds field (.ac d)) (spelled : shelf.Spelled field)
    (isNil : nilInterface v = .ok true) (expr : BoolValues) : ¬ shelf.Mentions field v expr := by
  intro given
  obtain ⟨key, _, ⟨doc, built, conj, inside, expr', listed, _, written⟩, content, made, occurs⟩ := given
  rcases ACBEContainer.content_of_nil made with notNil | ⟨_, rfl⟩
  · rw [isNil] at notNil
    cases notNil
  · exact (spelled doc (holds.earlier built) conj inside expr' listed key written).1
      (runes_eq_nil.mp (List.infix_nil.mp occurs))

theorem answer_ac (holds : shelf.Holds field (.ac d)) (distinct : (shelf.docs.map Document.id).Nodup)
    (spelled : shelf.Spelled field) (reads : shelf.Reads v) :
    ∃ pl, d.retrieve v ∅ = .ok pl ∧
      ∀ x, x ∈ pl ↔ ∃ conj, Names shelf.docs x conj ∧ shelf.Accepts field v conj := by
  have isAc : shelf.kind = .ac := holds.kind.symm
  have wild : ∀ x conj, Names shelf.docs x conj → (x ∈ d.postings.wc ↔
    ∀ expr ∈ conj.exprs field, expr.incl = false) := by
    intro x conj names
    have bit := holds.mem_bitmap distinct names (.word .wildcard)
    have succeed := holds.steps_succeed names
    rw [isAc] at succeed
    rwa [isAc, ContainerKind.wildcard_mem_ac succeed] at bit
  by_cases isNil : nilInterface v = .ok true
  · have run : d.retrieve v ∅ = .ok (∅ ∪ d.postings.wc) := ACBEContainer.retrieve_nil isNil
    refine ⟨_, run, holds.answer_of_names (fun x mem => ?_) fun x conj names => ?_⟩
    · obtain ⟨slot, held⟩ := ACBEContainer.retrieve_bitmap run mem
      exact ⟨.word slot, held⟩
    · have none := holds.not_mentions_nil spelled isNil
      simp only [Finset.empty_union, wild x conj names, Shelf.Accepts, isAc, none, and_false, exists_false, or_false,
        not_false_eq_true, implies_true, and_true]
  · simp only [Reads, isAc] at reads
    obtain ⟨content, built⟩ := reads.resolve_left isNil
    have notNil : nilInterface v = .ok false :=
      (ACBEContainer.content_of_nil built).resolve_right fun both => isNil both.1
    have found : ∀ incl, ∃ pls, (ACBEContainer.foundBy (d.machine incl) content).mapM
        (ACBEContainer.wordList (d.postings.side incl)) = .ok pls :=
      fun incl => mapM_runs fun w found => holds.wordList_found spelled found
    obtain ⟨ins, hins⟩ := found true
    obtain ⟨outs, houts⟩ := found false
    have run : d.retrieve v ∅ = .ok (outs.foldl (· \ ·) (ins.foldl (· ∪ ·) (∅ ∪ d.postings.wc))) := by
      rw [ACBEContainer.retrieve_search notNil ((holds.compiled d rfl).sep ▸ built)]
      exact bind_eq_ok.mpr ⟨ins, hins, bind_eq_ok.mpr ⟨outs, houts, rfl⟩⟩
    refine ⟨_, run, holds.answer_of_names (fun x mem => ?_) fun x conj names => ?_⟩
    · obtain ⟨slot, held⟩ := ACBEContainer.retrieve_bitmap run mem
      exact ⟨.word slot, held⟩
    · rw [ACBEContainer.mem_foldl_diff, ACBEContainer.mem_foldl_union, ACBEContainer.mem_wordLists hins,
        ACBEContainer.mem_wordLists houts, holds.mem_found distinct spelled built names,
        holds.mem_found distinct spelled built names, Finset.empty_union, wild x conj names]
      simp only [Shelf.Accepts, isAc, not_exists, not_and]

end Words

theorem answer [AhoMachine] [AhoMachine.Documented] (holds : shelf.Holds field c)
    (distinct : (shelf.docs.map Document.id).Nodup) (spelled : shelf.kind = .ac → shelf.Spelled field)
    (reads : shelf.Reads v) :
    ∃ pl, c.container.retrieve v ∅ = .ok pl ∧
      ∀ x, x ∈ pl ↔ ∃ conj, Names shelf.docs x conj ∧ shelf.Accepts field v conj := by
  cases c with
  | default c => exact holds.answer_default distinct reads
  | ac d => exact holds.answer_ac distinct (spelled holds.kind.symm) reads

end Shelf.Holds

end BeIndexer.Roaring
