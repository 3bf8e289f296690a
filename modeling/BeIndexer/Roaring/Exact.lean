import BeIndexer.Roaring.Encode
import BeIndexer.Roaring.Scan

/-!
# What a scan returns

The bitmaps of a builder hold the conjunctions of the documents it accepted, and a container answers
with those whose expressions on its field the query satisfies. So a scan over default containers
returns the documents that have a satisfied conjunction, unless a value makes a container panic.
-/

namespace BeIndexer.Roaring

open Calls

/-! ### Queries -/

/-- The ids of a query value. There is nothing to parse in a value that is nil. -/
def queryIDs (parser : ValueIDGenerator) (v : Value) : Go (List UInt64) :=
  if v.isNil then .ok [] else parser.parseAssign v

def Shares (parser : ValueIDGenerator) (ids : List UInt64) (expr : BoolValues) : Prop :=
  ∃ values, parser.parseValue expr.value = .ok values ∧ ∃ value ∈ values, value ∈ ids

/-- The expressions on one field accept a query: none includes or one that includes shares an id, and none
that excludes does. -/
def Accepts (parser : ValueIDGenerator) (ids : List UInt64) (exprs : List BoolValues) : Prop :=
  ((∀ expr ∈ exprs, expr.incl = false) ∨ ∃ expr ∈ exprs, expr.incl = true ∧ Shares parser ids expr) ∧
    ∀ expr ∈ exprs, expr.incl = false → ¬ Shares parser ids expr

namespace IvtBEIndexerBuilder

/-- The parser of a field with a default container. -/
def parser (b : IvtBEIndexerBuilder) (field : BEField) : Option ValueIDGenerator :=
  match b.kinds field with
  | some (.default parser) => some parser
  | _ => none

/-- Every configured field accepts the query. -/
def Satisfied (b : IvtBEIndexerBuilder) (q : Assignments) (conj : Conjunction) : Prop :=
  ∀ field parser, b.parser field = some parser → ∀ ids, queryIDs parser (assigned q field) = .ok ids →
    Accepts parser ids (conj.exprs field)

end IvtBEIndexerBuilder

/-! ### Containers -/

namespace DefaultBEContainer

variable {c : DefaultBEContainer} {v : Value}

/-- What a container answers to the ids of a query. -/
def answers (c : DefaultBEContainer) (ids : List UInt64) : PostingList :=
  let included := ids.foldl (fun inout id => match c.postings.inc.lookup id with
    | some incPl => inout ∪ incPl
    | none => inout) c.postings.wc
  ids.foldl (fun inout id => match c.postings.exc.lookup id with
    | some excPl => inout \ excPl
    | none => inout) included

theorem retrieve_eq (c : DefaultBEContainer) (plain : v.isArray = false) :
    c.retrieve v ∅ = (queryIDs c.parser v).map c.answers := by
  rw [retrieve, nilInterface_eq, plain, queryIDs, Finset.empty_union]
  cases v.isNil with
  | true => rfl
  | false =>
    cases c.parser.parseAssign v with
    | error fault => rfl
    | ok ids => rfl

theorem retrieve_array (c : DefaultBEContainer) (array : v.isArray = true) :
    ∃ e, c.retrieve v ∅ = .error (.panic e) := by
  rw [retrieve, nilInterface_eq, array]
  exact ⟨_, rfl⟩

theorem mem_union_lists {m : GoMap UInt64 PostingList} {ids : List UInt64} {start : PostingList} {x : ConjunctionID} :
    x ∈ ids.foldl (fun inout id => match m.lookup id with
      | some pl => inout ∪ pl
      | none => inout) start ↔ x ∈ start ∨ ∃ id ∈ ids, x ∈ (m.lookup id).getD ∅ := by
  induction ids generalizing start with
  | nil => simp
  | cons id ids ih =>
    rw [List.foldl_cons, ih, List.exists_mem_cons_iff, ← or_assoc]
    cases m.lookup id with
    | none => simp
    | some pl => simp

theorem mem_diff_lists {m : GoMap UInt64 PostingList} {ids : List UInt64} {start : PostingList} {x : ConjunctionID} :
    x ∈ ids.foldl (fun inout id => match m.lookup id with
      | some pl => inout \ pl
      | none => inout) start ↔ x ∈ start ∧ ∀ id ∈ ids, x ∉ (m.lookup id).getD ∅ := by
  induction ids generalizing start with
  | nil => simp
  | cons id ids ih =>
    rw [List.foldl_cons, ih, List.forall_mem_cons, ← and_assoc]
    cases m.lookup id with
    | none => simp
    | some pl => simp

theorem mem_answers {ids : List UInt64} {x : ConjunctionID} :
    x ∈ c.answers ids ↔ (x ∈ c.postings.bitmap .wildcard ∨ ∃ id ∈ ids, x ∈ c.postings.bitmap (.inc id)) ∧
      ∀ id ∈ ids, x ∉ c.postings.bitmap (.exc id) := by
  rw [answers, mem_diff_lists, mem_union_lists]
  rfl

end DefaultBEContainer

/-! ### What the bitmaps hold -/

namespace ContainerKind

variable {parser : ValueIDGenerator} {exprs : List BoolValues} {expr : BoolValues} {slots : List AnySlot}

theorem slots_default (run : (ContainerKind.default parser).slots expr = .ok slots) :
    ∃ values, parser.parseValue expr.value = .ok values ∧
      slots = values.map fun value => .number (.of expr.incl value) := by
  obtain ⟨_, _, rest⟩ := bind_eq_ok.mp run
  obtain ⟨values, parsed, done⟩ := bind_eq_ok.mp rest
  exact ⟨values, parsed, (Except.ok.inj done).symm⟩

theorem mem_steps (kind : ContainerKind) (succeed : Succeed (kind.steps exprs)) {slot : AnySlot} :
    slot ∈ upTo (kind.steps exprs) ↔ (∃ expr ∈ exprs, ∃ slots, kind.slots expr = .ok slots ∧ slot ∈ slots) ∨
      (slot = kind.wildcard ∧ ∀ expr ∈ exprs, expr.incl = false) := by
  rw [mem_upTo succeed, steps]
  simp only [List.mem_append, List.mem_map, List.mem_singleton, Except.ok.injEq]
  constructor
  · rintro ⟨ws, ⟨expr, mem, run⟩ | rfl, held⟩
    · exact Or.inl ⟨expr, mem, ws, run, held⟩
    · right
      split at held
      next all => exact ⟨List.mem_singleton.mp held, by simpa using all⟩
      next => cases held
  · rintro (⟨expr, mem, slots, run, held⟩ | ⟨rfl, none⟩)
    · exact ⟨slots, Or.inl ⟨expr, mem, run⟩, held⟩
    · have all : exprs.all (fun expr => !expr.incl) = true := by simpa using none
      exact ⟨_, Or.inr rfl, by rw [all]; exact List.mem_singleton_self _⟩

/-- Reading the bitmaps of a field back: the conjunction is answered exactly if its expressions accept. -/
theorem accepts_iff (succeed : Succeed ((ContainerKind.default parser).steps exprs)) (ids : List UInt64) :
    ((.number .wildcard ∈ upTo ((ContainerKind.default parser).steps exprs) ∨
        ∃ id ∈ ids, .number (.inc id) ∈ upTo ((ContainerKind.default parser).steps exprs)) ∧
      ∀ id ∈ ids, .number (.exc id) ∉ upTo ((ContainerKind.default parser).steps exprs)) ↔
    Accepts parser ids exprs := by
  have wildcards : .number .wildcard ∈ upTo ((ContainerKind.default parser).steps exprs) ↔
      ∀ expr ∈ exprs, expr.incl = false := by
    rw [mem_steps _ succeed]
    refine ⟨?_, fun none => Or.inr ⟨rfl, none⟩⟩
    rintro (⟨expr, _, slots, run, held⟩ | ⟨_, none⟩)
    · obtain ⟨values, _, rfl⟩ := slots_default run
      obtain ⟨value, _, same⟩ := List.mem_map.mp held
      exact absurd (AnySlot.number.inj same) (Slot.of_ne_wildcard _ _)
    · exact none
  have encoded : ∀ incl : Bool, ∀ id, .number (.of incl id) ∈ upTo ((ContainerKind.default parser).steps exprs) ↔
      ∃ expr ∈ exprs, expr.incl = incl ∧ ∃ values, parser.parseValue expr.value = .ok values ∧ id ∈ values := by
    intro incl id
    rw [mem_steps _ succeed]
    constructor
    · rintro (⟨expr, mem, slots, run, held⟩ | ⟨same, _⟩)
      · obtain ⟨values, parsed, rfl⟩ := slots_default run
        obtain ⟨value, inside, same⟩ := List.mem_map.mp held
        obtain ⟨kind, rfl⟩ := Slot.of_inj.mp (AnySlot.number.inj same)
        exact ⟨expr, mem, kind, values, parsed, inside⟩
      · exact absurd (AnySlot.number.inj same) (Slot.of_ne_wildcard _ _)
    · rintro ⟨expr, mem, rfl, values, parsed, inside⟩
      obtain ⟨slots, run⟩ := succeed _ (List.mem_append_left _ (List.mem_map_of_mem mem))
      obtain ⟨values', parsed', rfl⟩ := slots_default run
      obtain rfl := Except.ok.inj (parsed.symm.trans parsed')
      exact Or.inl ⟨expr, mem, _, run, List.mem_map.mpr ⟨id, inside, rfl⟩⟩
  rw [wildcards, Accepts]
  refine and_congr (or_congr_right ?_) ?_
  · constructor
    · rintro ⟨id, asked, held⟩
      obtain ⟨expr, mem, incl, values, parsed, inside⟩ := (encoded true id).mp held
      exact ⟨expr, mem, incl, values, parsed, id, inside, asked⟩
    · rintro ⟨expr, mem, incl, values, parsed, id, inside, asked⟩
      exact ⟨id, asked, (encoded true id).mpr ⟨expr, mem, incl, values, parsed, inside⟩⟩
  · constructor
    · rintro clear expr mem excl ⟨values, parsed, id, inside, asked⟩
      exact clear id asked ((encoded false id).mpr ⟨expr, mem, excl, values, parsed, inside⟩)
    · intro clear id asked held
      obtain ⟨expr, mem, excl, values, parsed, inside⟩ := (encoded false id).mp held
      exact clear expr mem excl ⟨values, parsed, id, inside, asked⟩

end ContainerKind

namespace IvtBEIndexerBuilder

variable {b b' : IvtBEIndexerBuilder} {orders : Nat → KeyOrder} {doc : Document}

theorem conjSteps_succeed {kinds : BEField → Option ContainerKind} {order : Nat → List BEField} {docID : DocID}
    {conj : Conjunction × Nat} (succeed : Succeed (conjSteps kinds order docID conj)) :
    ∃ id, newConjunctionID conj.2 docID = .ok id ∧
      conjSteps kinds order docID conj = (order conj.2).flatMap (fieldSteps kinds id conj.1) := by
  unfold conjSteps at succeed ⊢
  cases made : newConjunctionID conj.2 docID with
  | error fault =>
    simp only [made] at succeed
    obtain ⟨_, absurd⟩ := succeed _ List.mem_cons_self
    cases absurd
  | ok id =>
    simp only [made] at succeed
    split at succeed
    · obtain ⟨_, absurd⟩ := succeed _ List.mem_cons_self
      cases absurd
    · exact ⟨id, rfl, rfl⟩

theorem mem_visit_keys (b : IvtBEIndexerBuilder) (order : KeyOrder) {field : BEField} :
    field ∈ order.visit b.containerBuilder.keys ↔ (b.kinds field).isSome = true := by
  rw [(order.perm _).mem_iff, kinds, Option.isSome_map, AList.lookup_isSome]
  rfl

/-- A conjunction of an accepted document has an id, and its expressions can be encoded. -/
theorem docSteps_succeed (succeed : Succeed (docSteps orders b doc)) {conj : Conjunction × Nat}
    (mem : conj ∈ doc.cons.zipIdx) :
    (∃ id, newConjunctionID conj.2 doc.id = .ok id) ∧
      ∀ field kind, b.kinds field = some kind → Succeed (kind.steps (conj.1.exprs field)) := by
  have here := succeed_flatMap.mp succeed conj mem
  obtain ⟨id, made, steps⟩ := conjSteps_succeed here
  refine ⟨⟨id, made⟩, fun field kind known => ?_⟩
  rw [steps] at here
  have visited : field ∈ (orders conj.2).visit b.containerBuilder.keys :=
    (b.mem_visit_keys _).mpr (Option.isSome_iff_exists.mpr ⟨kind, known⟩)
  have encoded := succeed_flatMap.mp here field visited
  rw [fieldSteps, known] at encoded
  exact (succeed_map _).mp encoded

/-- What an accepted document writes: for each conjunction and each configured field the bitmaps of the
expressions on the field. -/
theorem mem_docSteps (succeed : Succeed (docSteps orders b doc)) {field : BEField} {slot : AnySlot}
    {x : ConjunctionID} :
    ⟨field, slot, x⟩ ∈ upTo (docSteps orders b doc) ↔
      ∃ conj ∈ doc.cons.zipIdx, newConjunctionID conj.2 doc.id = .ok x ∧
        ∃ kind, b.kinds field = some kind ∧ slot ∈ upTo (kind.steps (conj.1.exprs field)) := by
  have each := succeed_flatMap.mp succeed
  rw [docSteps, mem_upTo_flatMap each]
  refine exists_congr fun conj => and_congr_right fun mem => ?_
  obtain ⟨id, made, steps⟩ := conjSteps_succeed (each conj mem)
  have fields := each conj mem
  rw [steps] at fields ⊢
  rw [mem_upTo_flatMap (succeed_flatMap.mp fields), made]
  constructor
  · rintro ⟨f, _, held⟩
    cases known : b.kinds f with
    | none =>
      rw [fieldSteps, known] at held
      cases held
    | some kind =>
      rw [fieldSteps, known] at held
      simp only [upTo_map, List.mem_map, Write.mk.injEq] at held
      obtain ⟨slot', inside, rfl, rfl, rfl⟩ := held
      exact ⟨rfl, kind, known, inside⟩
  · rintro ⟨same, kind, known, inside⟩
    obtain rfl := Except.ok.inj same
    refine ⟨field, (b.mem_visit_keys _).mpr (Option.isSome_iff_exists.mpr ⟨kind, known⟩), ?_⟩
    rw [fieldSteps, known]
    simp only [upTo_map]
    exact List.mem_map_of_mem inside

end IvtBEIndexerBuilder

def Names (docs : List Document) (id : ConjunctionID) (conj : Conjunction) : Prop :=
  ∃ doc ∈ docs, ∃ i, (conj, i) ∈ doc.cons.zipIdx ∧ newConjunctionID i doc.id = .ok id

theorem Names.unique {docs : List Document} {id : ConjunctionID} {conj conj' : Conjunction}
    (distinct : (docs.map Document.id).Nodup) (names : Names docs id conj) (names' : Names docs id conj') :
    conj = conj' := by
  obtain ⟨doc, mem, i, listed, made⟩ := names
  obtain ⟨doc', mem', i', listed', made'⟩ := names'
  obtain ⟨sameID, rfl⟩ := newConjunctionID_inj made made'
  obtain rfl := List.inj_on_of_nodup_map distinct mem mem' sameID
  have found := List.mk_mem_zipIdx_iff_getElem?.mp listed
  have found' := List.mk_mem_zipIdx_iff_getElem?.mp listed'
  exact Option.some.inj (found.symm.trans found')

namespace IvtBEIndexerBuilder

variable {b b' : IvtBEIndexerBuilder} {docs : List ((Nat → KeyOrder) × Document)}

/-- The bitmaps hold the conjunctions of the documents, and those held before. -/
structure Loaded (b : IvtBEIndexerBuilder) (docs : List Document) (b' : IvtBEIndexerBuilder) : Prop where
  kinds : b'.kinds = b.kinds
  named : ∀ doc ∈ docs, ∀ conj ∈ doc.cons.zipIdx, ∃ id, newConjunctionID conj.2 doc.id = .ok id
  encodes : ∀ doc ∈ docs, ∀ conj ∈ doc.cons, ∀ field kind, b.kinds field = some kind →
    Succeed (kind.steps (conj.exprs field))
  mem : ∀ field slot x, x ∈ b'.bitmap field slot ↔ x ∈ b.bitmap field slot ∨
    ∃ conj, Names docs x conj ∧ ∃ kind, b.kinds field = some kind ∧ slot ∈ upTo (kind.steps (conj.exprs field))

theorem Loaded.nil (b : IvtBEIndexerBuilder) : b.Loaded [] b := ⟨rfl, by simp, by simp, by simp [Names]⟩

theorem Loaded.append {b'' : IvtBEIndexerBuilder} {docs docs' : List Document} (first : b.Loaded docs b')
    (second : b'.Loaded docs' b'') : b.Loaded (docs ++ docs') b'' := by
  have sameKinds := first.kinds
  refine ⟨second.kinds.trans first.kinds, List.forall_mem_append.mpr ⟨first.named, second.named⟩,
    List.forall_mem_append.mpr ⟨first.encodes, sameKinds ▸ second.encodes⟩, fun field slot x => ?_⟩
  rw [second.mem, first.mem, sameKinds]
  simp only [Names, List.mem_append, or_and_right, exists_or, or_assoc]

theorem Loaded.names {docs : List Document} (loaded : b.Loaded docs b') {field : BEField}
    {slot : AnySlot} {x : ConjunctionID} (empty : b.bitmap field slot = ∅) (held : x ∈ b'.bitmap field slot) :
    ∃ conj, Names docs x conj := by
  rw [loaded.mem, empty] at held
  obtain ⟨conj, names, _⟩ := held.resolve_left (Finset.notMem_empty x)
  exact ⟨conj, names⟩

theorem Loaded.mem_bitmap {docs : List Document} (loaded : b.Loaded docs b') (distinct : (docs.map Document.id).Nodup)
    {field : BEField} {slot : AnySlot} {x : ConjunctionID} {conj : Conjunction} {kind : ContainerKind}
    (empty : b.bitmap field slot = ∅) (names : Names docs x conj) (known : b.kinds field = some kind) :
    x ∈ b'.bitmap field slot ↔ slot ∈ upTo (kind.steps (conj.exprs field)) := by
  rw [loaded.mem, empty, or_iff_right (Finset.notMem_empty x)]
  constructor
  · rintro ⟨conj', names', kind', known', held⟩
    obtain rfl := names.unique distinct names'
    obtain rfl := Option.some.inj (known.symm.trans known')
    exact held
  · exact fun held => ⟨conj, names, kind, known, held⟩

theorem addDocument_loaded {orders : Nat → KeyOrder} {doc : Document}
    (run : b.addDocument orders doc = .ok (b', .ok ())) : b.Loaded [doc] b' := by
  obtain ⟨succeed, kinds, mem⟩ := addDocument_ok run
  refine ⟨kinds, ?_, ?_, fun field slot x => ?_⟩
  · simp only [List.forall_mem_singleton]
    exact fun conj listed => (docSteps_succeed succeed listed).1
  · simp only [List.forall_mem_singleton]
    intro conj inside
    obtain ⟨i, bound, rfl⟩ := List.mem_iff_getElem.mp inside
    have listed : (doc.cons[i], i) ∈ doc.cons.zipIdx := List.mk_mem_zipIdx_iff_getElem?.mpr (by simp [bound])
    exact (docSteps_succeed succeed listed).2
  · rw [mem, mem_docSteps succeed]
    refine or_congr_right ?_
    simp only [Names, List.mem_singleton, exists_eq_left, Prod.exists]
    constructor
    · rintro ⟨conj, i, listed, made, held⟩
      exact ⟨conj, ⟨i, listed, made⟩, held⟩
    · rintro ⟨conj, ⟨i, listed, made⟩, held⟩
      exact ⟨conj, i, listed, made, held⟩

theorem addDocuments_loaded {us : List Unit} (run : b.addDocuments docs = .ok (b', .ok us)) :
    b.Loaded (docs.map Prod.snd) b' := by
  induction docs generalizing b us with
  | nil =>
    obtain ⟨rfl, _⟩ := Prod.mk.inj (Except.ok.inj run)
    exact Loaded.nil b
  | cons doc docs ih =>
    obtain ⟨b₁, u, us', first, others, _⟩ := mapCalls_cons_ok.mp run
    exact (addDocument_loaded first).append (ih others)

/-! ### Default containers -/

/-- Fields configured with default containers, each with its own parser or the default one. -/
def configureFields (b : IvtBEIndexerBuilder) (settings : List (BEField × Option ValueIDGenerator)) :
    Go (IvtBEIndexerBuilder × Except GoError (List Unit)) :=
  mapCalls (fun b setting => b.configureField setting.1 ⟨setting.2, ContainerNameDefault⟩) b settings

/-- There are only default containers, and nothing is in them. -/
def Blank (b : IvtBEIndexerBuilder) : Prop :=
  ∀ field c, b.containerBuilder.lookup field = some c → ∃ parser, c = .default ⟨parser, .empty⟩

theorem configureField_default (b : IvtBEIndexerBuilder) (field : BEField) (parser : Option ValueIDGenerator) :
    b.configureField field ⟨parser, ContainerNameDefault⟩ = .ok ({ b with
      containerBuilder := b.containerBuilder.insert field (.default ⟨parser.getD b.defaultParser, .empty⟩) },
        .ok ()) := by
  simp [configureField, newContainerBuilder]

theorem parser_eq_some {field : BEField} {parser : ValueIDGenerator} :
    b.parser field = some parser ↔ b.kinds field = some (.default parser) := by
  rw [IvtBEIndexerBuilder.parser]
  split
  next known => rw [known]; simp
  next none => simpa using none parser

theorem parser_of_lookup {field : BEField} {c : DefaultBEContainer}
    (found : b.containerBuilder.lookup field = some (.default c)) : b.parser field = some c.parser := by
  rw [parser_eq_some, kinds, found]
  rfl

theorem configureFields_blank {settings : List (BEField × Option ValueIDGenerator)} {us : List Unit} (blank : b.Blank)
    (run : b.configureFields settings = .ok (b', .ok us)) :
    b'.Blank ∧ (settings ≠ [] ∨ (∃ field parser, b.parser field = some parser) →
      ∃ field parser, b'.parser field = some parser) := by
  induction settings generalizing b us with
  | nil =>
    obtain ⟨rfl, _⟩ := Prod.mk.inj (Except.ok.inj run)
    exact ⟨blank, fun some => some.resolve_left fun absurd => absurd rfl⟩
  | cons setting settings ih =>
    obtain ⟨b₁, u, us', first, others, _⟩ := mapCalls_cons_ok.mp run
    rw [configureField_default] at first
    obtain ⟨rfl, _⟩ := Prod.mk.inj (Except.ok.inj first)
    have blank₁ : Blank { b with containerBuilder :=
        b.containerBuilder.insert setting.1 (.default ⟨setting.2.getD b.defaultParser, .empty⟩) } := by
      intro field c found
      by_cases same : field = setting.1
      · subst same
        rw [AList.lookup_insert] at found
        exact ⟨_, (Option.some.inj found).symm⟩
      · rw [AList.lookup_insert_ne same] at found
        exact blank field c found
    obtain ⟨blank', some⟩ := ih blank₁ others
    refine ⟨blank', fun _ => some (Or.inr ⟨setting.1, setting.2.getD b.defaultParser, parser_eq_some.mpr ?_⟩)⟩
    rw [kinds, AList.lookup_insert]
    rfl

theorem configureFields_parsedBy {settings : List (BEField × Option ValueIDGenerator)} {us : List Unit}
    (run : b.configureFields settings = .ok (b', .ok us)) {field : BEField} {parser : ValueIDGenerator}
    (known : b'.parser field = some parser) :
    b.parser field = some parser ∨ ∃ setting ∈ settings, setting.1 = field ∧
      setting.2.getD b.defaultParser = parser := by
  induction settings generalizing b us with
  | nil =>
    obtain ⟨rfl, _⟩ := Prod.mk.inj (Except.ok.inj run)
    exact Or.inl known
  | cons setting settings ih =>
    obtain ⟨b₁, u, us', first, others, _⟩ := mapCalls_cons_ok.mp run
    rw [configureField_default] at first
    obtain ⟨rfl, _⟩ := Prod.mk.inj (Except.ok.inj first)
    rcases ih others with held | ⟨later, mem, found⟩
    · rw [parser_eq_some, kinds] at held
      by_cases same : field = setting.1
      · rw [same, AList.lookup_insert] at held
        exact Or.inr ⟨setting, List.mem_cons_self, same.symm, ContainerKind.default.inj (Option.some.inj held)⟩
      · rw [AList.lookup_insert_ne same] at held
        exact Or.inl (parser_eq_some.mpr held)
    · exact Or.inr ⟨later, List.mem_cons_of_mem _ mem, found⟩

theorem Blank.bitmap (blank : b.Blank) (field : BEField) (slot : AnySlot) : b.bitmap field slot = ∅ := by
  rw [IvtBEIndexerBuilder.bitmap]
  split
  next c found =>
    obtain ⟨parser, rfl⟩ := blank field c found
    cases slot with
    | number slot => cases slot <;> rfl
    | word slot => rfl
  next => rfl

theorem lookup_of_kind {field : BEField} {parser : ValueIDGenerator} (known : b.kinds field = some (.default parser)) :
    ∃ c : DefaultBEContainer, b.containerBuilder.lookup field = some (.default c) ∧ c.parser = parser := by
  obtain ⟨c, found, kind⟩ := Option.map_eq_some_iff.mp known
  cases c with
  | default c => exact ⟨c, found, ContainerKind.default.inj kind⟩
  | ac c => cases kind

theorem Blank.kinds (blank : b.Blank) {field : BEField} {kind : ContainerKind} (known : b.kinds field = some kind) :
    ∃ parser, kind = .default parser := by
  obtain ⟨c, found, rfl⟩ := Option.map_eq_some_iff.mp known
  obtain ⟨parser, rfl⟩ := blank field c found
  exact ⟨parser, rfl⟩

section

variable [AhoMachine]

theorem buildLoop_lookup {es : List (Sigma fun _ : BEField => BEContainerBuilder)}
    {data data' : GoMap BEField BEContainer} (nodup : es.NodupKeys)
    (run : es.foldlM (fun (data : GoMap BEField BEContainer) e => do
      let container ← e.2.buildBEContainer
      return data.insert e.1 container) data = .ok data') (field : BEField) :
    (∀ c, es.dlookup field = some c → ∃ container, c.buildBEContainer = .ok container ∧
      data'.lookup field = some container) ∧ (es.dlookup field = none → data'.lookup field = data.lookup field) := by
  induction es generalizing data with
  | nil =>
    obtain rfl := Except.ok.inj run
    exact ⟨fun c found => (nomatch found), fun _ => rfl⟩
  | cons e es ih =>
    obtain ⟨data₁, step, rest⟩ := bind_eq_ok.mp run
    obtain ⟨container, built, done⟩ := bind_eq_ok.mp step
    obtain rfl := Except.ok.inj done
    obtain ⟨fresh, nodup'⟩ := List.nodupKeys_cons.mp nodup
    obtain ⟨found, missing⟩ := ih nodup' rest
    by_cases same : field = e.1
    · subst same
      have absent : es.dlookup e.1 = none := List.dlookup_eq_none.mpr fresh
      rw [List.dlookup_cons_eq]
      refine ⟨fun c here => ⟨container, Option.some.inj here ▸ built, ?_⟩, fun none => nomatch none⟩
      rw [missing absent, AList.lookup_insert]
    · rw [List.dlookup_cons_ne _ _ same]
      refine ⟨found, fun none => ?_⟩
      rw [missing none, AList.lookup_insert_ne same]

theorem mem_entries_built {indexer : IvtBEIndexer} (built : b.buildIndexer = .ok indexer)
    {e : Sigma fun _ : BEField => BEContainer} :
    e ∈ indexer.data.entries ↔ ∃ c, b.containerBuilder.lookup e.1 = some c ∧ c.buildBEContainer = .ok e.2 := by
  obtain ⟨data, run, done⟩ := bind_eq_ok.mp built
  obtain rfl := Except.ok.inj done
  obtain ⟨field, container⟩ := e
  obtain ⟨found, missing⟩ := buildLoop_lookup b.containerBuilder.nodupKeys run field
  rw [← AList.mem_lookup_iff]
  constructor
  · intro held
    cases here : b.containerBuilder.lookup field with
    | none =>
      have absent := missing here
      rw [held] at absent
      cases absent
    | some c =>
      obtain ⟨_, compiled, lookup⟩ := found c here
      obtain rfl := Option.some.inj (held.symm.trans lookup)
      exact ⟨c, rfl, compiled⟩
  · intro ⟨c, here, compiled⟩
    obtain ⟨_, compiled', lookup⟩ := found c here
    obtain rfl := Except.ok.inj (compiled.symm.trans compiled')
    exact lookup

theorem mem_data {indexer : IvtBEIndexer} (built : b.buildIndexer = .ok indexer)
    (defaults : ∀ field kind, b.kinds field = some kind → ∃ parser, kind = .default parser)
    {e : Sigma fun _ : BEField => BEContainer} :
    e ∈ indexer.data.entries ↔
      ∃ c : DefaultBEContainer, b.containerBuilder.lookup e.1 = some (.default c) ∧ e.2 = ⟨c.retrieve⟩ := by
  rw [mem_entries_built built]
  constructor
  · intro listed
    obtain ⟨c, here, compiled⟩ := listed
    obtain ⟨parser, kind⟩ := defaults e.1 c.kind (by rw [kinds, here]; rfl)
    cases c with
    | ac c => cases kind
    | default c => exact ⟨c, here, (Except.ok.inj compiled).symm⟩
  · intro found
    obtain ⟨c, here, made⟩ := found
    exact ⟨.default c, here, congrArg Except.ok made.symm⟩

end

end IvtBEIndexerBuilder

/-! ### Scanners -/

namespace IvtScanner

/-- A call on a scanner that returned. `Retrieve` and `RetrieveDocs` scan alike. -/
inductive Request where
  | withHint (hints : List Int64)
  | retrieve (assigns : Assignments) (result : Except GoError Unit)

def Request.hints : Request → List Int64
  | .withHint hints => hints
  | .retrieve _ _ => []

/-- A scanner of an index after calls that returned, with those since it was new or reset. -/
inductive Run (indexer : IvtBEIndexer) : IvtScanner → List Request → Prop where
  | new : Run indexer (newScanner indexer) []
  | reset {s : IvtScanner} {calls : List Request} : Run indexer s calls → Run indexer s.reset []
  | hinted {s s' : IvtScanner} {calls : List Request} {hints : List Int64} :
      Run indexer s calls → s.withHint hints = .ok s' → Run indexer s' (calls ++ [.withHint hints])
  | retrieved {s s' : IvtScanner} {calls : List Request} {q : Assignments} {visit : s.indexer.data.Visit}
      {r : Except GoError Unit} : Run indexer s calls → s.retrieveFrom q visit.1 = .ok (s', r) →
      Run indexer s' (calls ++ [.retrieve q r])

/-- A scanner of an index after any calls. -/
def Reached (indexer : IvtBEIndexer) (s : IvtScanner) : Prop := ∃ calls, Run indexer s calls

/-- A scanner that is new, or was reset. -/
def Fresh (indexer : IvtBEIndexer) (s : IvtScanner) : Prop :=
  s = newScanner indexer ∨ ∃ s₀, Reached indexer s₀ ∧ s = s₀.reset

theorem retrieveFrom_indexer {q : Assignments} {es : List (Sigma fun _ : BEField => BEContainer)} {s s' : IvtScanner}
    {r : Except GoError Unit} (run : s.retrieveFrom q es = .ok (s', r)) : s'.indexer = s.indexer := by
  induction es generalizing s with
  | nil =>
    obtain ⟨rfl, _⟩ := Prod.mk.inj (Except.ok.inj run)
    rfl
  | cons e es ih =>
    rw [retrieveFrom] at run
    split at run
    · obtain ⟨rfl, _⟩ := Prod.mk.inj (Except.ok.inj run)
      rfl
    · split at run
      next pl _ =>
        rw [ih run]
        unfold mergeFieldResult
        split
        · rfl
        · split <;> rfl
      · obtain ⟨rfl, _⟩ := Prod.mk.inj (Except.ok.inj run)
        rfl
      · cases run

theorem retrieve_scans {q : Assignments} {s s' : IvtScanner} {visit : s.indexer.data.Visit}
    {r : Except GoError (List UInt64)} (run : s.retrieve q visit = .ok (s', r)) :
    ∃ u, s.retrieveFrom q visit.1 = .ok (s', u) := by
  rcases scanned : s.retrieveFrom q visit.1 with fault | ⟨s₁, e | u⟩
  · rw [retrieve, scanned] at run
    cases run
  · rw [retrieve, scanned] at run
    obtain ⟨rfl, _⟩ := Prod.mk.inj (Except.ok.inj run)
    exact ⟨_, rfl⟩
  · rw [retrieve, scanned] at run
    obtain ⟨rfl, _⟩ := Prod.mk.inj (Except.ok.inj run)
    exact ⟨_, rfl⟩

theorem Run.indexer {indexer : IvtBEIndexer} {s : IvtScanner} {calls : List Request} (ran : Run indexer s calls) :
    s.indexer = indexer := by
  induction ran with
  | new => rfl
  | reset _ ih => exact ih
  | hinted _ run ih =>
    obtain ⟨_, _, done⟩ := bind_eq_ok.mp run
    obtain rfl := Except.ok.inj done
    exact ih
  | retrieved _ run ih => exact (retrieveFrom_indexer run).trans ih

theorem Reached.indexer {indexer : IvtBEIndexer} {s : IvtScanner} (reached : Reached indexer s) :
    s.indexer = indexer := by
  obtain ⟨_, ran⟩ := reached
  exact ran.indexer

theorem Fresh.eq_new {indexer : IvtBEIndexer} {s : IvtScanner} (fresh : Fresh indexer s) : s = newScanner indexer := by
  rcases fresh with rfl | ⟨s₀, reached, rfl⟩
  · rfl
  · rw [← reached.indexer]
    rfl

end IvtScanner

/-! ### Exactness -/

section

variable [AhoMachine]

/-- An index of documents, from a builder that had only empty default containers. -/
structure Indexed (b : IvtBEIndexerBuilder) (docs : List Document) (b' : IvtBEIndexerBuilder) (indexer : IvtBEIndexer) :
    Prop where
  blank : b.Blank
  configured : ∃ field parser, b.parser field = some parser
  loaded : b.Loaded docs b'
  distinct : (docs.map Document.id).Nodup
  built : b'.buildIndexer = .ok indexer

namespace Indexed

open IvtBEIndexerBuilder IvtScanner

variable {b b' : IvtBEIndexerBuilder} {docs : List Document} {indexer : IvtBEIndexer} {q : Assignments}
  {e : Sigma fun _ : BEField => BEContainer} {field : BEField} {parser : ValueIDGenerator} {ids : List UInt64}
  {id : ConjunctionID}

theorem mem_entries (h : Indexed b docs b' indexer) :
    e ∈ indexer.data.entries ↔
      ∃ c : DefaultBEContainer, b'.containerBuilder.lookup e.1 = some (.default c) ∧ e.2 = ⟨c.retrieve⟩ := by
  refine mem_data h.built ?_
  rw [h.loaded.kinds]
  exact fun field kind known => h.blank.kinds known

theorem lookup (h : Indexed b docs b' indexer) (known : b.parser field = some parser) :
    ∃ c : DefaultBEContainer, b'.containerBuilder.lookup field = some (.default c) ∧ c.parser = parser :=
  lookup_of_kind (h.loaded.kinds ▸ parser_eq_some.mp known)

theorem exists_entry (h : Indexed b docs b' indexer) (known : b.parser field = some parser) :
    ∃ can, ⟨field, can⟩ ∈ indexer.data.entries := by
  obtain ⟨c, found, _⟩ := h.lookup known
  exact ⟨_, h.mem_entries.mpr ⟨c, found, rfl⟩⟩

theorem entry_parsed (h : Indexed b docs b' indexer) (mem : e ∈ indexer.data.entries) :
    ∃ parser, b.parser e.1 = some parser := by
  obtain ⟨c, found, _⟩ := h.mem_entries.mp mem
  refine ⟨c.parser, ?_⟩
  rw [parser_eq_some, ← h.loaded.kinds, ← parser_eq_some]
  exact parser_of_lookup found

theorem answer_bitmap (h : Indexed b docs b' indexer) (mem : e ∈ indexer.data.entries)
    (known : b.parser e.1 = some parser) (parsed : queryIDs parser (assigned q e.1) = .ok ids)
    (plain : (assigned q e.1).isArray = false) :
    ∃ pl, answer q e = .ok pl ∧ ∀ x, x ∈ pl ↔
      (x ∈ b'.bitmap e.1 (.number .wildcard) ∨ ∃ id ∈ ids, x ∈ b'.bitmap e.1 (.number (.inc id))) ∧
        ∀ id ∈ ids, x ∉ b'.bitmap e.1 (.number (.exc id)) := by
  obtain ⟨c, found, made⟩ := h.mem_entries.mp mem
  obtain ⟨c', found', rfl⟩ := h.lookup known
  obtain rfl : c' = c := BEContainerBuilder.default.inj (Option.some.inj (found'.symm.trans found))
  refine ⟨c'.answers ids, ?_, fun x => ?_⟩
  · rw [answer, made]
    exact (c'.retrieve_eq plain).trans (by rw [parsed]; rfl)
  · rw [DefaultBEContainer.mem_answers]
    simp only [IvtBEIndexerBuilder.bitmap, found, BEContainerBuilder.bitmap]

theorem answer_accepts (h : Indexed b docs b' indexer) (mem : e ∈ indexer.data.entries)
    (known : b.parser e.1 = some parser) (parsed : queryIDs parser (assigned q e.1) = .ok ids)
    (plain : (assigned q e.1).isArray = false) :
    ∃ pl, answer q e = .ok pl ∧
      ∀ x, x ∈ pl ↔ ∃ conj, Names docs x conj ∧ Accepts parser ids (conj.exprs e.1) := by
  obtain ⟨pl, answers, held⟩ := h.answer_bitmap mem known parsed plain
  have kind := parser_eq_some.mp known
  have accepts : ∀ x conj, Names docs x conj → (x ∈ pl ↔ Accepts parser ids (conj.exprs e.1)) := by
    intro x conj names
    have bits := fun slot => h.loaded.mem_bitmap h.distinct (h.blank.bitmap e.1 slot) names kind
    obtain ⟨doc, hdoc, i, listed, _⟩ := names
    rw [held]
    simp only [bits]
    exact ContainerKind.accepts_iff (h.loaded.encodes doc hdoc conj (List.fst_mem_of_mem_zipIdx listed) e.1 _ kind) ids
  refine ⟨pl, answers, fun x => ⟨fun inside => ?_, fun ⟨conj, names, met⟩ => (accepts x conj names).mpr met⟩⟩
  obtain ⟨conj, names⟩ : ∃ conj, Names docs x conj := by
    rcases ((held x).mp inside).1 with wild | ⟨_, _, inc⟩
    · exact h.loaded.names (h.blank.bitmap _ _) wild
    · exact h.loaded.names (h.blank.bitmap _ _) inc
  exact ⟨conj, names, (accepts x conj names).mp inside⟩

/-- The query can be parsed, and no configured field is asked with an array. -/
structure Answers (b : IvtBEIndexerBuilder) (q : Assignments) : Prop where
  parsed : ∀ field parser, b.parser field = some parser → ∃ ids, queryIDs parser (assigned q field) = .ok ids
  plain : ∀ field, (b.parser field).isSome = true → (assigned q field).isArray = false

theorem answer_ok (h : Indexed b docs b' indexer) (fine : Answers b q) (mem : e ∈ indexer.data.entries) :
    ∃ parser ids pl, b.parser e.1 = some parser ∧ queryIDs parser (assigned q e.1) = .ok ids ∧
      answer q e = .ok pl ∧ ∀ x, x ∈ pl ↔ ∃ conj, Names docs x conj ∧ Accepts parser ids (conj.exprs e.1) := by
  obtain ⟨parser, known⟩ := h.entry_parsed mem
  obtain ⟨ids, parsed⟩ := fine.parsed e.1 parser known
  obtain ⟨pl, answers, held⟩ := h.answer_accepts mem known parsed (fine.plain e.1 (by rw [known]; rfl))
  exact ⟨parser, ids, pl, known, parsed, answers, held⟩

theorem common_iff (h : Indexed b docs b' indexer) (fine : Answers b q) :
    Common q indexer.data.entries id ↔ ∃ conj, Names docs id conj ∧ b.Satisfied q conj := by
  constructor
  · intro common
    obtain ⟨field, parser, known⟩ := h.configured
    obtain ⟨can, mem⟩ := h.exists_entry known
    obtain ⟨_, _, pl, _, _, answers, held⟩ := h.answer_ok fine mem
    obtain ⟨conj, names, _⟩ := (held id).mp (common _ mem pl answers)
    refine ⟨conj, names, fun field parser known ids run => ?_⟩
    obtain ⟨can, mem⟩ := h.exists_entry known
    obtain ⟨parser', ids', pl, known', run', answers, held⟩ := h.answer_ok fine mem
    obtain rfl := Option.some.inj (known.symm.trans known')
    obtain rfl := Except.ok.inj (run.symm.trans run')
    obtain ⟨conj', names', accepts⟩ := (held id).mp (common _ mem pl answers)
    exact names.unique h.distinct names' ▸ accepts
  · rintro ⟨conj, names, satisfied⟩ e mem pl here
    obtain ⟨parser, ids, pl', known, run, answers, held⟩ := h.answer_ok fine mem
    obtain rfl := Except.ok.inj (here.symm.trans answers)
    exact (held id).mpr ⟨conj, names, satisfied e.1 parser known ids run⟩

end Indexed

end

namespace IvtScanner

variable {b b' : IvtBEIndexerBuilder} {docs : List Document} {indexer : IvtBEIndexer} {q : Assignments}

/-- The scan returns the documents with a satisfied conjunction, and its raw result is the conjunctions. -/
def Exact (b : IvtBEIndexerBuilder) (docs : List Document) (q : Assignments)
    (o : Go (IvtScanner × Except GoError (List UInt64))) : Prop :=
  ∃ s found, o = .ok (s, .ok found) ∧
    (∀ id, id ∈ s.conjIDResults ↔ ∃ conj, Names docs id conj ∧ b.Satisfied q conj) ∧
    found.Nodup ∧ ∀ x, x ∈ found ↔ ∃ doc ∈ docs, x = doc.id.toUInt64 ∧ ∃ conj ∈ doc.cons, b.Satisfied q conj

theorem mem_docsOf {ids : PostingList}
    (named : ∀ doc ∈ docs, ∀ conj ∈ doc.cons.zipIdx, ∃ id, newConjunctionID conj.2 doc.id = .ok id)
    (members : ∀ id, id ∈ ids ↔ ∃ conj, Names docs id conj ∧ b.Satisfied q conj) (x : UInt64) :
    x ∈ docsOf ids ↔ ∃ doc ∈ docs, x = doc.id.toUInt64 ∧ ∃ conj ∈ doc.cons, b.Satisfied q conj := by
  rw [docsOf, Finset.mem_sort, Finset.mem_image]
  constructor
  · rintro ⟨id, mem, rfl⟩
    obtain ⟨conj, ⟨doc, hdoc, i, listed, made⟩, satisfied⟩ := (members id).mp mem
    exact ⟨doc, hdoc, by rw [docID_newConjunctionID made], conj, List.fst_mem_of_mem_zipIdx listed, satisfied⟩
  · rintro ⟨doc, hdoc, rfl, conj, inside, satisfied⟩
    obtain ⟨i, bound, rfl⟩ := List.mem_iff_getElem.mp inside
    have listed : (doc.cons[i], i) ∈ doc.cons.zipIdx := List.mk_mem_zipIdx_iff_getElem?.mpr (by simp [bound])
    obtain ⟨id, made⟩ := named doc hdoc _ listed
    exact ⟨id, (members id).mpr ⟨_, ⟨doc, hdoc, i, listed, made⟩, satisfied⟩, by rw [docID_newConjunctionID made]⟩

variable [AhoMachine]

theorem exact_of_answers (h : Indexed b docs b' indexer) (fine : Indexed.Answers b q) (visit : indexer.data.Visit) :
    Exact b docs q ((newScanner indexer).retrieve q visit) := by
  have all : ∀ e ∈ indexer.data.entries, ∃ pl, answer q e = .ok pl := by
    intro e mem
    obtain ⟨_, _, pl, _, _, answers, _⟩ := h.answer_ok fine mem
    exact ⟨pl, answers⟩
  have entries : indexer.data.entries ≠ [] := by
    obtain ⟨field, parser, known⟩ := h.configured
    obtain ⟨can, mem⟩ := h.exists_entry known
    exact List.ne_nil_of_mem mem
  obtain ⟨s, run, ids⟩ := retrieve_all visit all
  have found : ∀ id, id ∈ s.conjIDResults ↔ ∃ conj, Names docs id conj ∧ b.Satisfied q conj := by
    intro id
    rw [ids, and_iff_right entries, h.common_iff fine]
  exact ⟨s, _, run, found, Finset.sort_nodup _ _, mem_docsOf h.loaded.named found⟩

/-- Visited first, the container of a field that is asked with an array panics. -/
theorem plain_of_exact (h : Indexed b docs b' indexer)
    (exact : ∀ visit : indexer.data.Visit, Exact b docs q ((newScanner indexer).retrieve q visit)) (field : BEField)
    (known : (b.parser field).isSome = true) : (assigned q field).isArray = false := by
  by_contra array
  rw [Bool.not_eq_false] at array
  obtain ⟨parser, known⟩ := Option.isSome_iff_exists.mp known
  obtain ⟨can, mem⟩ := h.exists_entry known
  obtain ⟨c, _, made⟩ := h.mem_entries.mp mem
  obtain ⟨e, panicked⟩ := c.retrieve_array array
  have faulted : answer q ⟨field, can⟩ = .error (.panic e) := by
    rw [answer, made]
    exact panicked
  obtain ⟨rest, perm⟩ := GoMap.exists_visit_first mem
  obtain ⟨s, found, run, _⟩ := exact ⟨_, perm⟩
  rw [retrieve_new, retrieveFrom_fault rfl faulted (by simp)] at run
  cases run

/-- A scan of default containers is exact, in every order of the fields, exactly if no configured field is
asked with an array, on which the nil check of the container panics. -/
theorem retrieve_satisfied_iff (defaultParser : ValueIDGenerator) (panics : Bool)
    (settings : List (BEField × Option ValueIDGenerator)) (some : settings ≠ []) (us vs : List Unit)
    (docs : List ((Nat → KeyOrder) × Document)) (distinct : (docs.map fun doc => doc.2.id).Nodup)
    (b b' : IvtBEIndexerBuilder) (indexer : IvtBEIndexer) (q : Assignments)
    (configured : ((IvtBEIndexerBuilder.newIndexerBuilder defaultParser).withErrPanic panics).configureFields settings =
      .ok (b, .ok us))
    (added : b.addDocuments docs = .ok (b', .ok vs)) (built : b'.buildIndexer = .ok indexer)
    (parsed : ∀ field parser, b.parser field = .some parser → ∃ ids, queryIDs parser (assigned q field) = .ok ids) :
    (∀ s, Fresh indexer s → ∀ visit : s.indexer.data.Visit, Exact b (docs.map Prod.snd) q (s.retrieve q visit)) ↔
      ∀ field, (b.parser field).isSome = true → (assigned q field).isArray = false := by
  have start : ((IvtBEIndexerBuilder.newIndexerBuilder defaultParser).withErrPanic panics).Blank := by
    intro field c found
    cases found
  obtain ⟨blank, any⟩ := IvtBEIndexerBuilder.configureFields_blank start configured
  have h : Indexed b (docs.map Prod.snd) b' indexer :=
    ⟨blank, any (Or.inl some), IvtBEIndexerBuilder.addDocuments_loaded added, by rwa [List.map_map], built⟩
  constructor
  · intro exact
    exact plain_of_exact h fun visit => exact _ (Or.inl rfl) visit
  · intro plain s fresh
    obtain rfl := fresh.eq_new
    exact fun visit => exact_of_answers h ⟨parsed, plain⟩ visit

omit [AhoMachine] in
/-- Without a place in the query the field for places does not matter. -/
theorem retrieve_satisfied_without_place :
    letI := FloatOps.noFloats
    letI := GeoOps.nowhere
    letI := AhoMachine.naive
    let settings := [(str "geo", some (newGeoHashParser none).generator), (str "a", none)]
    let doc : Document := ⟨1, 0, [⟨.singleton (str "a") [⟨true, .scalar (.string (str "x")), .eq⟩]⟩]⟩
    let q : Assignments := .singleton (str "a") (.scalar (.string (str "x")))
    ∃ b b' us vs indexer, ((IvtBEIndexerBuilder.newIndexerBuilder StrHashParser.generator).withErrPanic
        false).configureFields settings = .ok (b, .ok us) ∧
      b.addDocuments [(fun _ => .id, doc)] = .ok (b', .ok vs) ∧ b'.buildIndexer = .ok indexer ∧
      Exact b [doc] q ((newScanner indexer).retrieve q ⟨indexer.data.entries, .refl _⟩) := by
  let _ := FloatOps.noFloats
  let _ := GeoOps.nowhere
  let _ := AhoMachine.naive
  intro settings doc q
  obtain ⟨b, us, configured, b', vs, added, built⟩ : ∃ b us, ((IvtBEIndexerBuilder.newIndexerBuilder
        StrHashParser.generator).withErrPanic false).configureFields settings = .ok (b, .ok us) ∧
      ∃ b' vs, b.addDocuments [(fun _ => .id, doc)] = .ok (b', .ok vs) ∧ okAnd (fun _ => true) b'.buildIndexer = true :=
    ⟨_, _, rfl, finished_iff.mp (by decide +kernel)⟩
  obtain ⟨indexer, index, _⟩ := okAnd_iff.mp built
  have parsed : ∀ field parser, b.parser field = some parser → ∃ ids, queryIDs parser (assigned q field) = .ok ids := by
    intro field parser known
    rcases IvtBEIndexerBuilder.configureFields_parsedBy configured known with absurd | ⟨setting, mem, rfl, rfl⟩
    · cases absurd
    · rcases List.mem_pair.mp mem with rfl | rfl
      · exact ⟨_, rfl⟩
      · exact ⟨_, rfl⟩
  have plain : ∀ field, (b.parser field).isSome = true → (assigned q field).isArray = false := by
    intro field _
    by_cases same : field = str "a"
    · rw [same]
      rfl
    · have absent : q.lookup field = none := AList.lookup_eq_none.mpr fun mem => same (List.mem_singleton.mp mem)
      rw [assigned, absent]
      rfl
  refine ⟨b, b', us, vs, indexer, configured, added, index, ?_⟩
  exact (retrieve_satisfied_iff _ false settings (by simp [settings]) us vs [(fun _ => .id, doc)]
    (by simp) b b' indexer q
    configured added index parsed).mpr plain _ (Or.inl rfl) ⟨indexer.data.entries, .refl _⟩

omit [AhoMachine] in
/-- The parser for places takes a `[2]float64`, but the container panics on it before. -/
theorem retrieve_panics_at_place :
    letI := FloatOps.noFloats
    letI := GeoOps.nowhere
    letI := AhoMachine.naive
    let settings := [(str "geo", some (newGeoHashParser none).generator), (str "a", none)]
    let doc : Document := ⟨1, 0, [⟨.singleton (str "a") [⟨true, .scalar (.string (str "x")), .eq⟩]⟩]⟩
    let q : Assignments :=
      .insert (str "geo") (.float64Pair ⟨0⟩ ⟨0⟩) (.singleton (str "a") (.scalar (.string (str "x"))))
    ∃ b b' us vs indexer e, ((IvtBEIndexerBuilder.newIndexerBuilder StrHashParser.generator).withErrPanic
        false).configureFields settings = .ok (b, .ok us) ∧
      b.addDocuments [(fun _ => .id, doc)] = .ok (b', .ok vs) ∧ b'.buildIndexer = .ok indexer ∧
      (∀ field parser, b.parser field = some parser → ∃ ids, queryIDs parser (assigned q field) = .ok ids) ∧
      (newScanner indexer).retrieve q ⟨indexer.data.entries, .refl _⟩ = .error (.panic e) := by
  let _ := FloatOps.noFloats
  let _ := GeoOps.nowhere
  let _ := AhoMachine.naive
  intro settings doc q
  obtain ⟨b, us, configured, b', vs, added, built⟩ : ∃ b us, ((IvtBEIndexerBuilder.newIndexerBuilder
        StrHashParser.generator).withErrPanic false).configureFields settings = .ok (b, .ok us) ∧
      ∃ b' vs, b.addDocuments [(fun _ => .id, doc)] = .ok (b', .ok vs) ∧ okAnd (fun indexer =>
        panics ((newScanner indexer).retrieve q ⟨indexer.data.entries, .refl _⟩)) b'.buildIndexer = true :=
    ⟨_, _, rfl, finished_iff.mp (by decide +kernel)⟩
  obtain ⟨indexer, index, crashes⟩ := okAnd_iff.mp built
  obtain ⟨e, run⟩ := panics_iff.mp crashes
  refine ⟨b, b', us, vs, indexer, e, configured, added, index, fun field parser known => ?_, run⟩
  rcases IvtBEIndexerBuilder.configureFields_parsedBy configured known with absurd | ⟨setting, mem, rfl, rfl⟩
  · cases absurd
  · rcases List.mem_pair.mp mem with rfl | rfl
    · exact ⟨_, rfl⟩
    · exact ⟨_, rfl⟩

end IvtScanner

end BeIndexer.Roaring
