import BeIndexer.Roaring.Shelves

/-!
# Indexes that share the containers of their builder

`BuildBEContainer` returns the container that the builder goes on to write to, so an index shows the
documents that are added after it was built. The machines of a keyword container are made by
`BuildBEContainer` only: a keyword that is new since then is not searched for, in no index, until the
builder builds again. A container that `ConfigureField` replaces stays as it is in the indexes that have
it.
-/

namespace BeIndexer.Roaring

open Calls

/-! ### Containers as objects -/

/-- The builder, and the containers that `ConfigureField` took out of it, the oldest first. -/
structure Heap where
  builder : IvtBEIndexerBuilder
  replaced : BEField → List BEContainerBuilder

/-- An index refers to containers, each by its place among those the field was configured with. -/
structure IndexerRef where
  docMaxConjSize : Nat
  data : GoMap BEField Nat

namespace Heap

def objects (h : Heap) (field : BEField) : List BEContainerBuilder :=
  h.replaced field ++ (h.builder.containerBuilder.lookup field).toList

def new (defaultParser : ValueIDGenerator) : Heap := ⟨.newIndexerBuilder defaultParser, fun _ => []⟩

def withErrPanic (h : Heap) (panics : Bool) : Heap := { h with builder := h.builder.withErrPanic panics }

def configureField (h : Heap) (field : BEField) (option : FieldSetting) : Go (Heap × Except GoError Unit) := do
  let (builder, r) ← h.builder.configureField field option
  match r with
  | .error e => return ({ h with builder := builder }, .error e)
  | .ok () => return (⟨builder, Function.update h.replaced field (h.objects field)⟩, .ok ())

def addDocument (orders : Nat → KeyOrder) (h : Heap) (doc : Document) : Go (Heap × Except GoError Unit) := do
  let (builder, r) ← h.builder.addDocument orders doc
  return ({ h with builder := builder }, r)

/-- One turn of the loop of `BuildIndexer`. -/
def buildField [AhoMachine] (h : Heap) (built : GoMap BEField BEContainerBuilder × GoMap BEField Nat)
    (e : Sigma fun _ : BEField => BEContainerBuilder) : Go (GoMap BEField BEContainerBuilder × GoMap BEField Nat) := do
  let c ← e.2.compile
  return (built.1.insert e.1 c, built.2.insert e.1 (h.replaced e.1).length)

/-- `BuildIndexer`. The index gets the containers of the builder. -/
def buildIndexer [AhoMachine] (h : Heap) : Go (Heap × IndexerRef) := do
  let (containers, data) ← h.builder.containerBuilder.entries.foldlM h.buildField (h.builder.containerBuilder, ∅)
  return ({ h with builder := { h.builder with containerBuilder := containers } }, ⟨h.builder.docMaxConjSize, data⟩)

end Heap

/-- The index as the containers are now. -/
def IndexerRef.now [AhoMachine] (i : IndexerRef) (h : Heap) : IvtBEIndexer where
  docMaxConjSize := i.docMaxConjSize
  data := {
    entries := i.data.entries.map fun e => ⟨e.1, match (h.objects e.1)[e.2]? with
      | some c => c.container
      | none => ⟨fun _ _ => panicf "invalid memory address or nil pointer dereference" []⟩⟩
    nodupKeys := by
      rw [List.NodupKeys, List.keys, List.map_map]
      exact i.data.nodupKeys }

/-! ### What was called -/

/-- The documents that were added, and the shelves of each field as the containers are in the heap. -/
structure Ledger where
  docs : List Document
  current : BEField → Option Shelf
  replaced : BEField → List Shelf

namespace Ledger

def empty : Ledger := ⟨[], fun _ => none, fun _ => []⟩

def shelves (l : Ledger) (field : BEField) : List Shelf := l.replaced field ++ (l.current field).toList

def configure (l : Ledger) (field : BEField) (kind : ContainerKind) : Ledger :=
  { l with
    current := Function.update l.current field (some ⟨kind, [], []⟩)
    replaced := Function.update l.replaced field (l.shelves field) }

def add (l : Ledger) (doc : Document) : Ledger :=
  { l with
    docs := l.docs ++ [doc]
    current := fun field => (l.current field).map (Shelf.add doc) }

def build (l : Ledger) : Ledger :=
  { l with current := fun field => (l.current field).map Shelf.build }

end Ledger

/-! ### Runs -/

theorem Ledger.configure_same (l : Ledger) (field : BEField) (kind : ContainerKind) :
    (l.configure field kind).current field = some ⟨kind, [], []⟩ ∧
      (l.configure field kind).replaced field = l.shelves field :=
  ⟨Function.update_self .., Function.update_self ..⟩

theorem Ledger.configure_other (l : Ledger) {field g : BEField} (other : g ≠ field) (kind : ContainerKind) :
    (l.configure field kind).current g = l.current g ∧ (l.configure field kind).replaced g = l.replaced g :=
  ⟨Function.update_of_ne other .., Function.update_of_ne other ..⟩

theorem Ledger.shelves_configure (l : Ledger) (field g : BEField) (kind : ContainerKind) :
    (l.shelves g).length ≤ ((l.configure field kind).shelves g).length := by
  by_cases same : g = field
  · subst same
    obtain ⟨current, replaced⟩ := l.configure_same g kind
    have more : (l.configure g kind).shelves g = l.shelves g ++ [⟨kind, [], []⟩] := by
      rw [Ledger.shelves, current, replaced, Option.toList_some]
    rw [more, List.length_append]
    exact Nat.le_add_right _ _
  · obtain ⟨current, replaced⟩ := l.configure_other same kind
    rw [Ledger.shelves, Ledger.shelves, current, replaced]

theorem Ledger.add_current (l : Ledger) (doc : Document) (field : BEField) :
    (l.add doc).current field = (l.current field).map (Shelf.add doc) := rfl

theorem Ledger.build_current (l : Ledger) (field : BEField) :
    l.build.current field = (l.current field).map Shelf.build :=
  rfl

/-- Every container holds what its shelf says. -/
structure Heap.Shows (h : Heap) (l : Ledger) : Prop where
  current : ∀ field c, h.builder.containerBuilder.lookup field = some c →
    ∃ shelf, l.current field = some shelf ∧ shelf.Holds field c
  absent : ∀ field, h.builder.containerBuilder.lookup field = none → l.current field = none
  replaced : ∀ field, List.Forall₂ (Shelf.Holds field) (h.replaced field) (l.replaced field)
  kept : ∀ field, ∀ shelf ∈ l.shelves field, shelf.docs.Sublist l.docs

/-- The index refers to containers that there are. -/
def IndexerRef.Refers (i : IndexerRef) (l : Ledger) : Prop :=
  ∀ field n, i.data.lookup field = some n → n < (l.shelves field).length

namespace Heap

/-- Calls on a builder, of which those that add a document or build succeeded, with the indexes that
were built. -/
inductive Ran [AhoMachine] : Heap → Ledger → List IndexerRef → Prop where
  | new (defaultParser : ValueIDGenerator) : Ran (new defaultParser) .empty []
  | withErrPanic {h : Heap} {l : Ledger} {is : List IndexerRef} (panics : Bool) :
      Ran h l is → Ran (h.withErrPanic panics) l is
  | configured {h h' : Heap} {l : Ledger} {is : List IndexerRef} {field : BEField} {option : FieldSetting}
      {kind : ContainerKind} : Ran h l is → h.configureField field option = .ok (h', .ok ()) →
      h'.builder.kinds field = some kind → Ran h' (l.configure field kind) is
  | refused {h h' : Heap} {l : Ledger} {is : List IndexerRef} {field : BEField} {option : FieldSetting} {e : GoError} :
      Ran h l is → h.configureField field option = .ok (h', .error e) → Ran h' l is
  | added {h h' : Heap} {l : Ledger} {is : List IndexerRef} {orders : Nat → KeyOrder} {doc : Document} :
      Ran h l is → h.addDocument orders doc = .ok (h', .ok ()) → Ran h' (l.add doc) is
  | built {h h' : Heap} {l : Ledger} {is : List IndexerRef} {i : IndexerRef} :
      Ran h l is → h.buildIndexer = .ok (h', i) → Ran h' l.build (i :: is)

variable {h h' : Heap} {l : Ledger} {field : BEField}

theorem Shows.objects (shows : h.Shows l) (field : BEField) :
    List.Forall₂ (Shelf.Holds field) (h.objects field) (l.shelves field) := by
  refine List.rel_append (shows.replaced field) ?_
  cases found : h.builder.containerBuilder.lookup field with
  | none =>
    rw [shows.absent field found]
    exact .nil
  | some c =>
    obtain ⟨shelf, current, holds⟩ := shows.current field c found
    rw [current]
    exact .cons holds .nil

theorem configureField_cases {option : FieldSetting} {r : Except GoError Unit}
    (run : h.configureField field option = .ok (h', r)) :
    (h' = h ∧ ∃ e, r = .error e) ∨
    (r = .ok () ∧ ∃ c parser, IvtBEIndexerBuilder.newContainerBuilder option.container parser = some c ∧
      h'.builder.containerBuilder = h.builder.containerBuilder.insert field c ∧
      h'.replaced = Function.update h.replaced field (h.objects field)) := by
  obtain ⟨⟨b, r'⟩, inner, rest⟩ := bind_eq_ok.mp run
  unfold IvtBEIndexerBuilder.configureField at inner
  split at inner
  · obtain ⟨rfl, rfl⟩ := IvtBEIndexerBuilder.failure_eq_ok inner
    obtain ⟨rfl, rfl⟩ := Prod.mk.inj (Except.ok.inj rest)
    exact Or.inl ⟨rfl, _, rfl⟩
  · rename_i c made
    obtain ⟨rfl, rfl⟩ := Prod.mk.inj (Except.ok.inj inner)
    obtain ⟨rfl, rfl⟩ := Prod.mk.inj (Except.ok.inj rest)
    exact Or.inr ⟨rfl, c, _, made, rfl, rfl⟩

theorem Shows.configured {option : FieldSetting} {kind : ContainerKind} (shows : h.Shows l)
    (run : h.configureField field option = .ok (h', .ok ())) (known : h'.builder.kinds field = some kind) :
    h'.Shows (l.configure field kind) := by
  rcases configureField_cases run with ⟨_, _, absurd⟩ | ⟨_, c, parser, made, containers, replaced⟩
  · cases absurd
  · have found : h'.builder.containerBuilder.lookup field = some c := by rw [containers, AList.lookup_insert]
    obtain rfl : c.kind = kind := by
      rw [IvtBEIndexerBuilder.kinds, found] at known
      exact Option.some.inj known
    obtain ⟨current, shelved⟩ := l.configure_same field c.kind
    refine ⟨fun g d here => ?_, fun g none => ?_, fun g => ?_, fun g shelf mem => ?_⟩
    · by_cases same : g = field
      · subst same
        obtain rfl := Option.some.inj (found.symm.trans here)
        exact ⟨_, current, newContainerBuilder_holds made⟩
      · rw [containers, AList.lookup_insert_ne same] at here
        rw [(l.configure_other same c.kind).1]
        exact shows.current g d here
    · by_cases same : g = field
      · subst same
        cases found.symm.trans none
      · rw [containers, AList.lookup_insert_ne same] at none
        rw [(l.configure_other same c.kind).1]
        exact shows.absent g none
    · by_cases same : g = field
      · subst same
        rw [replaced, shelved, Function.update_self]
        exact shows.objects g
      · rw [replaced, (l.configure_other same c.kind).2, Function.update_of_ne same]
        exact shows.replaced g
    · by_cases same : g = field
      · subst same
        rw [Ledger.shelves, current, shelved] at mem
        rcases List.mem_append.mp mem with old | new
        · exact shows.kept g shelf old
        · obtain rfl := List.mem_singleton.mp new
          exact List.nil_sublist _
      · obtain ⟨sameCurrent, sameReplaced⟩ := l.configure_other same c.kind
        rw [Ledger.shelves, sameCurrent, sameReplaced] at mem
        exact shows.kept g shelf mem

theorem Shows.added {orders : Nat → KeyOrder} {doc : Document} (shows : h.Shows l)
    (run : h.addDocument orders doc = .ok (h', .ok ())) : h'.Shows (l.add doc) := by
  obtain ⟨⟨b, r⟩, inner, done⟩ := bind_eq_ok.mp run
  obtain ⟨rfl, rfl⟩ := Prod.mk.inj (Except.ok.inj done)
  have kinds := congrFun (IvtBEIndexerBuilder.addDocument_loaded inner).kinds
  simp only [IvtBEIndexerBuilder.kinds] at kinds
  refine ⟨fun field c' found' => ?_, fun field none => ?_, shows.replaced, fun field shelf mem => ?_⟩
  · have same := kinds field
    rw [found'] at same
    obtain ⟨c, found, _⟩ := Option.map_eq_some_iff.mp same.symm
    obtain ⟨shelf, current, holds⟩ := shows.current field c found
    refine ⟨_, ?_, addDocument_holds inner found found' holds⟩
    rw [Ledger.add_current, current]
    rfl
  · have same := kinds field
    rw [none] at same
    have current := shows.absent field (Option.map_eq_none_iff.mp same.symm)
    rw [Ledger.add_current, current]
    rfl
  · rcases List.mem_append.mp mem with old | now
    · exact (shows.kept field shelf (List.mem_append_left _ old)).trans (List.sublist_append_left _ _)
    · obtain ⟨before, current, rfl⟩ := Option.map_eq_some_iff.mp (Option.mem_toList.mp now)
      have kept := shows.kept field before (List.mem_append_right _ (Option.mem_toList.mpr current))
      exact kept.append (List.Sublist.refl _)

theorem buildLoop_lookup [AhoMachine] {es : List (Sigma fun _ : BEField => BEContainerBuilder)}
    {built built' : GoMap BEField BEContainerBuilder × GoMap BEField Nat} (nodup : es.NodupKeys)
    (run : es.foldlM h.buildField built = .ok built') (field : BEField) :
    (∀ c, es.dlookup field = some c → ∃ c', c.compile = .ok c' ∧ built'.1.lookup field = some c' ∧
      built'.2.lookup field = some (h.replaced field).length) ∧
    (es.dlookup field = none → built'.1.lookup field = built.1.lookup field ∧
      built'.2.lookup field = built.2.lookup field) := by
  induction es generalizing built with
  | nil =>
    obtain rfl := Except.ok.inj run
    exact ⟨fun c found => (nomatch found), fun _ => ⟨rfl, rfl⟩⟩
  | cons e es ih =>
    obtain ⟨built₁, step, rest⟩ := bind_eq_ok.mp run
    obtain ⟨c', compiled, done⟩ := bind_eq_ok.mp step
    obtain rfl := Except.ok.inj done
    obtain ⟨fresh, nodup'⟩ := List.nodupKeys_cons.mp nodup
    obtain ⟨found, missing⟩ := ih nodup' rest
    by_cases same : field = e.1
    · subst same
      obtain ⟨container, referred⟩ := missing (List.dlookup_eq_none.mpr fresh)
      rw [AList.lookup_insert] at container referred
      rw [List.dlookup_cons_eq]
      refine ⟨fun c here => ?_, fun none => nomatch none⟩
      obtain rfl := Option.some.inj here
      exact ⟨c', compiled, container, referred⟩
    · rw [List.dlookup_cons_ne _ _ same]
      refine ⟨found, fun none => ?_⟩
      obtain ⟨container, referred⟩ := missing none
      rw [AList.lookup_insert_ne same] at container referred
      exact ⟨container, referred⟩

theorem Shows.built [AhoMachine] {i : IndexerRef} (shows : h.Shows l) (run : h.buildIndexer = .ok (h', i)) :
    h'.Shows l.build ∧ i.Refers l.build := by
  obtain ⟨⟨containers, data⟩, loop, done⟩ := bind_eq_ok.mp run
  obtain ⟨rfl, rfl⟩ := Prod.mk.inj (Except.ok.inj done)
  have lookups := buildLoop_lookup h.builder.containerBuilder.nodupKeys loop
  refine ⟨⟨fun field c' found' => ?_, fun field none => ?_, shows.replaced, fun field shelf mem => ?_⟩,
    fun field n here => ?_⟩
  · cases found : h.builder.containerBuilder.lookup field with
    | none =>
      obtain ⟨same, _⟩ := (lookups field).2 found
      have absurd := found'.symm.trans (same.trans found)
      cases absurd
    | some c =>
      obtain ⟨c₁, compiled, found₁, _⟩ := (lookups field).1 c found
      obtain rfl := Option.some.inj (found₁.symm.trans found')
      obtain ⟨shelf, current, holds⟩ := shows.current field c found
      refine ⟨_, ?_, compile_holds compiled holds⟩
      rw [Ledger.build_current, current]
      rfl
  · cases found : h.builder.containerBuilder.lookup field with
    | none =>
      rw [Ledger.build_current, shows.absent field found]
      rfl
    | some c =>
      obtain ⟨c₁, _, found₁, _⟩ := (lookups field).1 c found
      cases found₁.symm.trans none
  · rcases List.mem_append.mp mem with old | now
    · exact shows.kept field shelf (List.mem_append_left _ old)
    · obtain ⟨before, current, rfl⟩ := Option.map_eq_some_iff.mp (Option.mem_toList.mp now)
      exact shows.kept field before (List.mem_append_right _ (Option.mem_toList.mpr current))
  · cases found : h.builder.containerBuilder.lookup field with
    | none =>
      obtain ⟨_, same⟩ := (lookups field).2 found
      cases here.symm.trans same
    | some c =>
      obtain ⟨_, _, _, referred⟩ := (lookups field).1 c found
      obtain rfl := Option.some.inj (here.symm.trans referred)
      obtain ⟨shelf, current, _⟩ := shows.current field c found
      rw [Ledger.shelves, Ledger.build_current, current, (shows.replaced field).length_eq]
      simp [Ledger.build]

end Heap

namespace Heap

variable [AhoMachine] {h h' : Heap} {i : IndexerRef}

theorem buildBEContainer_of_compile {c c' : BEContainerBuilder} (compiled : c.compile = .ok c') :
    c.buildBEContainer = .ok c'.container := by
  cases c with
  | default c =>
    obtain rfl := Except.ok.inj compiled
    rfl
  | ac c =>
    obtain ⟨d, built, rfl⟩ := map_eq_ok.mp compiled
    exact bind_eq_ok.mpr ⟨d, built, rfl⟩

omit [AhoMachine] in
theorem objects_last {field : BEField} {c : BEContainerBuilder}
    (found : h.builder.containerBuilder.lookup field = some c) :
    (h.objects field)[(h.replaced field).length]? = some c := by
  simp [objects, found]

theorem buildLoop_runs {es : List (Sigma fun _ : BEField => BEContainerBuilder)} {data : GoMap BEField BEContainer}
    (each : ∀ e ∈ es, ∃ container, e.2.buildBEContainer = .ok container) :
    ∃ data', es.foldlM (fun (data : GoMap BEField BEContainer) e => do
      let container ← e.2.buildBEContainer
      return data.insert e.1 container) data = .ok data' := by
  induction es generalizing data with
  | nil => exact ⟨data, rfl⟩
  | cons e es ih =>
    obtain ⟨container, built⟩ := each e List.mem_cons_self
    obtain ⟨data', rest⟩ := ih fun e mem => each e (List.mem_cons_of_mem _ mem)
    exact ⟨data', bind_eq_ok.mpr ⟨_, bind_eq_ok.mpr ⟨container, built, rfl⟩, rest⟩⟩

/-- Until the next call the index is the one that the containers make as they were when it was built. -/
theorem buildIndexer_now (run : h.buildIndexer = .ok (h', i)) :
    ∃ indexer, h.builder.buildIndexer = .ok indexer ∧ indexer.docMaxConjSize = (i.now h').docMaxConjSize ∧
      ∀ e, e ∈ indexer.data.entries ↔ e ∈ (i.now h').data.entries := by
  obtain ⟨⟨containers, data⟩, loop, done⟩ := bind_eq_ok.mp run
  obtain ⟨rfl, rfl⟩ := Prod.mk.inj (Except.ok.inj done)
  have lookups := buildLoop_lookup h.builder.containerBuilder.nodupKeys loop
  have each : ∀ e ∈ h.builder.containerBuilder.entries, ∃ container, e.2.buildBEContainer = .ok container := by
    intro e mem
    obtain ⟨c', compiled, _⟩ := (lookups e.1).1 e.2 (AList.mem_lookup_iff.mpr mem)
    exact ⟨c'.container, buildBEContainer_of_compile compiled⟩
  obtain ⟨snapshot, snapshots⟩ := buildLoop_runs each
  have built : h.builder.buildIndexer = .ok ⟨h.builder.docMaxConjSize, snapshot⟩ :=
    bind_eq_ok.mpr ⟨snapshot, snapshots, rfl⟩
  refine ⟨_, built, rfl, fun e => ?_⟩
  rw [IvtBEIndexerBuilder.mem_entries_built built]
  constructor
  · intro given
    obtain ⟨c, found, compiled⟩ := given
    obtain ⟨c', compiled', container, referred⟩ := (lookups e.1).1 c found
    have same := Except.ok.inj (compiled.symm.trans (buildBEContainer_of_compile compiled'))
    refine List.mem_map.mpr ⟨⟨e.1, (h.replaced e.1).length⟩, AList.mem_lookup_iff.mp referred, ?_⟩
    have last := objects_last (h := { h with builder := { h.builder with containerBuilder := containers } }) container
    simp only [last, ← same]
  · intro mem
    obtain ⟨⟨field, n⟩, listed, rfl⟩ := List.mem_map.mp mem
    have here : data.lookup field = some n := AList.mem_lookup_iff.mpr listed
    cases found : h.builder.containerBuilder.lookup field with
    | none =>
      obtain ⟨_, absent⟩ := (lookups field).2 found
      cases here.symm.trans absent
    | some c =>
      obtain ⟨c', compiled', container, referred⟩ := (lookups field).1 c found
      obtain rfl := Option.some.inj (here.symm.trans referred)
      have last := objects_last (h := { h with builder := { h.builder with containerBuilder := containers } }) container
      refine ⟨c, rfl, ?_⟩
      simp only [last]
      exact buildBEContainer_of_compile compiled'

end Heap

namespace Heap.Ran

variable [AhoMachine] {h : Heap} {l : Ledger} {is : List IndexerRef}

theorem shows (ran : Ran h l is) : h.Shows l := by
  induction ran with
  | new defaultParser =>
    exact ⟨fun _ _ found => (nomatch found), fun _ _ => rfl, fun _ => .nil, fun _ _ mem => absurd mem List.not_mem_nil⟩
  | withErrPanic panics _ ih => exact ⟨ih.current, ih.absent, ih.replaced, ih.kept⟩
  | configured _ run known ih => exact ih.configured run known
  | refused _ run ih =>
    rcases configureField_cases run with ⟨rfl, _⟩ | ⟨absurd, _⟩
    · exact ih
    · cases absurd
  | added _ run ih => exact ih.added run
  | built _ run ih => exact (ih.built run).1

theorem refers (ran : Ran h l is) : ∀ i ∈ is, i.Refers l := by
  induction ran with
  | new defaultParser => exact fun _ mem => absurd mem List.not_mem_nil
  | withErrPanic panics _ ih => exact ih
  | @configured _ _ l _ field _ kind _ run known ih =>
    intro i mem g n here
    exact Nat.lt_of_lt_of_le (ih i mem g n here) (l.shelves_configure field g kind)
  | refused _ run ih => exact ih
  | added _ run ih =>
    intro i mem g n here
    have bound := ih i mem g n here
    simpa [Ledger.shelves, Ledger.add, Option.toList_map] using bound
  | built ran run ih =>
    intro i mem
    rcases List.mem_cons.mp mem with rfl | old
    · exact (ran.shows.built run).2
    · intro g n here
      have bound := ih i old g n here
      simpa [Ledger.shelves, Ledger.build, Option.toList_map] using bound

end Heap.Ran

/-! ### Scans -/

namespace IndexerRef

/-- The index has the container of the field to which the shelf belongs. -/
def Uses (i : IndexerRef) (l : Ledger) (field : BEField) (shelf : Shelf) : Prop :=
  ∃ n, i.data.lookup field = some n ∧ (l.shelves field)[n]? = some shelf

/-- Every container of the index has the document, and accepts the query for the conjunction. -/
def Accepts (i : IndexerRef) (l : Ledger) (q : Assignments) (doc : Document) (conj : Conjunction) : Prop :=
  ∀ field shelf, i.Uses l field shelf → doc ∈ shelf.docs ∧ shelf.Accepts field (assigned q field) conj

variable [AhoMachine] {i : IndexerRef} {h : Heap} {l : Ledger} {field : BEField} {shelf : Shelf}

theorem mem_now {e : Sigma fun _ : BEField => BEContainer} (shows : h.Shows l) (refers : i.Refers l)
    (mem : e ∈ (i.now h).data.entries) :
    ∃ c shelf, i.Uses l e.1 shelf ∧ shelf.Holds e.1 c ∧ e.2 = c.container := by
  obtain ⟨⟨field, n⟩, listed, rfl⟩ := List.mem_map.mp mem
  have here : i.data.lookup field = some n := AList.mem_lookup_iff.mpr listed
  have bound := refers field n here
  have objects := shows.objects field
  have bound' : n < (h.objects field).length := by rw [objects.length_eq]; exact bound
  refine ⟨(h.objects field)[n], (l.shelves field)[n], ⟨n, here, List.getElem?_eq_getElem bound⟩,
    objects.get bound' bound, ?_⟩
  simp only [List.getElem?_eq_getElem bound']

theorem Uses.now (shows : h.Shows l) (uses : i.Uses l field shelf) :
    ∃ c, shelf.Holds field c ∧ ⟨field, c.container⟩ ∈ (i.now h).data.entries := by
  obtain ⟨n, here, found⟩ := uses
  obtain ⟨bound, rfl⟩ := List.getElem?_eq_some_iff.mp found
  have objects := shows.objects field
  have bound' : n < (h.objects field).length := by rw [objects.length_eq]; exact bound
  refine ⟨(h.objects field)[n], objects.get bound' bound,
    List.mem_map.mpr ⟨⟨field, n⟩, AList.mem_lookup_iff.mp here, ?_⟩⟩
  simp only [List.getElem?_eq_getElem bound']

end IndexerRef

namespace Heap.Ran

open IvtScanner

variable [AhoMachine] {h : Heap} {l : Ledger} {is : List IndexerRef} {i : IndexerRef} {q : Assignments}

theorem exists_uses (ran : Ran h l is) (listed : i ∈ is) (configured : i.data.entries ≠ []) :
    ∃ field shelf, i.Uses l field shelf := by
  obtain ⟨⟨field, n⟩, inData⟩ := List.exists_mem_of_ne_nil _ configured
  have here : i.data.lookup field = some n := AList.mem_lookup_iff.mpr inData
  exact ⟨field, _, n, here, List.getElem?_eq_getElem (ran.refers i listed field n here)⟩

omit [AhoMachine] in
/-- An id names one conjunction of one document, whichever container it is read from. -/
theorem names_unique {docs : List Document} {doc doc' : Document} {x : ConjunctionID} {conj conj' : Conjunction}
    (distinct : (docs.map Document.id).Nodup) (mem : doc ∈ docs) (mem' : doc' ∈ docs) (names : Names [doc] x conj)
    (names' : Names [doc'] x conj') : doc' = doc ∧ conj' = conj := by
  have same : doc' = doc := by
    obtain ⟨d, single, k, _, made⟩ := names
    obtain rfl := List.mem_singleton.mp single
    obtain ⟨d', single', k', _, made'⟩ := names'
    obtain rfl := List.mem_singleton.mp single'
    exact List.inj_on_of_nodup_map distinct mem' mem (newConjunctionID_inj made' made).1
  subst same
  exact ⟨rfl, names'.unique (by simp) names⟩

theorem exists_id (ran : Ran h l is) (listed : i ∈ is) (configured : i.data.entries ≠ []) {doc : Document}
    {conj : Conjunction} {k : Nat} (accepts : i.Accepts l q doc conj) (inZip : (conj, k) ∈ doc.cons.zipIdx) :
    ∃ x, newConjunctionID k doc.id = .ok x := by
  obtain ⟨field, shelf, uses⟩ := ran.exists_uses listed configured
  obtain ⟨c, holds, _⟩ := uses.now ran.shows
  exact holds.named doc (accepts field shelf uses).1 (conj, k) inZip

theorem answer_accepts [AhoMachine.Documented] (ran : Ran h l is) (listed : i ∈ is)
    (distinct : (l.docs.map Document.id).Nodup)
    (spelled : ∀ field shelf, i.Uses l field shelf → shelf.kind = .ac → shelf.Spelled field)
    (reads : ∀ field shelf, i.Uses l field shelf → shelf.Reads (assigned q field))
    {e : Sigma fun _ : BEField => BEContainer} (mem : e ∈ (i.now h).data.entries) :
    ∃ shelf pl, i.Uses l e.1 shelf ∧ answer q e = .ok pl ∧
      ∀ x, x ∈ pl ↔ ∃ conj, Names shelf.docs x conj ∧ shelf.Accepts e.1 (assigned q e.1) conj := by
  obtain ⟨c, shelf, uses, holds, same⟩ := IndexerRef.mem_now ran.shows (ran.refers i listed) mem
  obtain ⟨n, here, found⟩ := uses
  have kept := ran.shows.kept e.1 shelf (List.mem_of_getElem? found)
  obtain ⟨pl, answered, members⟩ := holds.answer (distinct.sublist (kept.map _)) (spelled e.1 shelf ⟨n, here, found⟩)
    (reads e.1 shelf ⟨n, here, found⟩)
  refine ⟨shelf, pl, ⟨n, here, found⟩, ?_, members⟩
  rw [answer, same]
  exact answered

/-- The ids in all answers are those of the conjunctions that every container holds and accepts. -/
theorem common_iff [AhoMachine.Documented] (ran : Ran h l is) (listed : i ∈ is) (configured : i.data.entries ≠ [])
    (distinct : (l.docs.map Document.id).Nodup)
    (spelled : ∀ field shelf, i.Uses l field shelf → shelf.kind = .ac → shelf.Spelled field)
    (reads : ∀ field shelf, i.Uses l field shelf → shelf.Reads (assigned q field)) (x : ConjunctionID) :
    Common q (i.now h).data.entries x ↔ ∃ doc ∈ l.docs, ∃ conj, Names [doc] x conj ∧ i.Accepts l q doc conj := by
  have shows := ran.shows
  have held : ∀ field shelf, i.Uses l field shelf → Common q (i.now h).data.entries x →
      ∃ doc ∈ shelf.docs, ∃ conj, Names [doc] x conj ∧ shelf.Accepts field (assigned q field) conj := by
    intro field shelf uses common
    obtain ⟨c, _, mem⟩ := uses.now shows
    obtain ⟨shelf', pl, uses', answered, members⟩ := ran.answer_accepts listed distinct spelled reads mem
    obtain ⟨n, here, found⟩ := uses
    obtain ⟨n', here', found'⟩ := uses'
    obtain rfl := Option.some.inj (here.symm.trans here')
    obtain rfl := Option.some.inj (found.symm.trans found')
    obtain ⟨conj, ⟨doc, inside, named⟩, accepts⟩ := (members x).mp (common _ mem pl answered)
    exact ⟨doc, inside, conj, ⟨doc, List.mem_singleton_self doc, named⟩, accepts⟩
  constructor
  · intro common
    obtain ⟨field₀, shelf₀, uses₀⟩ := ran.exists_uses listed configured
    obtain ⟨doc, inside, conj, names, _⟩ := held field₀ _ uses₀ common
    have subset : ∀ field shelf, i.Uses l field shelf → shelf.docs ⊆ l.docs := by
      intro field shelf given
      obtain ⟨n, _, found⟩ := given
      exact (shows.kept field shelf (List.mem_of_getElem? found)).subset
    refine ⟨doc, subset field₀ _ uses₀ inside, conj, names, fun field shelf uses => ?_⟩
    obtain ⟨doc', inside', conj', names', accepts⟩ := held field shelf uses common
    obtain ⟨rfl, rfl⟩ :=
      names_unique distinct (subset field₀ _ uses₀ inside) (subset field shelf uses inside') names names'
    exact ⟨inside', accepts⟩
  · intro given e mem pl answered
    obtain ⟨doc, _, conj, names, accepted⟩ := given
    obtain ⟨shelf, pl', uses, answered', members⟩ := ran.answer_accepts listed distinct spelled reads mem
    obtain rfl := Except.ok.inj (answered.symm.trans answered')
    obtain ⟨inside, accepts⟩ := accepted e.1 shelf uses
    obtain ⟨d, single, named⟩ := names
    obtain rfl := List.mem_singleton.mp single
    exact (members x).mpr ⟨conj, ⟨d, inside, named⟩, accepts⟩

/-- At any time, a scan of any index that was built returns the documents with a conjunction that every
container of the index holds and accepts: those that were added while the fields had these containers, be it
before or after the index was built, with the keywords there were when the builder last built. -/
theorem retrieve_live [AhoMachine.Documented] (ran : Ran h l is) (listed : i ∈ is) (configured : i.data.entries ≠ [])
    (distinct : (l.docs.map Document.id).Nodup)
    (spelled : ∀ field shelf, i.Uses l field shelf → shelf.kind = .ac → shelf.Spelled field)
    (reads : ∀ field shelf, i.Uses l field shelf → shelf.Reads (assigned q field)) (visit : (i.now h).data.Visit) :
    ∃ s docs, (newScanner (i.now h)).retrieve q visit = .ok (s, .ok docs) ∧ docs.Nodup ∧
      ∀ x, x ∈ docs ↔ ∃ doc ∈ l.docs, x = doc.id.toUInt64 ∧ ∃ conj ∈ doc.cons, i.Accepts l q doc conj := by
  have all : ∀ e ∈ (i.now h).data.entries, ∃ pl, answer q e = .ok pl := by
    intro e mem
    obtain ⟨_, pl, _, answered, _⟩ := ran.answer_accepts listed distinct spelled reads mem
    exact ⟨pl, answered⟩
  have entries : (i.now h).data.entries ≠ [] := by simpa [IndexerRef.now] using configured
  obtain ⟨s, run, ids⟩ := retrieve_all visit all
  refine ⟨s, _, run, Finset.sort_nodup _ _, fun x => ?_⟩
  rw [docsOf, Finset.mem_sort, Finset.mem_image]
  simp only [ids, and_iff_right entries, ran.common_iff listed configured distinct spelled reads]
  constructor
  · intro given
    obtain ⟨id, ⟨doc, mem, conj, ⟨d, single, k, inZip, made⟩, accepts⟩, same⟩ := given
    obtain rfl := List.mem_singleton.mp single
    rw [docID_newConjunctionID made] at same
    exact ⟨d, mem, same.symm, conj, List.fst_mem_of_mem_zipIdx inZip, accepts⟩
  · intro given
    obtain ⟨doc, mem, same, conj, inside, accepts⟩ := given
    obtain ⟨k, bound, rfl⟩ := List.mem_iff_getElem.mp inside
    have inZip : (doc.cons[k], k) ∈ doc.cons.zipIdx := List.mk_mem_zipIdx_iff_getElem?.mpr (by simp [bound])
    obtain ⟨id, made⟩ := ran.exists_id listed configured accepts inZip
    refine ⟨id, ⟨doc, mem, _, ⟨doc, List.mem_singleton_self doc, k, inZip, made⟩, accepts⟩, ?_⟩
    rw [docID_newConjunctionID made, same]

omit [AhoMachine] in
/-- Two documents with one keyword, the second added after the index was built: it is returned as well. -/
theorem retrieve_live_late :
    letI := AhoMachine.naive
    let doc (id : Int64) : Document := ⟨id, 0, [⟨.singleton (str "k") [⟨true, .scalar (.string (str "red")), .eq⟩]⟩]⟩
    let q : Assignments := .singleton (str "k") (.scalar (.string (str "a red car")))
    ∃ h₁ h₂ h₃ h₄ i, (Heap.new StrHashParser.generator).configureField (str "k") ⟨none, ContainerNameAcMatch⟩ =
        .ok (h₁, .ok ()) ∧
      h₁.addDocument (fun _ => .id) (doc 7) = .ok (h₂, .ok ()) ∧ h₂.buildIndexer = .ok (h₃, i) ∧
      h₃.addDocument (fun _ => .id) (doc 8) = .ok (h₄, .ok ()) ∧
      ∀ visit, ∃ s docs, (newScanner (i.now h₄)).retrieve q visit = .ok (s, .ok docs) ∧ 7 ∈ docs ∧ 8 ∈ docs := by
  let _ := AhoMachine.naive
  have : AhoMachine.Documented := AhoMachine.naive_documented
  intro doc q
  obtain ⟨h₁, configured, known, run⟩ : ∃ h₁,
      (Heap.new StrHashParser.generator).configureField (str "k") ⟨none, ContainerNameAcMatch⟩ = .ok (h₁, .ok ()) ∧
      h₁.builder.kinds (str "k") = some .ac ∧ finished (fun h₂ _ => okAnd (fun r =>
        decide (r.2.data.entries = [⟨str "k", 0⟩]) &&
          finished (fun _ _ => true) (r.1.addDocument (fun _ => .id) (doc 8)))
        h₂.buildIndexer) (h₁.addDocument (fun _ => .id) (doc 7)) = true :=
    ⟨_, rfl, rfl, by decide +kernel⟩
  obtain ⟨h₂, _, first, run⟩ := finished_iff.mp run
  obtain ⟨⟨h₃, i⟩, built, run⟩ := okAnd_iff.mp run
  obtain ⟨entries, run⟩ := Bool.and_eq_true_iff.mp run
  obtain ⟨h₄, _, second, _⟩ := finished_iff.mp run
  have entries : i.data.entries = [⟨str "k", 0⟩] := of_decide_eq_true entries
  have ran := ((((Ran.new StrHashParser.generator).configured configured known).added first).built built).added second
  let shelf : Shelf := ⟨.ac, [doc 7, doc 8], [doc 7]⟩
  have uses : ∀ field s, i.Uses ((((Ledger.empty.configure (str "k") .ac).add (doc 7)).build).add (doc 8)) field s →
      field = str "k" ∧ s = shelf := by
    intro field s given
    obtain ⟨n, here, found⟩ := given
    have listed := AList.mem_lookup_iff.mp here
    rw [entries] at listed
    obtain ⟨rfl, rfl⟩ : field = str "k" ∧ n = 0 := by simpa using listed
    exact ⟨rfl, (Option.some.inj found).symm⟩
  have spelled : shelf.Spelled (str "k") := by
    unfold Shelf.Spelled
    decide
  have searched : shelf.Searches (str "k") true (str "red") := by
    unfold Shelf.Searches
    decide
  have mentions : shelf.Mentions (str "k") (assigned q (str "k")) ⟨true, .scalar (.string (str "red")), .eq⟩ :=
    ⟨str "red", by decide, searched, runes (str "a red car"), rfl, runes (str "a "), runes (str " car"), by decide⟩
  have accepts : shelf.Accepts (str "k") (assigned q (str "k"))
      ⟨.singleton (str "k") [⟨true, .scalar (.string (str "red")), .eq⟩]⟩ := by
    refine ⟨Or.inr ⟨_, List.mem_singleton_self _, rfl, mentions⟩, fun expr mem excl => ?_⟩
    obtain rfl := List.mem_singleton.mp mem
    cases excl
  refine ⟨h₁, h₂, h₃, h₄, i, configured, first, built, second, fun visit => ?_⟩
  obtain ⟨s, docs, scanned, _, exact⟩ := ran.retrieve_live (q := q) List.mem_cons_self (by simp [entries]) (by decide)
    (fun field s used _ => by obtain ⟨rfl, rfl⟩ := uses field s used; exact spelled)
    (fun field s used => by obtain ⟨rfl, rfl⟩ := uses field s used; exact Or.inr ⟨_, rfl⟩) visit
  have returned : ∀ id : Int64, doc id ∈ [doc 7, doc 8] → id.toUInt64 ∈ docs := by
    intro id mem
    refine (exact _).mpr ⟨doc id, mem, rfl, _, List.mem_singleton_self _, fun field s used => ?_⟩
    obtain ⟨rfl, rfl⟩ := uses field s used
    exact ⟨mem, accepts⟩
  exact ⟨s, docs, scanned, returned 7 (by simp), returned 8 (by simp)⟩

end Heap.Ran

end BeIndexer.Roaring
