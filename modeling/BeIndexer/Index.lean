import BeIndexer.Holder.Entries
import BeIndexer.KMatch
import Mathlib.Data.Finset.Sort

/-!
# The two indexers (`be_indexer.go`, `be_indexer_kgroups.go`, `be_indexer_compact.go`)

`KGroupsBEIndex` keeps one container for each conjunction size and scans them one after the other,
`CompactBEIndex` keeps everything in one container and scans once. Containers and holders are
pointers in the source; here an index is a value, and what is done to a container is written back.
-/

namespace BeIndexer

/-! ### Fields -/

/-- `map[BEField]*FieldDesc`: fields in the order in which they were configured, which numbers them. -/
structure FieldTable where
  descs : List FieldDesc
  numbered : descs.map FieldDesc.id = List.range descs.length
  distinct : (descs.map FieldDesc.field).Nodup

namespace FieldTable

def empty : FieldTable := ⟨[], rfl, List.nodup_nil⟩

def find (t : FieldTable) (field : BEField) : Option FieldDesc := t.descs.find? fun desc => desc.field == field

theorem find_eq_none {t : FieldTable} {field : BEField} :
    t.find field = none ↔ field ∉ t.descs.map FieldDesc.field := by
  simp [find, List.find?_eq_none]

/-- The field is added under the next id. -/
def add (t : FieldTable) (field : BEField) (container : GoString) (fresh : t.find field = none) : FieldTable where
  descs := t.descs ++ [⟨t.descs.length, field, container⟩]
  numbered := by simp [t.numbered, List.range_succ]
  distinct := by
    rw [List.map_append, List.map_cons, List.map_nil]
    refine List.nodup_append.mpr ⟨t.distinct, List.nodup_singleton _, ?_⟩
    rintro a ha b hb rfl
    obtain rfl : a = field := List.mem_singleton.mp hb
    exact find_eq_none.mp fresh ha

theorem find_mem {t : FieldTable} {field : BEField} {desc : FieldDesc} (found : t.find field = some desc) :
    desc ∈ t.descs ∧ desc.field = field := by
  have mem := List.mem_of_find?_eq_some found
  have same := List.find?_some found
  exact ⟨mem, by simpa using same⟩

theorem find_add {t : FieldTable} {field : BEField} {container : GoString} (fresh : t.find field = none) (g : BEField) :
    (t.add field container fresh).find g =
      if g = field then some ⟨t.descs.length, field, container⟩ else t.find g := by
  unfold find add
  rw [List.find?_append, List.find?_singleton]
  by_cases same : g = field
  · subst same
    have missing : t.descs.find? (fun desc => desc.field == g) = none := fresh
    simp [missing]
  · simp [same, Ne.symm same]

theorem id_lt {t : FieldTable} {desc : FieldDesc} (mem : desc ∈ t.descs) : desc.id < t.descs.length := by
  have listed : desc.id ∈ t.descs.map FieldDesc.id := List.mem_map_of_mem mem
  rwa [t.numbered, List.mem_range] at listed

theorem id_inj {t : FieldTable} {d e : FieldDesc} (hd : d ∈ t.descs) (he : e ∈ t.descs) (same : d.id = e.id) :
    d = e := by
  have nodup : (t.descs.map FieldDesc.id).Nodup := by
    rw [t.numbered]
    exact List.nodup_range
  exact List.inj_on_of_nodup_map nodup hd he same

end FieldTable

/-! ### Containers -/

structure EntriesContainer where
  defaultHolder : DefaultEntriesHolder
  fieldHolder : GoMap BEField EntriesHolder

def newFieldEntriesContainer : EntriesContainer where
  defaultHolder := newDefaultEntriesHolder
  fieldHolder := ∅

namespace EntriesContainer

/-- `getFieldHolder`, and `GetHolder`, which is the same. -/
def getFieldHolder (c : EntriesContainer) (desc : FieldDesc) : Option EntriesHolder :=
  if desc.container = HolderNameDefault then some (.default c.defaultHolder)
  else c.fieldHolder.lookup desc.field

/-- Writes a holder back. The shared one is the only holder of its type. -/
def setHolder (c : EntriesContainer) (desc : FieldDesc) (holder : EntriesHolder) : EntriesContainer :=
  match holder with
  | .default h => { c with defaultHolder := h }
  | h => { c with fieldHolder := c.fieldHolder.insert desc.field h }

def createHolder (c : EntriesContainer) (desc : FieldDesc) : Go (EntriesContainer × EntriesHolder) :=
  match c.getFieldHolder desc with
  | some holder => .ok (c, holder)
  | none =>
    match newEntriesHolder desc.container with
    | some holder => .ok (c.setHolder desc holder, holder)
    | none => panicf "field:%s container:%s not found, plz register it" [.str desc.field, .str desc.container]

variable [AhoMachine]

/-- The loop of `compileEntries` over the field holders. -/
def compileHolders (holders : List (Sigma fun _ : BEField => EntriesHolder)) : Go (GoMap BEField EntriesHolder) :=
  holders.foldlM (fun compiled e => do
    let holder ← e.2.compileEntries
    return compiled.insert e.1 holder) ∅

def compileEntries (c : EntriesContainer) : Go EntriesContainer := do
  let fieldHolder ← compileHolders c.fieldHolder.entries
  return { defaultHolder := c.defaultHolder.compileEntries, fieldHolder := fieldHolder }

end EntriesContainer

/-! ### Indexers -/

structure IndexBase where
  fieldsData : FieldTable
  wildcardEntries : Entries

structure KGroupsBEIndex extends IndexBase where
  kSizeContainers : List EntriesContainer

structure CompactBEIndex extends IndexBase where
  container : EntriesContainer

inductive BEIndex where
  | kgroups (index : KGroupsBEIndex)
  | compact (index : CompactBEIndex)

def newKGroupsBEIndex : KGroupsBEIndex where
  fieldsData := .empty
  wildcardEntries := []
  kSizeContainers := []

def newCompactedBEIndex : CompactBEIndex where
  fieldsData := .empty
  wildcardEntries := []
  container := newFieldEntriesContainer

namespace KGroupsBEIndex

def maxK (bi : KGroupsBEIndex) : Int := bi.kSizeContainers.length - 1

/-- `newContainer`: containers are appended until there is one for size `k`. -/
def newContainer (bi : KGroupsBEIndex) (k : Nat) : KGroupsBEIndex :=
  { bi with kSizeContainers := bi.kSizeContainers ++
      List.replicate (k + 1 - bi.kSizeContainers.length) newFieldEntriesContainer }

variable [AhoMachine]

def compileIndexer (bi : KGroupsBEIndex) : Go KGroupsBEIndex := do
  let containers ← bi.kSizeContainers.mapM EntriesContainer.compileEntries
  return { bi with kSizeContainers := containers, wildcardEntries := sortEntries bi.wildcardEntries }

end KGroupsBEIndex

def CompactBEIndex.compileIndexer [AhoMachine] (bi : CompactBEIndex) : Go CompactBEIndex := do
  let container ← bi.container.compileEntries
  return { bi with container := container, wildcardEntries := sortEntries bi.wildcardEntries }

namespace BEIndex

def base : BEIndex → IndexBase
  | .kgroups bi => bi.toIndexBase
  | .compact bi => bi.toIndexBase

def setFieldDesc (fieldsData : FieldTable) : BEIndex → BEIndex
  | .kgroups bi => .kgroups { bi with fieldsData := fieldsData }
  | .compact bi => .compact { bi with fieldsData := fieldsData }

def addWildcardEID (id : EntryID) : BEIndex → BEIndex
  | .kgroups bi => .kgroups { bi with wildcardEntries := bi.wildcardEntries ++ [id] }
  | .compact bi => .compact { bi with wildcardEntries := bi.wildcardEntries ++ [id] }

def newContainer (k : Nat) : BEIndex → BEIndex
  | .kgroups bi => .kgroups (bi.newContainer k)
  | .compact bi => .compact bi

/-- The container that `newContainer(k)` returns. -/
def container (k : Nat) : BEIndex → EntriesContainer
  | .kgroups bi => bi.kSizeContainers.getD k newFieldEntriesContainer
  | .compact bi => bi.container

def setContainer (k : Nat) (c : EntriesContainer) : BEIndex → BEIndex
  | .kgroups bi => .kgroups { bi with kSizeContainers := (bi.newContainer k).kSizeContainers.set k c }
  | .compact bi => .compact { bi with container := c }

def compileIndexer [AhoMachine] : BEIndex → Go BEIndex
  | .kgroups bi => bi.compileIndexer.map .kgroups
  | .compact bi => bi.compileIndexer.map .compact

/-! ### Reading and writing containers -/

def isCompact : BEIndex → Bool
  | .kgroups _ => false
  | .compact _ => true

theorem compact_eq {idx : BEIndex} (kind : idx.isCompact = true) : ∃ bi, idx = .compact bi := by
  cases idx with
  | kgroups bi => cases kind
  | compact bi => exact ⟨bi, rfl⟩

theorem kgroups_eq {idx : BEIndex} (kind : idx.isCompact = false) : ∃ bi, idx = .kgroups bi := by
  cases idx with
  | kgroups bi => exact ⟨bi, rfl⟩
  | compact bi => cases kind

/-- A container for size `k` was asked for before. -/
def HasContainer (k : Nat) : BEIndex → Prop
  | .kgroups bi => k < bi.kSizeContainers.length
  | .compact _ => True

variable (k k' : Nat) (c : EntriesContainer) (id : EntryID) (t : FieldTable) (idx : BEIndex)

@[simp] theorem newContainer_base : (idx.newContainer k).base = idx.base := by cases idx <;> rfl
@[simp] theorem setContainer_base : (idx.setContainer k c).base = idx.base := by cases idx <;> rfl
@[simp] theorem newContainer_isCompact : (idx.newContainer k).isCompact = idx.isCompact := by cases idx <;> rfl
@[simp] theorem setContainer_isCompact : (idx.setContainer k c).isCompact = idx.isCompact := by cases idx <;> rfl
@[simp] theorem addWildcardEID_isCompact : (idx.addWildcardEID id).isCompact = idx.isCompact := by cases idx <;> rfl
@[simp] theorem setFieldDesc_isCompact : (idx.setFieldDesc t).isCompact = idx.isCompact := by cases idx <;> rfl
@[simp] theorem addWildcardEID_container : (idx.addWildcardEID id).container k = idx.container k := by cases idx <;> rfl
@[simp] theorem setFieldDesc_container : (idx.setFieldDesc t).container k = idx.container k := by cases idx <;> rfl

@[simp] theorem addWildcardEID_wildcard :
    (idx.addWildcardEID id).base.wildcardEntries = idx.base.wildcardEntries ++ [id] := by cases idx <;> rfl

@[simp] theorem setFieldDesc_wildcard :
    (idx.setFieldDesc t).base.wildcardEntries = idx.base.wildcardEntries := by cases idx <;> rfl

@[simp] theorem newContainer_container : (idx.newContainer k).container k' = idx.container k' := by
  cases idx with
  | compact bi => rfl
  | kgroups bi =>
    simp only [newContainer, container, KGroupsBEIndex.newContainer, List.getD_eq_getElem?_getD]
    by_cases old : k' < bi.kSizeContainers.length
    · rw [List.getElem?_append_left old]
    · rw [List.getElem?_append_right (not_lt.mp old), List.getElem?_eq_none (not_lt.mp old), List.getElem?_replicate]
      split <;> rfl

theorem setContainer_container :
    (idx.setContainer k c).container k' = if idx.isCompact = true ∨ k = k' then c else idx.container k' := by
  cases idx with
  | compact bi => simp [setContainer, container, isCompact]
  | kgroups bi =>
    have grown := newContainer_container k k' (.kgroups bi)
    have inside : k < (bi.newContainer k).kSizeContainers.length := by
      simp only [KGroupsBEIndex.newContainer, List.length_append, List.length_replicate]
      omega
    simp only [newContainer, container, setContainer, isCompact, List.getD_eq_getElem?_getD] at grown ⊢
    by_cases same : k = k'
    · subst same
      rw [List.getElem?_set_self inside]
      simp
    · rw [List.getElem?_set_ne same, grown]
      simp [same]

variable {k k' c id t idx}

theorem HasContainer.newContainer (has : idx.HasContainer k) : (idx.newContainer k').HasContainer k := by
  cases idx with
  | compact bi => trivial
  | kgroups bi =>
    simp only [HasContainer, BEIndex.newContainer, KGroupsBEIndex.newContainer, List.length_append] at has ⊢
    omega

theorem newContainer_has : (idx.newContainer k).HasContainer k := by
  cases idx with
  | compact bi => trivial
  | kgroups bi =>
    simp only [HasContainer, BEIndex.newContainer, KGroupsBEIndex.newContainer, List.length_append,
      List.length_replicate]
    omega

theorem HasContainer.setContainer (has : idx.HasContainer k) : (idx.setContainer k' c).HasContainer k := by
  cases idx with
  | compact bi => trivial
  | kgroups bi =>
    have grown : ((BEIndex.kgroups bi).newContainer k').HasContainer k := has.newContainer
    simpa [HasContainer, BEIndex.setContainer, BEIndex.newContainer] using grown

theorem HasContainer.addWildcardEID (has : idx.HasContainer k) : (idx.addWildcardEID id).HasContainer k := by
  cases idx <;> exact has

theorem setFieldDesc_has : (idx.setFieldDesc t).HasContainer k ↔ idx.HasContainer k := by
  cases idx <;> exact Iff.rfl

theorem container_fresh (missing : ¬ idx.HasContainer k) : idx.container k = newFieldEntriesContainer := by
  cases idx with
  | compact bi => exact absurd trivial missing
  | kgroups bi => exact List.getD_eq_default _ _ (not_lt.mp missing)

end BEIndex

/-! ### Result collector -/

/-- `DocIDCollector`: a roaring bitmap is a set of `uint64`. -/
abbrev DocIDCollector := Finset UInt64

namespace DocIDCollector

def add (docBits : DocIDCollector) (conj : ConjID) : DocIDCollector := insert conj.docID.toUInt64 docBits

/-- The iterator of a bitmap goes in ascending order. -/
def getDocIDs (docBits : DocIDCollector) : List DocID := (docBits.sort (· ≤ ·)).map UInt64.toInt64

end DocIDCollector

/-! ### Retrieval -/

/-- The order in which one loop visits a map. -/
abbrev GoMap.Visit {κ β : Type} (m : GoMap κ β) := { entries : List (Sigma fun _ : κ => β) // entries.Perm m.entries }

/-- A loop may start anywhere. -/
theorem GoMap.exists_visit_first {κ β : Type} {m : GoMap κ β} {e : Sigma fun _ : κ => β} (mem : e ∈ m.entries) :
    ∃ rest, (e :: rest).Perm m.entries := by
  obtain ⟨before, after, split⟩ := List.append_of_mem mem
  exact ⟨before ++ after, by rw [split]; exact List.perm_middle.symm⟩

section Retrieve

variable [FloatOps] [AhoMachine]

/-- One turn of the loop of `initCursors`: a field that is not known or has no holder is passed over. -/
def initFieldCursor (fieldsData : FieldTable) (container : EntriesContainer)
    (assign : Sigma fun _ : BEField => Value) : Go FieldCursors :=
  match fieldsData.find assign.1 with
  | none => .ok []
  | some desc =>
    match container.getFieldHolder desc with
    | none => .ok []
    | some holder => do
      match ← holder.getEntries desc assign.2 with
      | [] => return []
      | c :: cs => return [newFieldCursor c cs]

/-- The cursor over the wildcard list, if there is one. -/
def wildcardCursor (wildcardEntries : Entries) : FieldCursors :=
  if wildcardEntries.isEmpty then [] else [newFieldCursor (newEntriesCursor wildcardEntries) []]

/-- `initCursors` of either index, `wildcard` being the cursors it starts with. -/
def initCursorsFrom (wildcard : FieldCursors) (fieldsData : FieldTable) (container : EntriesContainer)
    (assigns : List (Sigma fun _ : BEField => Value)) : Go FieldCursors := do
  let found ← assigns.mapM (initFieldCursor fieldsData container)
  return wildcard ++ found.flatten

namespace KGroupsBEIndex

def getKSizeEntries (bi : KGroupsBEIndex) (k : Nat) : Go EntriesContainer :=
  match bi.kSizeContainers[k]? with
  | some container => .ok container
  | none => panicf "k:[%d] out of range" [.int k]

def initCursors (bi : KGroupsBEIndex) (assigns : List (Sigma fun _ : BEField => Value)) (k : Nat) :
    Go FieldCursors := do
  let container ← bi.getKSizeEntries k
  initCursorsFrom (if k = 0 then wildcardCursor bi.wildcardEntries else []) bi.fieldsData container assigns

/-- The loop of `RetrieveWithCollector` over the sizes below `n`, the largest first. -/
def retrieveBelow (bi : KGroupsBEIndex) (queries : Assignments) (visits : Nat → queries.Visit) :
    Nat → DocIDCollector → Go DocIDCollector
  | 0, collector => .ok collector
  | k + 1, collector => do
    let fCursors ← bi.initCursors (visits k).1 k
    let adds ← retrieveK fCursors (max k 1) (Nat.lt_of_lt_of_le Nat.zero_lt_one (Nat.le_max_right k 1))
    retrieveBelow bi queries visits k (adds.foldl DocIDCollector.add collector)

/-- `Retrieve`; the loop over the query is made once for each size. -/
def retrieve (bi : KGroupsBEIndex) (queries : Assignments) (visits : Nat → queries.Visit) : Go (List DocID) := do
  let size ← Assignments.size queries
  let collector ← bi.retrieveBelow queries visits (min (size : Int) bi.maxK + 1).toNat ∅
  return collector.getDocIDs

end KGroupsBEIndex

namespace CompactBEIndex

def initCursors (bi : CompactBEIndex) (assigns : List (Sigma fun _ : BEField => Value)) : Go FieldCursors :=
  initCursorsFrom (wildcardCursor bi.wildcardEntries) bi.fieldsData bi.container assigns

def retrieve (bi : CompactBEIndex) (queries : Assignments) (visit : queries.Visit) : Go (List DocID) := do
  let fieldCursors ← bi.initCursors visit.1
  let adds ← FieldCursors.retrieveLoop fieldCursors.sort
  return DocIDCollector.getDocIDs (adds.foldl DocIDCollector.add ∅)

end CompactBEIndex

/-- `Retrieve`; the compact index makes the first of the visits only. -/
def BEIndex.retrieve (queries : Assignments) (visits : Nat → GoMap.Visit queries) : BEIndex → Go (List DocID)
  | .kgroups bi => bi.retrieve queries visits
  | .compact bi => bi.retrieve queries (visits 0)

end Retrieve

end BeIndexer
