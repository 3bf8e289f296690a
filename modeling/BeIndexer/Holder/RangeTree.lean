import BeIndexer.Holder.OptimizedRange
import Mathlib.Data.Finset.Basic

/-!
# The segment tree as written (`optimized_range_holder.go`)

The nodes of the source keep their spans as fields, and their children are made on the way of an
insertion. `SegmentTree` has the spans in its type; the nodes are those of such a tree, as long as the
sum of two indices does not overflow. Go's `int` is `Int64`, and `Nat` where indices are to have no limit.
-/

namespace BeIndexer

inductive SegmentTreeNode (ι : Type) where
  | nil
  | node (l r : ι) (entries : Entries) (isLeaf : Bool) (left right : SegmentTreeNode ι)

namespace SegmentTreeNode

variable {ι : Type} [LinearOrder ι] [Add ι] [Div ι] [OfNat ι 1] [OfNat ι 2]

def buildTree (l r : ι) : SegmentTreeNode ι := .node l r [] (l == r) .nil .nil

def isNil : SegmentTreeNode ι → Bool
  | .nil => true
  | .node .. => false

def orBuild (child : SegmentTreeNode ι) (l r : ι) : SegmentTreeNode ι := if child.isNil then buildTree l r else child

/-- `insert`, for at most `fuel` nested calls. -/
def insert (l r : ι) (eid : EntryID) : (fuel : Nat) → SegmentTreeNode ι → Go (SegmentTreeNode ι)
  | 0, _ => .error .hang
  | _ + 1, .nil => panicf "invalid memory address or nil pointer dereference" []
  | fuel + 1, .node nl nr entries isLeaf left right =>
    if l ≤ nl ∧ nr ≤ r then .ok (.node nl nr (entries ++ [eid]) isLeaf left right)
    else do
      let mid := (nl + nr) / 2
      let left ← (if l ≤ mid then insert l r eid fuel (left.orBuild nl mid) else .ok left)
      let right ← (if r > mid then insert l r eid fuel (right.orBuild (mid + 1) nr) else .ok right)
      return .node nl nr entries isLeaf left right

/-- `collectEntries`; the keys of the map are a finite set. -/
def collectEntries (idx : ι) : SegmentTreeNode ι → Finset EntryID → Finset EntryID
  | .nil, result => result
  | .node l r entries isLeaf left right, result =>
    let result := entries.foldl (fun result eid => Insert.insert eid result) result
    if isLeaf then result
    else
      let mid := (l + r) / 2
      if idx ≤ mid ∧ left.isNil = false then collectEntries idx left result
      else if idx > mid ∧ right.isNil = false then collectEntries idx right result
      else result

structure Insertion (ι : Type) where
  l : ι
  r : ι
  eid : EntryID

def insertAll (fuel : Nat) (root : SegmentTreeNode ι) (inserts : List (Insertion ι)) : Go (SegmentTreeNode ι) :=
  inserts.foldlM (fun root i => insert i.l i.r i.eid fuel root) root

/-! ### Indices as integers -/

/-- The indices below `K` as values of `ι`, where the sum of two of them does not overflow. -/
structure Indices (K : Nat) (int : Nat → ι) : Prop where
  le_iff : ∀ {a b}, a < K → b < K → (int a ≤ int b ↔ a ≤ b)
  mid : ∀ {a b}, a < K → b < K → (int a + int b) / 2 = int ((a + b) / 2)
  succ : ∀ {a}, a + 1 < K → int a + 1 = int (a + 1)

theorem Indices.lt_iff {K a b : Nat} {int : Nat → ι} (ints : Indices K int) (ha : a < K) (hb : b < K) :
    int a < int b ↔ a < b := by
  rw [← not_le, ints.le_iff hb ha, not_le]

theorem Indices.eq_iff {K a b : Nat} {int : Nat → ι} (ints : Indices K int) (ha : a < K) (hb : b < K) :
    int a = int b ↔ a = b := by
  rw [le_antisymm_iff, ints.le_iff ha hb, ints.le_iff hb ha, Nat.le_antisymm_iff]

theorem indices_nat (K : Nat) : Indices K (fun a : Nat => a) := ⟨fun _ _ => Iff.rfl, fun _ _ => rfl, fun _ => rfl⟩

theorem indices_int64 {K : Nat} (small : K ≤ 2 ^ 62) : Indices K Int64.ofNat := by
  have value : ∀ {a : Nat}, a < 2 ^ 63 → (Int64.ofNat a).toInt = a := Int64.toInt_ofNat_of_lt
  have two : (2 : Int64).toInt = 2 := rfl
  have one : (1 : Int64).toInt = 1 := rfl
  refine ⟨?_, ?_, ?_⟩
  · intro a b ha hb
    rw [Int64.le_iff_toInt_le, value (by omega), value (by omega)]
    omega
  · intro a b ha hb
    have sum : (Int64.ofNat a + Int64.ofNat b).toInt = a + b := by
      rw [Int64.toInt_add, value (by omega), value (by omega), Int.bmod_eq_of_le (by omega) (by omega)]
    apply Int64.toInt_inj.mp
    rw [Int64.toInt_div, sum, two, value (by omega), Int.tdiv_eq_ediv_of_nonneg (by omega),
      Int.bmod_eq_of_le (by omega) (by omega)]
    omega
  · intro a ha
    apply Int64.toInt_inj.mp
    rw [Int64.toInt_add, one, value (by omega), value (by omega), Int.bmod_eq_of_le (by omega) (by omega)]
    omega

/-! ### The nodes of a tree -/

def ofTree (int : Nat → ι) {l r : Nat} : SegmentTree EntryID l r → SegmentTreeNode ι
  | .nil => .nil
  | .node entries left right => .node (int l) (int r) entries (decide (l = r)) (ofTree int left) (ofTree int right)

variable {K : Nat} {int : Nat → ι} {l r : Nat}

theorem buildTree_eq (ints : Indices K int) (hl : l < K) (hr : r < K) :
    buildTree (int l) (int r) = ofTree int (.build l r) := by
  unfold buildTree SegmentTree.build
  simp only [ofTree, beq_eq_decide, ints.eq_iff hl hr]

theorem orBuild_eq (ints : Indices K int) (hl : l < K) (hr : r < K) (t : SegmentTree EntryID l r) :
    (ofTree int t).orBuild (int l) (int r) = ofTree int t.force := by
  cases t with
  | nil => exact buildTree_eq ints hl hr
  | node entries left right => rfl

theorem insert_ofTree (ints : Indices K int) {lo hi fuel : Nat} (e : EntryID) (t : SegmentTree EntryID l r)
    (meets : l ≤ hi ∧ lo ≤ r) (valid : lo ≤ hi ∧ l ≤ r) (hr : r < K) (hh : hi < K) (enough : r - l < fuel) :
    insert (int lo) (int hi) e fuel (ofTree int t.force) = .ok (ofTree int (t.insert lo hi e meets valid)) := by
  induction fuel generalizing l r with
  | zero => omega
  | succ fuel ih =>
    obtain ⟨entries, left, right, forced⟩ := t.force_eq_node
    rw [SegmentTree.insert, forced]
    simp only [ofTree, insert, ints.le_iff (show lo < K by omega) (show l < K by omega), ints.le_iff hr hh]
    by_cases covers : lo ≤ l ∧ r ≤ hi
    · rw [if_pos covers, dif_pos covers]
      rfl
    · -- a leaf that an insertion reaches is covered, so the span has two halves
      have wide : l < r := by omega
      have mid_lt : (l + r) / 2 < K := by omega
      have goesLeft : (if lo ≤ (l + r) / 2 then insert (int lo) (int hi) e fuel (ofTree int left.force)
            else .ok (ofTree int left)) = .ok (ofTree int (if h : lo ≤ (l + r) / 2
              then left.insert lo hi e ⟨meets.1, h⟩ ⟨valid.1, by omega⟩ else left)) := by
        split
        · rw [ih left ⟨meets.1, by assumption⟩ ⟨valid.1, by omega⟩ mid_lt (by omega)]
        · rfl
      have goesRight : (if (l + r) / 2 < hi then insert (int lo) (int hi) e fuel (ofTree int right.force)
            else .ok (ofTree int right)) = .ok (ofTree int (if h : (l + r) / 2 < hi
              then right.insert lo hi e ⟨h, meets.2⟩ ⟨valid.1, by omega⟩ else right)) := by
        split
        · rw [ih right ⟨by assumption, meets.2⟩ ⟨valid.1, by omega⟩ hr (by omega)]
        · rfl
      rw [if_neg covers, dif_neg covers, ints.mid (show l < K by omega) hr,
        ints.succ (show (l + r) / 2 + 1 < K by omega)]
      simp only [ints.le_iff (show lo < K by omega) mid_lt, gt_iff_lt, ints.lt_iff mid_lt hh,
        orBuild_eq ints (show l < K by omega) mid_lt, orBuild_eq ints (show (l + r) / 2 + 1 < K by omega) hr]
      rw [goesLeft]
      show ((if (l + r) / 2 < hi then _ else _ : Go (SegmentTreeNode ι)) >>= _) = _
      rw [goesRight]
      rfl

theorem mem_foldl_insert {entries : Entries} {result : Finset EntryID} {e : EntryID} :
    e ∈ entries.foldl (fun result eid => Insert.insert eid result) result ↔ e ∈ result ∨ e ∈ entries := by
  induction entries generalizing result with
  | nil => simp
  | cons x entries ih =>
    rw [List.foldl_cons, ih, Finset.mem_insert, List.mem_cons, or_comm (a := e = x), or_assoc]

omit [OfNat ι 1] in
theorem collectEntries_child (idx : ι) (child : SegmentTreeNode ι) (result : Finset EntryID) :
    (if child.isNil = false then collectEntries idx child result else result) = collectEntries idx child result := by
  cases child with
  | nil => rfl
  | node => rfl

theorem mem_collectEntries (ints : Indices K int) {idx : Nat} {e : EntryID} {result : Finset EntryID}
    (t : SegmentTree EntryID l r) (le : l ≤ r) (hr : r < K) (hi : idx < K) :
    e ∈ collectEntries (int idx) (ofTree int t) result ↔ e ∈ result ∨ e ∈ t.collect idx := by
  induction t generalizing result with
  | nil => simp [ofTree, collectEntries, SegmentTree.collect]
  | @node l r entries left right ihLeft ihRight =>
    have mid_lt : (l + r) / 2 < K := by omega
    simp only [ofTree, collectEntries, SegmentTree.collect, decide_eq_true_eq, ints.mid (show l < K by omega) hr,
      ints.le_iff hi mid_lt, gt_iff_lt, ints.lt_iff mid_lt hi]
    by_cases leaf : l = r
    · rw [if_pos leaf, if_pos leaf, mem_foldl_insert]
    · rw [if_neg leaf, if_neg leaf]
      by_cases low : idx ≤ (l + r) / 2
      · simp only [low, true_and, not_lt.mpr low, false_and, if_false, if_true]
        rw [collectEntries_child, ihLeft (by omega) mid_lt, mem_foldl_insert, List.mem_append, or_assoc]
      · simp only [low, not_le.mp low, true_and, false_and, if_false]
        rw [collectEntries_child, ihRight (by omega) hr, mem_foldl_insert, List.mem_append, or_assoc]

/-! ### Insertions in turn -/

def Insertion.map (int : Nat → ι) (i : Insertion Nat) : Insertion ι := ⟨int i.l, int i.r, i.eid⟩

theorem insertAll_cons (ints : Indices K int) {i : Insertion Nat} {fuel : Nat} (rest : List (Insertion ι))
    (t : SegmentTree EntryID 0 (K - 1)) (meets : 0 ≤ i.r ∧ i.l ≤ K - 1) (valid : i.l ≤ i.r ∧ 0 ≤ K - 1) (lt : i.r < K)
    (enough : K ≤ fuel) :
    insertAll fuel (ofTree int t.force) (i.map int :: rest) =
      insertAll fuel (ofTree int (t.insert i.l i.r i.eid meets valid).force) rest := by
  unfold insertAll
  rw [List.foldlM_cons]
  show (insert (int i.l) (int i.r) i.eid fuel (ofTree int t.force) >>= _) = _
  rw [insert_ofTree ints i.eid t meets valid (by omega) lt (by omega), t.force_insert meets valid]
  rfl

theorem insertAll_ofTree (ints : Indices K int) (pos : 0 < K) {inserts : List (Insertion Nat)}
    (inside : ∀ i ∈ inserts, i.l ≤ i.r ∧ i.r < K) (t : SegmentTree EntryID 0 (K - 1)) :
    ∃ t' : SegmentTree EntryID 0 (K - 1),
      (∀ fuel, K ≤ fuel → insertAll fuel (ofTree int t.force) (inserts.map (.map int)) = .ok (ofTree int t'.force)) ∧
      ∀ idx < K, ∀ e, e ∈ t'.collect idx ↔ e ∈ t.collect idx ∨ ∃ i ∈ inserts, e = i.eid ∧ i.l ≤ idx ∧ idx ≤ i.r := by
  induction inserts generalizing t with
  | nil => exact ⟨t, fun fuel enough => rfl, fun idx lt e => by simp⟩
  | cons i inserts ih =>
    obtain ⟨le, lt⟩ := inside i List.mem_cons_self
    have meets : 0 ≤ i.r ∧ i.l ≤ K - 1 := ⟨Nat.zero_le _, by omega⟩
    have valid : i.l ≤ i.r ∧ 0 ≤ K - 1 := ⟨le, Nat.zero_le _⟩
    obtain ⟨t', ran, found⟩ :=
      ih (fun j hj => inside j (List.mem_cons_of_mem _ hj)) (t.insert i.l i.r i.eid meets valid)
    refine ⟨t', ?_, ?_⟩
    · intro fuel enough
      rw [List.map_cons, insertAll_cons ints _ t meets valid lt enough]
      exact ran fuel enough
    · intro idx idx_lt e
      rw [found idx idx_lt, SegmentTree.mem_collect_insert t meets valid ⟨Nat.zero_le _, by omega⟩, or_assoc,
        List.exists_mem_cons_iff]

theorem collectEntries_insertAll (ints : Indices K int) (pos : 0 < K) {inserts : List (Insertion Nat)}
    (inside : ∀ i ∈ inserts, i.l ≤ i.r ∧ i.r < K) :
    ∃ root, (∀ fuel, K ≤ fuel → insertAll fuel (buildTree (int 0) (int (K - 1))) (inserts.map (.map int)) = .ok root) ∧
      ∀ idx < K, ∀ e, e ∈ collectEntries (int idx) root ∅ ↔ ∃ i ∈ inserts, e = i.eid ∧ i.l ≤ idx ∧ idx ≤ i.r := by
  obtain ⟨t, ran, found⟩ := insertAll_ofTree ints pos inside (SegmentTree.build 0 (K - 1))
  refine ⟨ofTree int t.force, ?_, ?_⟩
  · rw [buildTree_eq ints pos (by omega)]
    exact ran
  · intro idx lt e
    rw [mem_collectEntries ints t.force (Nat.zero_le _) (by omega) lt, SegmentTree.collect_force, found idx lt e]
    simp [SegmentTree.build, SegmentTree.collect]

/-- Every insertion into the root over `K` indices returns, and a lookup yields the entry ids of the
insertions that cover its index. Go's `int` is wide enough for as many coordinates as memory can hold. -/
theorem segmentTree_exact (pos : 0 < K) (inserts : List (Insertion Nat)) (inside : ∀ i ∈ inserts, i.l ≤ i.r ∧ i.r < K) :
    (∃ root, (∀ fuel, K ≤ fuel → insertAll fuel (buildTree 0 (K - 1)) inserts = .ok root) ∧
      ∀ idx < K, ∀ e, e ∈ collectEntries idx root ∅ ↔ ∃ i ∈ inserts, e = i.eid ∧ i.l ≤ idx ∧ idx ≤ i.r) ∧
    (K ≤ 2 ^ 62 → ∃ root,
      (∀ fuel, K ≤ fuel →
        insertAll fuel (buildTree 0 (Int64.ofNat (K - 1))) (inserts.map (.map Int64.ofNat)) = .ok root) ∧
      ∀ idx < K, ∀ e, e ∈ collectEntries (Int64.ofNat idx) root ∅ ↔
        ∃ i ∈ inserts, e = i.eid ∧ i.l ≤ idx ∧ idx ≤ i.r) := by
  constructor
  · have exact_ := collectEntries_insertAll (indices_nat K) pos inside
    rwa [show inserts.map (.map fun a => a) = inserts from List.map_id inserts] at exact_
  · intro small
    exact collectEntries_insertAll (indices_int64 small) pos inside

/-- Two overlapping ranges and one that ends the span, looked up where the first two overlap. -/
theorem segmentTree_exact_six :
    ∃ root, insertAll 6 (buildTree 0 5) [⟨0, 3, 16⟩, ⟨2, 4, 32⟩, ⟨5, 5, 48⟩] = .ok root ∧
      16 ∈ collectEntries 2 root ∅ ∧ 32 ∈ collectEntries 2 root ∅ ∧ 48 ∉ collectEntries 2 root ∅ := by
  obtain ⟨⟨root, ran, found⟩, _⟩ :=
    segmentTree_exact (K := 6) (by decide) [⟨0, 3, 16⟩, ⟨2, 4, 32⟩, ⟨5, 5, 48⟩] (by simp)
  refine ⟨root, ran 6 (Nat.le_refl 6), ?_, ?_, ?_⟩
  · rw [found 2 (by decide)]
    simp
  · rw [found 2 (by decide)]
    simp
  · rw [found 2 (by decide)]
    simp

end SegmentTreeNode

/-! ### The tree of a compiled container -/

namespace OptimizedRangeHolder

open SegmentTreeNode

variable {ι : Type} [LinearOrder ι] [Add ι] [Div ι] [OfNat ι 1] [OfNat ι 2]

/-- What `CompileEntries` inserts for a pending range. -/
def pendingInsertion (cc : CoordinateCompressor) (pr : PendingRange) : Insertion Nat :=
  ⟨(cc.findRange pr.left pr.right).1, (cc.findRange pr.left pr.right).2, pr.eid⟩

theorem findRange_inside {cc : CoordinateCompressor} (built : cc.built = true) (pr : PendingRange)
    (coordinate : pr.left ∈ cc.values) :
    (cc.findRange pr.left pr.right).1 < cc.size ∧ (cc.findRange pr.left pr.right).2 < cc.size := by
  have first := CoordinateCompressor.findIdx_lt built coordinate
  have last := (CoordinateCompressor.findIdx_isFirst built pr.right).1
  unfold CoordinateCompressor.findRange CoordinateCompressor.size
  simp only
  omega

theorem insertAll_pending {cc : CoordinateCompressor} {int : Nat → ι} (ints : Indices cc.size int)
    (built : cc.built = true)
    {pending : List PendingRange} (coordinates : ∀ pr ∈ pending, pr.left ∈ cc.values) {fuel : Nat}
    (enough : cc.size ≤ fuel) (root : SegmentTree EntryID 0 (cc.size - 1)) :
    insertAll fuel (ofTree int root.force) (pending.map fun pr => (pendingInsertion cc pr).map int) =
      .ok (ofTree int (pending.foldl (insertPending cc) root).force) := by
  induction pending generalizing root with
  | nil => rfl
  | cons pr pending ih =>
    obtain ⟨low, high⟩ := findRange_inside built pr (coordinates pr List.mem_cons_self)
    have meets : 0 ≤ (cc.findRange pr.left pr.right).2 ∧ (cc.findRange pr.left pr.right).1 ≤ cc.size - 1 := by omega
    have valid : (cc.findRange pr.left pr.right).1 ≤ (cc.findRange pr.left pr.right).2 ∧ 0 ≤ cc.size - 1 :=
      ⟨le_max_left _ _, Nat.zero_le _⟩
    have step : insertPending cc root pr = root.insert _ _ pr.eid meets valid := dif_pos low
    rw [List.map_cons, List.foldl_cons, insertAll_cons ints _ root meets valid high enough, step]
    exact ih (fun p hp => coordinates p (List.mem_cons_of_mem _ hp)) _

/-- The root of a compiled container is the tree that the source's insertions build, and is looked up as there. -/
theorem compile_tree {h h' : OptimizedRangeHolder} {int : Nat → ι} (compiled : h.compileEntries = .ok h')
    (coordinates : ∀ pr ∈ h.pendingRanges, pr.left ∈ h.compressor.values) (ints : Indices h'.compressedSize int)
    (some : 0 < h'.compressedSize) {fuel : Nat} (enough : h'.compressedSize ≤ fuel) :
    ∃ root, insertAll fuel (buildTree (int 0) (int (h'.compressedSize - 1)))
        (h.pendingRanges.map fun pr => (pendingInsertion h'.compressor pr).map int) = .ok root ∧
      ∀ idx < h'.compressedSize, ∀ e, e ∈ collectEntries (int idx) root ∅ ↔ e ∈ h'.root.collect idx := by
  obtain ⟨_, _, done⟩ := bind_eq_ok.mp compiled
  obtain rfl := Except.ok.inj done
  have ran := insertAll_pending ints h.compressor.build_built
    (fun pr hpr => CoordinateCompressor.mem_build.mpr (coordinates pr hpr)) enough
      (.build 0 (h.compressor.build.size - 1))
  have size : ¬ h.compressor.build.size = 0 := Nat.ne_of_gt some
  have last : h.compressor.build.size - 1 < h.compressor.build.size := by omega
  simp only [if_neg size]
  rw [show (SegmentTree.build 0 (h.compressor.build.size - 1)).force =
      SegmentTree.build 0 (h.compressor.build.size - 1) from rfl,
    ← buildTree_eq ints some last] at ran
  refine ⟨_, ran, ?_⟩
  intro idx lt e
  rw [mem_collectEntries ints _ (Nat.zero_le _) (by omega) lt, SegmentTree.collect_force]
  simp

end OptimizedRangeHolder

end BeIndexer
