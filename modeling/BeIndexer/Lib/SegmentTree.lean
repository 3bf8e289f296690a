import Mathlib.Data.List.Basic

/-!
# Lazily built segment trees

A tree over the index span `[l, r]` keeps at each node the values that cover the whole span of
that node. The type carries the spans, so a child always has one of the halves of its parent;
`nil` is a child that no insertion has needed yet.
-/

inductive SegmentTree (β : Type*) : Nat → Nat → Type _ where
  | nil {l r : Nat} : SegmentTree β l r
  | node {l r : Nat} (entries : List β) (left : SegmentTree β l ((l + r) / 2))
      (right : SegmentTree β ((l + r) / 2 + 1) r) : SegmentTree β l r

namespace SegmentTree

variable {β : Type*}

/-- A fresh node without values or children. -/
def build (l r : Nat) : SegmentTree β l r := node [] nil nil

/-- The node itself, or a fresh one where there is none. -/
def force {l r : Nat} : SegmentTree β l r → SegmentTree β l r
  | nil => build l r
  | node entries left right => node entries left right

/-- Records `b` at the nodes that together cover `[lo, hi]`, which must meet the span. -/
def insert {l r : Nat} (lo hi : Nat) (b : β) (t : SegmentTree β l r) (meets : l ≤ hi ∧ lo ≤ r)
    (valid : lo ≤ hi ∧ l ≤ r) : SegmentTree β l r :=
  match t.force with
  | nil => nil
  | node entries left right =>
    if h : lo ≤ l ∧ r ≤ hi then node (entries ++ [b]) left right
    else
      node entries
        (if h' : lo ≤ (l + r) / 2 then insert lo hi b left ⟨meets.1, h'⟩ ⟨valid.1, by omega⟩ else left)
        (if h' : (l + r) / 2 < hi then insert lo hi b right ⟨h', meets.2⟩ ⟨valid.1, by omega⟩ else right)
termination_by r - l

/-- The values recorded on the path from the root to the leaf `idx`. -/
def collect {l r : Nat} (idx : Nat) : SegmentTree β l r → List β
  | nil => []
  | node entries left right =>
    if l = r then entries
    else if idx ≤ (l + r) / 2 then entries ++ collect idx left
    else entries ++ collect idx right

theorem collect_force {l r : Nat} (idx : Nat) (t : SegmentTree β l r) : collect idx t.force = collect idx t := by
  cases t with
  | nil => simp [force, build, collect]
  | node => rfl

theorem force_eq_node {l r : Nat} (t : SegmentTree β l r) :
    ∃ entries left right, t.force = node entries left right := by
  cases t with
  | nil => exact ⟨[], nil, nil, rfl⟩
  | node entries left right => exact ⟨entries, left, right, rfl⟩

theorem force_insert {l r lo hi : Nat} {b : β} (t : SegmentTree β l r) (meets : l ≤ hi ∧ lo ≤ r)
    (valid : lo ≤ hi ∧ l ≤ r) : (insert lo hi b t meets valid).force = insert lo hi b t meets valid := by
  obtain ⟨entries, left, right, forced⟩ := force_eq_node t
  rw [insert, forced]
  simp only
  split <;> rfl

theorem mem_collect_insert {l r lo hi idx : Nat} {b x : β} (t : SegmentTree β l r) (meets : l ≤ hi ∧ lo ≤ r)
    (valid : lo ≤ hi ∧ l ≤ r) (inside : l ≤ idx ∧ idx ≤ r) :
    x ∈ collect idx (insert lo hi b t meets valid) ↔
      x ∈ collect idx t ∨ (x = b ∧ lo ≤ idx ∧ idx ≤ hi) := by
  induction hn : r - l using Nat.strongRecOn generalizing l r with
  | _ n ih =>
    obtain ⟨entries, left, right, forced⟩ := force_eq_node t
    rw [← collect_force idx t, insert, forced]
    simp only
    split
    · rename_i covers
      have within : lo ≤ idx ∧ idx ≤ hi := by omega
      simp only [collect]
      split
      · simp [within]
      · split <;> simp [within, or_comm, or_left_comm]
    · rename_i partly
      have wide : l ≠ r := by omega
      simp only [collect, if_neg wide]
      split
      · rename_i low
        split
        · rename_i goes
          rw [List.mem_append, List.mem_append,
            ih ((l + r) / 2 - l) (by omega) left ⟨meets.1, goes⟩ ⟨valid.1, by omega⟩ ⟨inside.1, low⟩ rfl, or_assoc]
        · rename_i stays
          have outside : ¬ (lo ≤ idx ∧ idx ≤ hi) := by omega
          simp [outside]
      · rename_i high
        split
        · rename_i goes
          rw [List.mem_append, List.mem_append,
            ih (r - ((l + r) / 2 + 1)) (by omega) right ⟨goes, meets.2⟩ ⟨valid.1, by omega⟩ ⟨by omega, inside.2⟩ rfl,
              or_assoc]
        · rename_i stays
          have outside : ¬ (lo ≤ idx ∧ idx ≤ hi) := by omega
          simp [outside]

end SegmentTree
