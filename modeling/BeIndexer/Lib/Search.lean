import Mathlib.Order.Lattice

/-!
# Searching sorted sequences

`search` is the half-open binary search for the first index that satisfies a monotone
predicate. `gallop` and `bisect` are the two phases of an exponential search that starts at a
cursor: `gallop` doubles its stride while the probed element is still too small, `bisect`
halves the bracket it leaves. Every access carries its own bound, so neither phase can read
outside the list.
-/

namespace SortedSearch

/-! ### Binary search for a monotone predicate -/

/-- The loop of `search` on the bracket `[i, j)`. -/
def searchLoop (p : Nat → Bool) (i j : Nat) : Nat :=
  if i < j then
    if p ((i + j) / 2) then searchLoop p i ((i + j) / 2) else searchLoop p ((i + j) / 2 + 1) j
  else i
termination_by j - i

/-- The first index of `[0, n)` at which `p` holds, and `n` if there is none. -/
def search (n : Nat) (p : Nat → Bool) : Nat := searchLoop p 0 n

/-- What it means to be the first index of `[0, n)` at which `p` holds. -/
def IsFirst (n : Nat) (p : Nat → Bool) (r : Nat) : Prop :=
  r ≤ n ∧ (∀ i < r, p i = false) ∧ (r < n → p r = true)

theorem searchLoop_isFirst {n i j : Nat} {p : Nat → Bool} (mono : ∀ a b, a ≤ b → p a = true → p b = true)
    (le : i ≤ j) (bound : j ≤ n) (below : ∀ a < i, p a = false) (above : ∀ a, j ≤ a → a < n → p a = true) :
    IsFirst n p (searchLoop p i j) := by
  induction i, j using searchLoop.induct p with
  | case1 i j lt hit ih =>
    rw [searchLoop, if_pos lt, if_pos hit]
    exact ih (by omega) (by omega) below (fun a ha _ => mono _ a ha hit)
  | case2 i j lt miss ih =>
    rw [searchLoop, if_pos lt, if_neg miss]
    refine ih (by omega) bound ?_ above
    intro a ha
    -- a hit at or before the midpoint would propagate to the midpoint itself
    by_contra hit
    exact miss (mono a _ (by omega) (by simpa using hit))
  | case3 i j stop =>
    rw [searchLoop, if_neg stop]
    exact ⟨by omega, below, fun ha => above i (by omega) ha⟩

theorem search_isFirst {n : Nat} {p : Nat → Bool} (mono : ∀ a b, a ≤ b → p a = true → p b = true) :
    IsFirst n p (search n p) :=
  searchLoop_isFirst mono (Nat.zero_le n) (Nat.le_refl n) (by simp) (fun _ ge lt => absurd lt (by omega))

/-! ### Exponential search from a cursor -/

section Gallop

variable {α : Type*} [LinearOrder α]

/-- Doubles `bound` while the element at `oc + bound` is below `id`. Returns the last probed
index that was too small (or `cursor`) and the index that stopped the probe. -/
def gallop (xs : List α) (id : α) (oc bound cursor : Nat) (pos : 0 < bound) : Nat × Nat :=
  if h : oc + bound < xs.length then
    if xs[oc + bound] < id then
      gallop xs id oc (bound <<< 1) (oc + bound) (by rw [Nat.shiftLeft_eq]; omega)
    else (cursor, oc + bound)
  else (cursor, oc + bound)
termination_by xs.length - (oc + bound)
decreasing_by
  rw [Nat.shiftLeft_eq]
  omega

theorem mid_lt {cursor right : Nat} (h : cursor < right) :
    cursor ≤ (cursor + right) >>> 1 ∧ (cursor + right) >>> 1 < right := by
  rw [Nat.shiftRight_eq_div_pow]
  omega

/-- Halves the bracket `[cursor, right)` until its first element is not below `id`. -/
def bisect (xs : List α) (id : α) (cursor right : Nat) (inside : right ≤ xs.length) : Nat :=
  if h : cursor < right then
    have mid := mid_lt h
    if xs[cursor] < id then
      if id ≤ xs[(cursor + right) >>> 1] then
        bisect xs id cursor ((cursor + right) >>> 1) (by omega)
      else bisect xs id ((cursor + right) >>> 1 + 1) right inside
    else cursor
  else cursor
termination_by right - cursor

/-- `r` is the first index at or after `c` whose element is not below `id`. -/
structure FirstFrom (xs : List α) (id : α) (c r : Nat) : Prop where
  ge : c ≤ r
  le : r ≤ xs.length
  below : ∀ i (h : i < xs.length), c ≤ i → i < r → xs[i] < id
  stop : ∀ h : r < xs.length, id ≤ xs[r]

theorem FirstFrom.unique {xs : List α} {id : α} {c r r' : Nat} (first : FirstFrom xs id c r)
    (first' : FirstFrom xs id c r') : r = r' := by
  -- the earlier of two first indices would lie below the later one, and stop there as well
  have later : ∀ {a b : Nat}, FirstFrom xs id c a → FirstFrom xs id c b → ¬ a < b := by
    intro a b ha hb lt
    have inside : a < xs.length := Nat.lt_of_lt_of_le lt hb.le
    exact absurd (hb.below a inside ha.ge lt) (not_lt.mpr (ha.stop inside))
  have := later first first'
  have := later first' first
  omega

theorem FirstFrom.mem_drop {xs : List α} {id x : α} {c r : Nat} (sorted : xs.Pairwise (· ≤ ·))
    (first : FirstFrom xs id c r) : x ∈ xs.drop r ↔ x ∈ xs.drop c ∧ id ≤ x := by
  rw [List.mem_drop_iff_getElem, List.mem_drop_iff_getElem]
  constructor
  · rintro ⟨i, h, rfl⟩
    have le := first.ge
    refine ⟨⟨r - c + i, by omega, by congr 1; omega⟩, ?_⟩
    refine le_trans (first.stop (by omega)) ?_
    rcases Nat.eq_zero_or_pos i with rfl | pos
    · simp
    · exact List.pairwise_iff_getElem.mp sorted _ _ _ _ (by omega)
  · rintro ⟨⟨i, h, rfl⟩, ge⟩
    have after : r ≤ c + i := by
      by_contra early
      exact absurd (first.below (c + i) (by omega) (by omega) (by omega)) (not_lt.mpr ge)
    exact ⟨c + i - r, by omega, by congr 1; omega⟩

theorem gallop_bounds {xs : List α} {id : α} {oc bound cursor : Nat} (pos : 0 < bound)
    (small : ∀ h : cursor < xs.length, xs[cursor] < id) (inside : cursor < xs.length) (lt : cursor < oc + bound) :
    let (c, r) := gallop xs id oc bound cursor pos
    cursor ≤ c ∧ c < r ∧ (∃ h : c < xs.length, xs[c] < id) ∧ ∀ h : r < xs.length, id ≤ xs[r] := by
  induction bound, cursor, pos using gallop.induct xs id oc with
  | case1 bound cursor pos h less ih =>
    rw [gallop, dif_pos h, if_pos less]
    have next := ih (fun _ => less) h (by rw [Nat.shiftLeft_eq]; omega)
    exact ⟨by omega, next.2⟩
  | case2 bound cursor pos h notLess =>
    rw [gallop, dif_pos h, if_neg notLess]
    exact ⟨Nat.le_refl _, lt, ⟨inside, small inside⟩, fun _ => not_lt.mp notLess⟩
  | case3 bound cursor pos h =>
    rw [gallop, dif_neg h]
    exact ⟨Nat.le_refl _, lt, ⟨inside, small inside⟩, fun h' => absurd h' h⟩

/-- Even in an unsorted list a step that starts below `id` moves forward and stays inside. -/
theorem bisect_bounds (xs : List α) (id : α) (cursor right : Nat) (inside : right ≤ xs.length) :
    cursor ≤ bisect xs id cursor right inside ∧ bisect xs id cursor right inside ≤ max cursor right := by
  induction cursor, right, inside using bisect.induct xs id with
  | case1 cursor right inside h mid less hit ih =>
    rw [bisect, dif_pos h, if_pos less, if_pos hit]
    omega
  | case2 cursor right inside h mid less miss ih =>
    rw [bisect, dif_pos h, if_pos less, if_neg miss]
    omega
  | case3 cursor right inside h mid notLess =>
    rw [bisect, dif_pos h, if_neg notLess]
    omega
  | case4 cursor right inside h =>
    rw [bisect, dif_neg h]
    omega

theorem bisect_progress {xs : List α} {id : α} {cursor right : Nat} (inside : right ≤ xs.length)
    (h : cursor < right) (less : xs[cursor] < id) : cursor < bisect xs id cursor right inside := by
  induction cursor, right, inside using bisect.induct xs id with
  | case1 cursor right inside h mid less' hit ih =>
    rw [bisect, dif_pos h, if_pos less', if_pos hit]
    -- the midpoint cannot be the cursor itself, whose element is below `id`
    refine ih (Nat.lt_of_le_of_ne mid.1 ?_) less'
    intro same
    exact absurd hit (not_le.mpr (by simpa [← same] using less'))
  | case2 cursor right inside h mid less' miss ih =>
    rw [bisect, dif_pos h, if_pos less', if_neg miss]
    have := (bisect_bounds xs id ((cursor + right) >>> 1 + 1) right inside).1
    omega
  | case3 cursor right inside h mid notLess => exact absurd less notLess
  | case4 cursor right inside h' => exact absurd h h'

theorem bisect_firstFrom {xs : List α} {id : α} {c cursor right : Nat} {inside : right ≤ xs.length}
    (sorted : xs.Pairwise (· ≤ ·)) (from_ : c ≤ cursor) (le : cursor ≤ right)
    (below : ∀ i (h : i < xs.length), c ≤ i → i < cursor → xs[i] < id)
    (stop : ∀ h : right < xs.length, id ≤ xs[right]) :
    FirstFrom xs id c (bisect xs id cursor right inside) := by
  induction cursor, right, inside using bisect.induct xs id with
  | case1 cursor right inside h mid less hit ih =>
    rw [bisect, dif_pos h, if_pos less, if_pos hit]
    exact ih from_ mid.1 below (fun _ => hit)
  | case2 cursor right inside h mid less miss ih =>
    rw [bisect, dif_pos h, if_pos less, if_neg miss]
    refine ih (by omega) (by omega) ?_ stop
    intro i hi _ lt
    rcases Nat.lt_or_eq_of_le (Nat.le_of_lt_succ lt) with early | same
    · exact lt_of_le_of_lt (List.pairwise_iff_getElem.mp sorted i _ hi (by omega) early) (not_le.mp miss)
    · simpa [same] using miss
  | case3 cursor right inside h mid notLess =>
    rw [bisect, dif_pos h, if_neg notLess]
    exact ⟨from_, by omega, below, fun _ => not_lt.mp notLess⟩
  | case4 cursor right inside h =>
    rw [bisect, dif_neg h]
    have same : cursor = right := by omega
    subst same
    exact ⟨from_, inside, below, stop⟩

end Gallop

end SortedSearch
