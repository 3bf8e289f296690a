import BeIndexer.Lib.Search

/-!
# Tilings of a linear order by half-open cells

A list of cells tiles `[a, b)` when each cell starts where the previous one ends. Every point of
a tiled range lies in exactly one cell, and the binary search over the right ends finds it.
-/

namespace Tiling

variable {κ α : Type*} [LinearOrder α] (left right : κ → α)

/-- `cells` are nonempty half-open intervals that cover `[a, b)` without gap or overlap. -/
def Tiles : α → List κ → α → Prop
  | a, [], b => a = b
  | a, c :: cs, b => left c = a ∧ a < right c ∧ Tiles (right c) cs b

def Contains (v : α) (c : κ) : Prop := left c ≤ v ∧ v < right c

variable {left right} {a b m v : α} {cs ds : List κ} {c d : κ}

theorem tiles_append : Tiles left right a (cs ++ ds) b ↔
    ∃ m, Tiles left right a cs m ∧ Tiles left right m ds b := by
  induction cs generalizing a with
  | nil => simp [Tiles]
  | cons c cs ih =>
    simp only [List.cons_append, Tiles, ih]
    constructor
    · rintro ⟨start, pos, m, first, second⟩
      exact ⟨m, ⟨start, pos, first⟩, second⟩
    · rintro ⟨m, ⟨start, pos, first⟩, second⟩
      exact ⟨start, pos, m, first, second⟩

theorem Tiles.le (tiles : Tiles left right a cs b) : a ≤ b := by
  induction cs generalizing a with
  | nil => exact le_of_eq tiles
  | cons c cs ih => exact le_trans (le_of_lt tiles.2.1) (ih tiles.2.2)

theorem Tiles.bounds (tiles : Tiles left right a cs b) (member : c ∈ cs) :
    a ≤ left c ∧ left c < right c ∧ right c ≤ b := by
  induction cs generalizing a with
  | nil => simp at member
  | cons d cs ih =>
    obtain ⟨start, pos, rest⟩ := tiles
    rcases List.mem_cons.mp member with rfl | later
    · exact ⟨le_of_eq start.symm, by rwa [start], rest.le⟩
    · obtain ⟨lo, ord, hi⟩ := ih rest later
      exact ⟨le_trans (le_of_lt pos) lo, ord, hi⟩

theorem Tiles.cover (tiles : Tiles left right a cs b) (lo : a ≤ v) (hi : v < b) :
    ∃ c ∈ cs, Contains left right v c := by
  induction cs generalizing a with
  | nil => exact absurd (lt_of_le_of_lt lo hi) (by simp [show a = b from tiles])
  | cons d cs ih =>
    obtain ⟨start, _, rest⟩ := tiles
    rcases lt_or_ge v (right d) with inside | beyond
    · exact ⟨d, List.mem_cons_self, by rwa [start], inside⟩
    · obtain ⟨c, hc, inside⟩ := ih rest beyond
      exact ⟨c, List.mem_cons_of_mem _ hc, inside⟩

theorem Tiles.pairwise (tiles : Tiles left right a cs b) : cs.Pairwise (fun c d => right c ≤ left d) := by
  induction cs generalizing a with
  | nil => exact List.Pairwise.nil
  | cons c cs ih =>
    obtain ⟨_, _, rest⟩ := tiles
    exact List.Pairwise.cons (fun d hd => (rest.bounds hd).1) (ih rest)

theorem Tiles.unique (tiles : Tiles left right a cs b) (hc : c ∈ cs) (hd : d ∈ cs)
    (inC : Contains left right v c) (inD : Contains left right v d) : c = d := by
  induction cs generalizing a with
  | nil => simp at hc
  | cons e cs ih =>
    obtain ⟨start, pos, rest⟩ := tiles
    -- a later cell starts at or after the end of the first one
    have disjoint : ∀ f ∈ cs, Contains left right v f → ¬ Contains left right v e :=
      fun f hf inF inE => absurd (le_trans (rest.bounds hf).1 inF.1) (not_le.mpr inE.2)
    rcases List.mem_cons.mp hc with firstC | laterC
    · rcases List.mem_cons.mp hd with firstD | laterD
      · exact firstC.trans firstD.symm
      · exact absurd (firstC ▸ inC) (disjoint d laterD inD)
    · rcases List.mem_cons.mp hd with firstD | laterD
      · exact absurd (firstD ▸ inD) (disjoint c laterC inC)
      · exact ih rest laterC laterD

theorem Tiles.search_contains (tiles : Tiles left right a cs b) (lo : a ≤ v) (hi : v < b) {p : Nat → Bool}
    (above : ∀ i (h : i < cs.length), p i = true ↔ v < right cs[i]) (past : ∀ i, cs.length ≤ i → p i = true) :
    ∃ h : SortedSearch.search cs.length p < cs.length,
      Contains left right v cs[SortedSearch.search cs.length p] := by
  have sorted := List.pairwise_iff_getElem.mp tiles.pairwise
  have mono : ∀ i j, i ≤ j → p i = true → p j = true := by
    intro i j le hit
    rcases Nat.lt_or_ge j cs.length with inside | outside
    · rcases Nat.lt_or_eq_of_le le with lt | rfl
      · have first := (above i (by omega)).mp hit
        have ord := sorted i j (by omega) inside lt
        have pos := (tiles.bounds (List.getElem_mem inside)).2.1
        exact (above j inside).mpr (lt_trans (lt_of_lt_of_le first ord) pos)
      · exact hit
    · exact past j outside
  obtain ⟨_, before, stop⟩ := SortedSearch.search_isFirst (n := cs.length) mono
  obtain ⟨c, hc, inside⟩ := tiles.cover lo hi
  obtain ⟨i, hi', rfl⟩ := List.getElem_of_mem hc
  have hit : p i = true := (above i hi').mpr inside.2
  have le : SortedSearch.search cs.length p ≤ i := by
    by_contra gt
    rw [before i (by omega)] at hit
    contradiction
  have lt : SortedSearch.search cs.length p < cs.length := by omega
  refine ⟨lt, ?_⟩
  rcases Nat.lt_or_eq_of_le le with early | same
  · -- an earlier cell ends at or before the one that holds the point
    have ord := sorted _ i lt hi' early
    exact absurd (le_trans ord inside.1) (not_le.mpr ((above _ lt).mp (stop lt)))
  · simpa only [same] using inside

end Tiling
