import BeIndexer.IdTypes
import BeIndexer.Lib.Tiling
import Mathlib.Data.List.Induction

/-!
# The interval index of the range container (`term_ext_range_holder.go`)

`RangeIdx` keeps a list of half-open cells that tile `[valueMin, valueMax)`; indexing a range splits
the cells at its ends and appends the entry id to the cells inside it. The structure carries the
tiling, so a cell list with a gap or an overlap cannot be built.
-/

namespace BeIndexer

open Tiling

/-- The ranges the builders hand to the index: ordered, or the one that `NewRange` makes of
`MaxInt64, MaxInt64`, where `r++` wraps around. -/
def ProperRange (left right : Int64) : Prop :=
  left ≤ right ∨ (left = Int64.maxValue ∧ right = Int64.minValue)

structure Range where
  left : Int64
  right : Int64
  proper : ProperRange left right
  deriving DecidableEq

theorem toInt_succ {x y : Int64} (lt : x < y) : (x + 1).toInt = x.toInt + 1 := by
  have bound := Int64.lt_iff_toInt_lt.mp lt
  have lo := x.le_toInt
  have hi := y.toInt_lt
  rw [Int64.toInt_add]
  exact Int.bmod_eq_of_le (by simp; omega) (by simp; omega)

theorem lt_maxValue {x : Int64} (ne : x ≠ Int64.maxValue) : x < Int64.maxValue := by
  refine lt_of_le_of_ne ?_ ne
  rw [Int64.le_iff_toInt_le]
  have hi := x.toInt_lt
  change x.toInt ≤ 9223372036854775807
  omega

/-- `r++` in `NewRange` and in `IndexingRange`. -/
def bumpEqual (l r : Int64) : Int64 := if l = r then r + 1 else r

theorem bumpEqual_proper {l r : Int64} (proper : ProperRange l r) :
    l < bumpEqual l r ∨ (l = Int64.maxValue ∧ bumpEqual l r = Int64.minValue) := by
  unfold bumpEqual
  rcases proper with le | wrapped
  · split
    · rename_i same
      subst same
      by_cases top : l = Int64.maxValue
      · exact Or.inr ⟨top, by rw [top]; decide⟩
      · left
        rw [Int64.lt_iff_toInt_lt, toInt_succ (lt_maxValue top)]
        omega
    · rename_i ne
      exact Or.inl (lt_of_le_of_ne le ne)
  · rw [if_neg (by rw [wrapped.1, wrapped.2]; decide)]
    exact Or.inr wrapped

def newRange (l r : Int64) (le : l ≤ r) : Range where
  left := l
  right := bumpEqual l r
  proper := (bumpEqual_proper (Or.inl le)).imp_left le_of_lt

/-! ### Cells -/

structure RangeEntries where
  left : Int64
  right : Int64
  entries : Entries
  deriving DecidableEq

namespace RangeEntries

def containValue (pl : RangeEntries) (v : Int64) : Bool := decide (v ≥ pl.left) && decide (v < pl.right)

def containRange (pl : RangeEntries) (left right : Int64) : Bool :=
  decide (left ≥ pl.left) && decide (right ≤ pl.right) && decide (left < pl.right)

/-- The loop of `Explode` over the cut points after `leftValue`. -/
def explodeFrom (pl : RangeEntries) : Int64 → List Int64 → List (Int64 × Int64)
  | _, [] => []
  | leftValue, v :: vs =>
    if leftValue < pl.right then
      (leftValue, bumpEqual leftValue v) :: explodeFrom pl (bumpEqual leftValue v) vs
    else []

/-- `Explode`: the pieces into which `[left, right)` cuts the cell. -/
def explode (pl : RangeEntries) (left right : Int64) : Go (List (Int64 × Int64)) := do
  panicIf (!pl.containRange left right) "bad sub range[%d,%d)" [.int left.toInt, .int right.toInt]
  return pl.explodeFrom pl.left
    ((if left > pl.left then [left] else []) ++ [right] ++ (if right < pl.right then [pl.right] else []))

/-- A piece of the cell with a copy of its entries (`Clone`), and whether the indexed range contains it. -/
def piece (pl : RangeEntries) (left right : Int64) (cut : Int64 × Int64) : RangeEntries × Bool :=
  (⟨cut.1, cut.2, pl.entries⟩, decide (cut.1 ≥ left) && decide (cut.2 ≤ right) && decide (cut.1 < right))

def appendEntry (eid : EntryID) (pl : RangeEntries) : RangeEntries := { pl with entries := pl.entries ++ [eid] }

def sorted (pl : RangeEntries) : RangeEntries := { pl with entries := sortEntries pl.entries }

end RangeEntries

/-- The loop of `IndexingRange` over the cells, `left` and `right` being the whole range and `rg` the
part that is still to be placed. Each cell of the result says whether it gets the entry id. -/
def indexingItems (left right : Int64) : Int64 × Int64 → List RangeEntries → Go (List (RangeEntries × Bool))
  | _, [] => .ok []
  | rg, pl :: items =>
    if pl.left ≥ rg.2 then .ok ((pl :: items).map fun pl => (pl, false))
    else if rg.1 ≥ pl.right then do
      let later ← indexingItems left right rg items
      return (pl, false) :: later
    else if pl.containValue rg.1 then
      if rg.2 > pl.right then do
        let rgs ← pl.explode rg.1 pl.right
        let later ← indexingItems left right (pl.right, bumpEqual pl.right right) items
        return rgs.map (pl.piece left (bumpEqual left right)) ++ later
      else do
        let rgs ← pl.explode rg.1 rg.2
        let later ← indexingItems left right rg items
        return rgs.map (pl.piece left (bumpEqual left right)) ++ later
    else do
      let later ← indexingItems left right rg items
      return (pl, false) :: later

/-- The cells after the entry id was appended to those marked. -/
def appendMarked (eid : EntryID) (marked : List (RangeEntries × Bool)) : List RangeEntries :=
  marked.map fun m => if m.2 then m.1.appendEntry eid else m.1

abbrev RangeTiles (min : Int64) (items : List RangeEntries) (max : Int64) : Prop :=
  Tiles RangeEntries.left RangeEntries.right min items max

/-! ### Splitting keeps the tiling -/

section Split

variable {min max left right : Int64} {pl : RangeEntries} {items : List RangeEntries}

theorem containValue_iff {v : Int64} :
    pl.containValue v = true ↔ Contains RangeEntries.left RangeEntries.right v pl := by
  simp [RangeEntries.containValue, Contains]

theorem bumpEqual_ne {l r : Int64} (ne : l ≠ r) : bumpEqual l r = r := if_neg ne

/-- The pieces of a cell cut at a proper part of it tile the cell, and those inside the part are the
ones from `left` to `right`. -/
theorem explode_ok (lo : pl.left ≤ left) (mid : left < right) (hi : right ≤ pl.right) :
    ∃ cuts, pl.explode left right = .ok cuts ∧ Tiles Prod.fst Prod.snd pl.left cuts pl.right ∧
      ∀ c ∈ cuts, (c.2 ≤ left ∨ (c.1 = left ∧ c.2 = right) ∨ right ≤ c.1) := by
  have inside : pl.containRange left right = true := by
    simp [RangeEntries.containRange, lo, hi, lt_of_lt_of_le mid hi]
  have tail : left < pl.right := lt_of_lt_of_le mid hi
  have wide : pl.left < pl.right := lt_of_le_of_lt lo tail
  have ne : left ≠ right := ne_of_lt mid
  refine ⟨_, by rw [RangeEntries.explode, inside]; rfl, ?_⟩
  rcases lt_or_eq_of_le lo with before | same <;> rcases lt_or_eq_of_le hi with after | done
  · simp [before, after, RangeEntries.explodeFrom, wide, bumpEqual_ne (ne_of_lt before), bumpEqual_ne ne,
      bumpEqual_ne (ne_of_lt after), tail, Tiles, mid]
  · simp [before, done, RangeEntries.explodeFrom, wide, bumpEqual_ne (ne_of_lt before), bumpEqual_ne (done ▸ ne),
      Tiles, tail]
  · simp [same, after, RangeEntries.explodeFrom, tail, bumpEqual_ne ne, bumpEqual_ne (ne_of_lt after), Tiles, mid]
  · simp [same, done, RangeEntries.explodeFrom, tail, bumpEqual_ne (done ▸ ne), Tiles]

/-- A piece gets the entry id exactly when its points are in the range. -/
theorem piece_flag {cut : Int64 × Int64} {v : Int64} (inside : cut.1 ≤ v ∧ v < cut.2)
    (sides : cut.2 ≤ left ∨ (left ≤ cut.1 ∧ cut.2 ≤ right) ∨ right ≤ cut.1) :
    (pl.piece left right cut).2 = true ↔ left ≤ v ∧ v < right := by
  simp only [RangeEntries.piece, Bool.and_eq_true, decide_eq_true_eq, ge_iff_le]
  constructor
  · rintro ⟨⟨lo, hi⟩, _⟩
    exact ⟨le_trans lo inside.1, lt_of_lt_of_le inside.2 hi⟩
  · rintro ⟨lo, hi⟩
    rcases sides with before | between | after
    · exact absurd (lt_of_lt_of_le inside.2 before) (not_lt.mpr lo)
    · exact ⟨between, lt_of_le_of_lt inside.1 hi⟩
    · exact absurd (le_trans after inside.1) (not_le.mpr hi)

theorem tiles_pieces {cuts : List (Int64 × Int64)} {a b : Int64} (tiles : Tiles Prod.fst Prod.snd a cuts b) :
    RangeTiles a ((cuts.map (pl.piece left right)).map Prod.fst) b := by
  induction cuts generalizing a with
  | nil => exact tiles
  | cons c cuts ih => exact ⟨tiles.1, tiles.2.1, ih tiles.2.2⟩

theorem indexingItems_below {a b : Int64} {rg : Int64 × Int64} (tiles : RangeTiles a items b) (below : rg.1 < a) :
    indexingItems left right rg items = .ok (items.map fun pl => (pl, false)) := by
  induction items generalizing a with
  | nil => rfl
  | cons pl items ih =>
    obtain ⟨start, pos, rest⟩ := tiles
    rw [indexingItems]
    split
    · rfl
    · have after : ¬ rg.1 ≥ pl.right := not_le.mpr (lt_trans below pos)
      have outside : ¬ pl.containValue rg.1 = true := by
        rw [containValue_iff]
        exact fun h => absurd h.1 (not_le.mpr (start ▸ below))
      rw [if_neg after, if_neg outside, ih rest (lt_trans below pos)]
      rfl

/-- What a marked cell owes to the cells before: its own points were in a cell with the same entries,
and it is marked exactly when they are in the indexed range. -/
def MarkedFrom (left right : Int64) (items : List RangeEntries) (m : RangeEntries × Bool) : Prop :=
  ∀ v, Contains RangeEntries.left RangeEntries.right v m.1 →
    (m.2 = true ↔ left ≤ v ∧ v < right) ∧
      ∃ pl ∈ items, Contains RangeEntries.left RangeEntries.right v pl ∧ pl.entries = m.1.entries

theorem MarkedFrom.cons {m : RangeEntries × Bool} (marked : MarkedFrom left right items m) :
    MarkedFrom left right (pl :: items) m := by
  intro v inside
  obtain ⟨flag, old, member, contains, same⟩ := marked v inside
  exact ⟨flag, old, List.mem_cons_of_mem _ member, contains, same⟩

/-- The pieces of one cell, cut at the part `[x, mid)` of the indexed range that falls into it. -/
theorem explode_marked {x mid : Int64} {cuts : List (Int64 × Int64)}
    (start : (x = left ∧ pl.left ≤ left) ∨ (x = pl.left ∧ left ≤ pl.left))
    (stop : (mid = right ∧ right ≤ pl.right) ∨ (mid = pl.right ∧ pl.right < right))
    (tiles : Tiles Prod.fst Prod.snd pl.left cuts pl.right)
    (sides : ∀ c ∈ cuts, (c.2 ≤ x ∨ (c.1 = x ∧ c.2 = mid) ∨ mid ≤ c.1)) :
    ∀ m ∈ cuts.map (pl.piece left right), MarkedFrom left right (pl :: items) m := by
  intro m hm v inside
  obtain ⟨cut, hc, rfl⟩ := List.mem_map.mp hm
  obtain ⟨lo, pos, hi⟩ := tiles.bounds hc
  refine ⟨piece_flag inside ?_, pl, List.mem_cons_self, ⟨le_trans lo inside.1, lt_of_lt_of_le inside.2 hi⟩, rfl⟩
  rcases sides cut hc with before | ⟨first, last⟩ | after
  · rcases start with ⟨rfl, _⟩ | ⟨rfl, _⟩
    · exact Or.inl before
    · exact absurd (lt_of_lt_of_le pos before) (not_lt.mpr lo)
  · refine Or.inr (Or.inl ⟨?_, ?_⟩)
    · rw [first]
      rcases start with ⟨rfl, _⟩ | ⟨rfl, le⟩
      · exact le_rfl
      · exact le
    · rw [last]
      rcases stop with ⟨rfl, _⟩ | ⟨rfl, lt⟩
      · exact le_rfl
      · exact le_of_lt lt
  · rcases stop with ⟨rfl, _⟩ | ⟨rfl, _⟩
    · exact Or.inr (Or.inr after)
    · exact absurd (lt_of_le_of_lt after pos) (not_lt.mpr hi)

theorem unmarked_from {a b : Int64} (tiles : RangeTiles a items b) (beyond : right ≤ a) :
    ∀ m ∈ items.map (fun pl => (pl, false)), MarkedFrom left right items m := by
  intro m hm v inside
  obtain ⟨pl, hpl, rfl⟩ := List.mem_map.mp hm
  refine ⟨?_, pl, hpl, inside, rfl⟩
  have ge := le_trans beyond (le_trans (tiles.bounds hpl).1 inside.1)
  simp [not_lt.mpr ge]

/-- The loop of `IndexingRange` places a range that starts inside the cells: it never panics, keeps
the tiling and marks exactly the cells inside the range. -/
theorem indexingItems_place {a b x : Int64} (tiles : RangeTiles a items b) (ordered : left < right)
    (start : (x = left ∧ a ≤ left) ∨ (x = a ∧ left ≤ a)) (pos : x < right) :
    ∃ marked, indexingItems left right (x, right) items = .ok marked ∧
      RangeTiles a (marked.map Prod.fst) b ∧ ∀ m ∈ marked, MarkedFrom left right items m := by
  have bump : bumpEqual left right = right := bumpEqual_ne (ne_of_lt ordered)
  induction items generalizing a x with
  | nil => exact ⟨[], rfl, tiles, by simp⟩
  | cons pl items ih =>
    obtain ⟨atStart, wide, rest⟩ := tiles
    subst atStart
    have reached : pl.left ≤ x := by
      rcases start with ⟨rfl, le⟩ | ⟨rfl, _⟩
      · exact le
      · exact le_rfl
    rw [indexingItems, if_neg (not_le.mpr (lt_of_le_of_lt reached pos)), bump]
    split
    · -- the range starts behind this cell
      rename_i passed
      have leftStart : x = left := by
        rcases start with ⟨same, _⟩ | ⟨same, _⟩
        · exact same
        · exact absurd passed (not_le.mpr (same ▸ wide))
      obtain ⟨marked, run, tiling, marks⟩ := ih rest (Or.inl ⟨leftStart, leftStart ▸ passed⟩) pos
      refine ⟨(pl, false) :: marked, by rw [run]; rfl, ⟨rfl, wide, tiling⟩, ?_⟩
      intro m hm
      rcases List.mem_cons.mp hm with rfl | later
      · intro v inside
        refine ⟨?_, pl, List.mem_cons_self, inside, rfl⟩
        have lt := lt_of_lt_of_le inside.2 (leftStart ▸ passed)
        simp [not_le.mpr lt]
      · exact (marks m later).cons
    · rename_i before
      rw [if_pos (containValue_iff.mpr ⟨reached, not_le.mp before⟩)]
      split
      · -- the range goes on behind this cell
        rename_i beyond
        obtain ⟨cuts, exploded, cutTiles, sides⟩ := explode_ok reached (not_le.mp before) (le_refl pl.right)
        rw [bumpEqual_ne (ne_of_lt beyond)]
        have leftLe : left ≤ pl.right := by
          rcases start with ⟨rfl, _⟩ | ⟨rfl, le⟩
          · exact le_of_lt (not_le.mp before)
          · exact le_trans le (le_of_lt wide)
        obtain ⟨marked, run, tiling, marks⟩ := ih rest (Or.inr ⟨rfl, leftLe⟩) beyond
        refine ⟨cuts.map (pl.piece left right) ++ marked, by rw [exploded, run]; rfl, ?_, ?_⟩
        · rw [List.map_append]
          exact tiles_append.mpr ⟨pl.right, tiles_pieces cutTiles, tiling⟩
        · intro m hm
          rcases List.mem_append.mp hm with here | later
          · exact explode_marked start (Or.inr ⟨rfl, beyond⟩) cutTiles sides m here
          · exact (marks m later).cons
      · rename_i ends
        obtain ⟨cuts, exploded, cutTiles, sides⟩ := explode_ok reached pos (not_lt.mp ends)
        have done : indexingItems left right (x, right) items = .ok (items.map fun pl => (pl, false)) :=
          indexingItems_below rest (not_le.mp before)
        refine ⟨cuts.map (pl.piece left right) ++ items.map (fun pl => (pl, false)),
          by rw [exploded, done]; rfl, ?_, ?_⟩
        · rw [List.map_append]
          refine tiles_append.mpr ⟨pl.right, tiles_pieces cutTiles, ?_⟩
          simpa [Function.comp_def] using rest
        · intro m hm
          rcases List.mem_append.mp hm with here | later
          · exact explode_marked start (Or.inl ⟨rfl, not_lt.mp ends⟩) cutTiles sides m here
          · exact (unmarked_from rest (not_lt.mp ends) m later).cons

end Split

theorem indexingItems_ok {min max left right : Int64} {items : List RangeEntries} (tiles : RangeTiles min items max)
    (proper : ProperRange left right) :
    ∃ marked, indexingItems left (bumpEqual left right) (left, bumpEqual left right) items = .ok marked ∧
      RangeTiles min (marked.map Prod.fst) max ∧
      ∀ m ∈ marked, ∀ v, Contains RangeEntries.left RangeEntries.right v m.1 →
        (m.2 = true ↔ min ≤ left ∧ left ≤ v ∧ v < bumpEqual left right) ∧
          ∃ pl ∈ items, Contains RangeEntries.left RangeEntries.right v pl ∧ pl.entries = m.1.entries := by
  have untouched : ∀ {rg : Int64 × Int64} {l r : Int64},
      indexingItems l r rg items = .ok (items.map fun pl => (pl, false)) →
      (∀ v, min ≤ v → ¬ (min ≤ left ∧ left ≤ v ∧ v < bumpEqual left right)) →
      ∃ marked, indexingItems l r rg items = .ok marked ∧
        RangeTiles min (marked.map Prod.fst) max ∧
        ∀ m ∈ marked, ∀ v, Contains RangeEntries.left RangeEntries.right v m.1 →
          (m.2 = true ↔ min ≤ left ∧ left ≤ v ∧ v < bumpEqual left right) ∧
            ∃ pl ∈ items, Contains RangeEntries.left RangeEntries.right v pl ∧ pl.entries = m.1.entries := by
    intro rg l r run outside
    refine ⟨_, run, by simpa [Function.comp_def] using tiles, ?_⟩
    intro m hm v inside
    obtain ⟨pl, hpl, rfl⟩ := List.mem_map.mp hm
    refine ⟨?_, pl, hpl, inside, rfl⟩
    simpa using outside v (le_trans (tiles.bounds hpl).1 inside.1)
  rcases bumpEqual_proper proper with ordered | ⟨top, bottom⟩
  · rcases lt_or_ge left min with below | reached
    · exact untouched (indexingItems_below tiles below) (fun v _ h => absurd h.1 (not_le.mpr below))
    · obtain ⟨marked, run, tiling, marks⟩ := indexingItems_place tiles ordered (Or.inl ⟨rfl, reached⟩) ordered
      refine ⟨marked, run, tiling, fun m hm v inside => ?_⟩
      obtain ⟨flag, old⟩ := marks m hm v inside
      exact ⟨by rw [flag]; simp [reached], old⟩
  · -- no cell starts below `MinInt64`
    refine untouched ?_ fun v _ h => absurd h.2.2 (not_lt.mpr (bottom ▸ Int64.minValue_le _))
    cases items with
    | nil => rfl
    | cons pl items => rw [indexingItems, if_pos (bottom ▸ Int64.minValue_le _)]

theorem appendMarked_tiles {a b : Int64} (eid : EntryID) {marked : List (RangeEntries × Bool)}
    (tiles : RangeTiles a (marked.map Prod.fst) b) : RangeTiles a (appendMarked eid marked) b := by
  induction marked generalizing a with
  | nil => exact tiles
  | cons m marked ih =>
    obtain ⟨start, pos, rest⟩ := tiles
    have ends : (if m.2 then m.1.appendEntry eid else m.1).left = m.1.left ∧
        (if m.2 then m.1.appendEntry eid else m.1).right = m.1.right := by split <;> exact ⟨rfl, rfl⟩
    exact ⟨ends.1.trans start, ends.2.symm ▸ pos, ends.2.symm ▸ ih rest⟩

theorem sorted_tiles {a b : Int64} {items : List RangeEntries} (tiles : RangeTiles a items b) :
    RangeTiles a (items.map RangeEntries.sorted) b := by
  induction items generalizing a with
  | nil => exact tiles
  | cons pl items ih => exact ⟨tiles.1, tiles.2.1, ih tiles.2.2⟩

/-! ### The index -/

structure RangeIdx where
  compiled : Bool
  valueMin : Int64
  valueMax : Int64
  items : List RangeEntries
  rgEntries : List RangeEntries
  items_tile : if compiled then items = [] else RangeTiles valueMin items valueMax
  rg_tile : rgEntries = [] ∨ RangeTiles valueMin rgEntries valueMax

/-- One cell without entries. -/
def freshRangeIdx (min max : Int64) (lt : min < max) : RangeIdx where
  compiled := false
  valueMin := min
  valueMax := max
  items := [⟨min, max, []⟩]
  rgEntries := []
  items_tile := ⟨rfl, lt, rfl⟩
  rg_tile := Or.inl rfl

def newRangeIdx (min max : Int64) : Go RangeIdx :=
  if h : min ≥ max then panicf "bad range:[%d,%d)" [.int min.toInt, .int max.toInt]
  else .ok (freshRangeIdx min max (not_le.mp h))

namespace RangeIdx

theorem marked_tile {rix : RangeIdx} {left right : Int64} (eid : EntryID) {marked : List (RangeEntries × Bool)}
    (proper : ProperRange left right)
    (run : indexingItems left (bumpEqual left right) (left, bumpEqual left right) rix.items = .ok marked) :
    if rix.compiled then appendMarked eid marked = []
    else RangeTiles rix.valueMin (appendMarked eid marked) rix.valueMax := by
  have tile := rix.items_tile
  by_cases done : rix.compiled = true
  · rw [if_pos done] at tile ⊢
    rw [tile, indexingItems] at run
    simp [← Except.ok.inj run, appendMarked]
  · rw [if_neg done] at tile ⊢
    obtain ⟨marked', run', tiling, _⟩ := indexingItems_ok tile proper
    obtain rfl : marked = marked' := Except.ok.inj (run.symm.trans run')
    exact appendMarked_tiles eid tiling

def indexingRange (rix : RangeIdx) (rg : Range) (eid : EntryID) : Go RangeIdx :=
  match run : indexingItems rg.left (bumpEqual rg.left rg.right) (rg.left, bumpEqual rg.left rg.right) rix.items with
  | .error fault => .error fault
  | .ok marked => .ok { rix with
      items := appendMarked eid marked
      items_tile := marked_tile eid rg.proper run }

/-- `Compile` moves the cells, their entries sorted, to `rgEntries` and leaves no items behind. -/
def compile (rix : RangeIdx) : RangeIdx where
  compiled := true
  valueMin := rix.valueMin
  valueMax := rix.valueMax
  items := []
  rgEntries := rix.items.map RangeEntries.sorted
  items_tile := rfl
  rg_tile := by
    have tile := rix.items_tile
    split at tile
    · exact Or.inl (by rw [tile]; rfl)
    · exact Or.inr (sorted_tiles tile)

/-- The position that `sort.Find` returns in `Retrieve`, if it found the value. -/
def retrieve (rix : RangeIdx) (value : Int64) : Option (Fin rix.rgEntries.length) :=
  if value < rix.valueMin ∨ value ≥ rix.valueMax then none
  else
    let index := SortedSearch.search rix.rgEntries.length
      (fun i => (rix.rgEntries[i]?).elim true (fun rg => rg.containValue value || decide (value < rg.right)))
    if h : index < rix.rgEntries.length then
      if rix.rgEntries[index].containValue value then some ⟨index, h⟩ else none
    else none

/-! ### What the index answers -/

/-- The posting list of a value: that of the cell that contains it. -/
def cellEntries (rix : RangeIdx) (v : Int64) : Entries :=
  ((rix.items.find? fun pl => pl.containValue v).map RangeEntries.entries).getD []

/-- The entry ids recorded for a value. -/
def Covers (rix : RangeIdx) (v : Int64) (e : EntryID) : Prop := e ∈ rix.cellEntries v

theorem cell_found {items : List RangeEntries} {v : Int64} {pl : RangeEntries}
    (found : (items.find? fun pl => pl.containValue v) = some pl) :
    pl ∈ items ∧ Contains RangeEntries.left RangeEntries.right v pl :=
  ⟨List.mem_of_find?_eq_some found, containValue_iff.mp
    (List.find?_some (p := fun pl : RangeEntries => pl.containValue v) found)⟩

theorem cellEntries_eq {rix : RangeIdx} {v : Int64} {pl : RangeEntries} (mem : pl ∈ rix.items)
    (inside : Contains RangeEntries.left RangeEntries.right v pl) : rix.cellEntries v = pl.entries := by
  have tile := rix.items_tile
  split at tile
  · simp [tile] at mem
  · unfold cellEntries
    cases found : rix.items.find? fun pl => pl.containValue v with
    | none => exact absurd (containValue_iff.mpr inside) (List.find?_eq_none.mp found pl mem)
    | some pl' =>
      obtain ⟨mem', inside'⟩ := cell_found found
      rw [tile.unique mem mem' inside inside']
      rfl

theorem cellEntries_outside {rix : RangeIdx} {v : Int64} (outside : ¬ (rix.valueMin ≤ v ∧ v < rix.valueMax)) :
    rix.cellEntries v = [] := by
  have tile := rix.items_tile
  unfold cellEntries
  cases found : rix.items.find? fun pl => pl.containValue v with
  | none => rfl
  | some pl =>
    obtain ⟨mem, inside⟩ := cell_found found
    split at tile
    · simp [tile] at mem
    · obtain ⟨lo, _, hi⟩ := tile.bounds mem
      exact absurd ⟨le_trans lo inside.1, lt_of_lt_of_le inside.2 hi⟩ outside

theorem covers_iff {rix : RangeIdx} {v : Int64} {e : EntryID} :
    rix.Covers v e ↔ ∃ pl ∈ rix.items, Contains RangeEntries.left RangeEntries.right v pl ∧ e ∈ pl.entries := by
  constructor
  · intro covers
    unfold Covers cellEntries at covers
    cases found : rix.items.find? fun pl => pl.containValue v with
    | none => simp [found] at covers
    | some pl =>
      obtain ⟨mem, inside⟩ := cell_found found
      rw [found] at covers
      exact ⟨pl, mem, inside, covers⟩
  · rintro ⟨pl, mem, inside, he⟩
    rw [Covers, cellEntries_eq mem inside]
    exact he

theorem indexingRange_ok (rix : RangeIdx) (rg : Range) (eid : EntryID) :
    ∃ rix', rix.indexingRange rg eid = .ok rix' := by
  have tile := rix.items_tile
  unfold indexingRange
  split
  · rename_i fault run
    split at tile
    · rw [tile, indexingItems] at run
      cases run
    · obtain ⟨_, run', _⟩ := indexingItems_ok tile rg.proper
      rw [run'] at run
      cases run
  · exact ⟨_, rfl⟩

theorem indexingRange_frame {rix rix' : RangeIdx} {rg : Range} {eid : EntryID}
    (h : rix.indexingRange rg eid = .ok rix') :
    rix'.compiled = rix.compiled ∧ rix'.valueMin = rix.valueMin ∧ rix'.valueMax = rix.valueMax ∧
      rix'.rgEntries = rix.rgEntries := by
  unfold indexingRange at h
  split at h
  · cases h
  · obtain rfl := Except.ok.inj h
    exact ⟨rfl, rfl, rfl, rfl⟩

theorem indexingRange_compiled {rix : RangeIdx} (rg : Range) (eid : EntryID) (done : rix.compiled = true) :
    rix.indexingRange rg eid = .ok rix := by
  have empty := rix.items_tile
  rw [if_pos done] at empty
  unfold indexingRange
  split
  · rename_i fault run
    rw [empty, indexingItems] at run
    cases run
  · rename_i marked run
    rw [empty, indexingItems] at run
    obtain rfl := Except.ok.inj run
    congr 1
    cases rix
    simp only [appendMarked, List.map_nil] at empty ⊢
    subst empty
    rfl

theorem mem_appendMarked {eid : EntryID} {marked : List (RangeEntries × Bool)} {pl : RangeEntries} :
    pl ∈ appendMarked eid marked ↔ ∃ m ∈ marked, (if m.2 then m.1.appendEntry eid else m.1) = pl := by
  simp [appendMarked]

theorem indexingRange_cell {rix rix' : RangeIdx} {rg : Range} {eid : EntryID} (v : Int64)
    (fresh : rix.compiled = false) (h : rix.indexingRange rg eid = .ok rix') :
    rix'.cellEntries v = rix.cellEntries v ++ if v < rix.valueMax ∧ rix.valueMin ≤ rg.left ∧ rg.left ≤ v ∧
      v < bumpEqual rg.left rg.right then [eid] else [] := by
  have tile := rix.items_tile
  rw [if_neg (by simp [fresh])] at tile
  obtain ⟨marked, run, tiling, marks⟩ := indexingItems_ok tile rg.proper
  have items : rix'.items = appendMarked eid marked := by
    unfold indexingRange at h
    split at h
    · cases h
    · rename_i marked' run'
      obtain rfl := Except.ok.inj h
      obtain rfl : marked = marked' := Except.ok.inj (run.symm.trans run')
      rfl
  obtain ⟨_, min, max, _⟩ := indexingRange_frame h
  by_cases range : rix.valueMin ≤ v ∧ v < rix.valueMax
  · obtain ⟨m₁, hm₁, inside⟩ := tiling.cover range.1 range.2
    obtain ⟨m, hm, rfl⟩ := List.mem_map.mp hm₁
    obtain ⟨flag, pl, hpl, plInside, same⟩ := marks m hm v inside
    have cell : (if m.2 then m.1.appendEntry eid else m.1) ∈ rix'.items := items ▸ mem_appendMarked.mpr ⟨m, hm, rfl⟩
    have contains : Contains RangeEntries.left RangeEntries.right v (if m.2 then m.1.appendEntry eid else m.1) := by
      split <;> exact inside
    rw [cellEntries_eq cell contains, cellEntries_eq hpl plInside, same]
    by_cases isMarked : m.2 = true
    · rw [if_pos isMarked, if_pos ⟨range.2, flag.mp isMarked⟩]
      rfl
    · rw [if_neg isMarked, if_neg fun placed => isMarked (flag.mpr placed.2), List.append_nil]
  · rw [cellEntries_outside range, cellEntries_outside (by rw [min, max]; exact range), if_neg, List.append_nil]
    exact fun placed => range ⟨le_trans placed.2.1 placed.2.2.1, placed.1⟩

theorem indexingRange_covers {rix rix' : RangeIdx} {rg : Range} {eid e : EntryID} {v : Int64}
    (fresh : rix.compiled = false) (h : rix.indexingRange rg eid = .ok rix') :
    rix'.Covers v e ↔ rix.Covers v e ∨ (e = eid ∧ v < rix.valueMax ∧ rix.valueMin ≤ rg.left ∧
      rg.left ≤ v ∧ v < bumpEqual rg.left rg.right) := by
  rw [Covers, indexingRange_cell v fresh h, List.mem_append, Covers]
  split
  · rename_i placed
    simp [placed]
  · rename_i outside
    simp [outside]

theorem mem_retrieve {rix : RangeIdx} {v : Int64} {i : Fin rix.rgEntries.length} :
    i ∈ rix.retrieve v ↔ Contains RangeEntries.left RangeEntries.right v rix.rgEntries[i] := by
  have tiles : RangeTiles rix.valueMin rix.rgEntries rix.valueMax := by
    rcases rix.rg_tile with empty | tiles
    · exact absurd i.isLt (by simp [empty])
    · exact tiles
  set p : Nat → Bool := fun j =>
    (rix.rgEntries[j]?).elim true (fun rg => rg.containValue v || decide (v < rg.right)) with hp
  have above : ∀ j (h : j < rix.rgEntries.length), p j = true ↔ v < rix.rgEntries[j].right := by
    intro j h
    simp only [hp, List.getElem?_eq_getElem h, Option.elim_some, Bool.or_eq_true, decide_eq_true_eq, containValue_iff]
    exact ⟨fun h => h.elim And.right id, Or.inr⟩
  have past : ∀ j, rix.rgEntries.length ≤ j → p j = true := by
    intro j h
    simp only [hp, List.getElem?_eq_none h, Option.elim_none]
  constructor
  · intro found
    simp only [retrieve, Option.mem_def, Fin.getElem_fin] at found ⊢
    split at found
    · cases found
    · split at found
      · split at found
        · rename_i inside
          obtain rfl := Option.some.inj found
          exact containValue_iff.mp inside
        · cases found
      · cases found
  · intro inside
    obtain ⟨lo, _, hi⟩ := tiles.bounds (List.getElem_mem i.isLt)
    have lower := le_trans lo inside.1
    have upper := lt_of_lt_of_le inside.2 hi
    obtain ⟨lt, here⟩ := tiles.search_contains lower upper above past
    have index : SortedSearch.search rix.rgEntries.length p = i := by
      -- of two different cells, one ends before the other starts
      have ordered := List.pairwise_iff_getElem.mp tiles.pairwise
      rcases Nat.lt_trichotomy (SortedSearch.search rix.rgEntries.length p) i with less | same | more
      · exact absurd (le_trans (ordered _ _ lt i.isLt less) inside.1) (not_le.mpr here.2)
      · exact same
      · exact absurd (le_trans (ordered _ _ i.isLt lt more) here.1) (not_le.mpr inside.2)
    simp only [retrieve, Option.mem_def]
    rw [if_neg (by simp [lower, upper])]
    simp only [← hp, dif_pos lt, if_pos (containValue_iff.mpr here)]
    exact congrArg some (Fin.ext index)

/-- The entry ids that a compiled index returns for a value. -/
def Answers (rix : RangeIdx) (v : Int64) (e : EntryID) : Prop :=
  ∃ i ∈ rix.retrieve v, e ∈ rix.rgEntries[i].entries

theorem compile_getElem {rix : RangeIdx} (i : Fin rix.compile.rgEntries.length) :
    ∃ bound : (i : Nat) < rix.items.length, rix.compile.rgEntries[i] = (rix.items[(i : Nat)]).sorted := by
  refine ⟨by simpa [compile] using i.isLt, ?_⟩
  rw [Fin.getElem_fin]
  exact List.getElem_map _

theorem compile_cell_sorted {rix : RangeIdx} (i : Fin rix.compile.rgEntries.length) :
    rix.compile.rgEntries[i].entries.Pairwise (· ≤ ·) := by
  obtain ⟨bound, cell⟩ := compile_getElem i
  rw [cell]
  exact sortEntries_sorted _

theorem compile_answers {rix : RangeIdx} {v : Int64} {e : EntryID} : rix.compile.Answers v e ↔ rix.Covers v e := by
  simp only [Answers, mem_retrieve, covers_iff]
  constructor
  · intro ⟨i, inside, he⟩
    obtain ⟨bound, cell⟩ := compile_getElem i
    rw [cell] at inside he
    exact ⟨_, List.getElem_mem bound, inside, mem_sortEntries.mp he⟩
  · intro ⟨pl, hpl, inside, he⟩
    obtain ⟨i, hi, rfl⟩ := List.getElem_of_mem hpl
    have bound : i < rix.compile.rgEntries.length := by simpa [compile] using hi
    obtain ⟨_, cell⟩ := compile_getElem ⟨i, bound⟩
    refine ⟨⟨i, bound⟩, ?_, ?_⟩
    · rw [cell]
      exact inside
    · rw [cell]
      exact mem_sortEntries.mpr he

theorem fresh_covers {min max : Int64} (lt : min < max) (v : Int64) (e : EntryID) :
    ¬ (freshRangeIdx min max lt).Covers v e := by
  simp [covers_iff, freshRangeIdx]

theorem compile_cell {rix : RangeIdx} {v : Int64} {i : Fin rix.compile.rgEntries.length}
    (inside : Contains RangeEntries.left RangeEntries.right v rix.compile.rgEntries[i]) :
    rix.compile.rgEntries[i].entries = sortEntries (rix.cellEntries v) := by
  obtain ⟨bound, cell⟩ := compile_getElem i
  rw [cell] at inside ⊢
  rw [cellEntries_eq (List.getElem_mem bound) inside]
  rfl

/-! ### Sequences of calls -/

structure Call where
  left : Int64
  right : Int64
  eid : EntryID
  ordered : left ≤ right

namespace Call

def run (rix : RangeIdx) (call : Call) : Go RangeIdx :=
  rix.indexingRange ⟨call.left, call.right, Or.inl call.ordered⟩ call.eid

/-- The value lies in `[left, right)`, or in `[left, left + 1)` when the ends are equal. -/
def Covers (call : Call) (v : Int64) : Prop :=
  call.left ≤ v ∧ v.toInt < if call.left = call.right then call.left.toInt + 1 else call.right.toInt

instance (call : Call) (v : Int64) : Decidable (call.Covers v) := inferInstanceAs (Decidable (_ ∧ _))

/-- What `IndexingRange` does with the call in an index over `[min, max)`: the cell of the value gets
the entry id, provided that the range starts in the domain. -/
def Placed (min max : Int64) (call : Call) (v : Int64) : Prop :=
  v < max ∧ min ≤ call.left ∧ call.left ≤ v ∧ v < bumpEqual call.left call.right

instance (min max : Int64) (call : Call) (v : Int64) : Decidable (call.Placed min max v) :=
  inferInstanceAs (Decidable (_ ∧ _))

/-- On values below `MaxInt64` the end that `IndexingRange` computes does not wrap around. -/
theorem covers_iff {call : Call} {v : Int64} (below : v < Int64.maxValue) :
    call.Covers v ↔ call.left ≤ v ∧ v < bumpEqual call.left call.right := by
  unfold Covers bumpEqual
  refine and_congr_right fun le => ?_
  split
  · rename_i same
    have above : call.left < Int64.maxValue := lt_of_le_of_lt le below
    rw [← same, Int64.lt_iff_toInt_lt, toInt_succ above]
  · rw [Int64.lt_iff_toInt_lt]

/-- Over the whole of `int64` no range starts outside the domain. -/
theorem placed_iff {call : Call} {v : Int64} (below : v < Int64.maxValue) :
    call.Placed Int64.minValue Int64.maxValue v ↔ call.Covers v := by
  have low : Int64.minValue ≤ call.left := Int64.minValue_le _
  rw [covers_iff below, Placed]
  exact ⟨fun placed => placed.2.2, fun covers => ⟨below, low, covers⟩⟩

end Call

/-- The calls in turn: none of them panics, and the posting list of a value holds the entry ids of the
calls that are placed on its cell. -/
theorem calls_cells {min max : Int64} (lt : min < max) (calls : List Call) :
    ∃ rix, calls.foldlM Call.run (freshRangeIdx min max lt) = .ok rix ∧
      rix.compiled = false ∧ rix.valueMin = min ∧ rix.valueMax = max ∧
      ∀ v, rix.cellEntries v = (calls.filter fun call => call.Placed min max v).map Call.eid := by
  induction calls using List.reverseRecOn with
  | nil =>
    refine ⟨_, rfl, rfl, rfl, rfl, fun v => ?_⟩
    refine List.eq_nil_iff_forall_not_mem.mpr fun e => ?_
    exact fresh_covers lt v e
  | append_singleton calls call ih =>
    obtain ⟨rix, runs, fresh, hmin, hmax, cells⟩ := ih
    obtain ⟨rix', run⟩ := rix.indexingRange_ok ⟨call.left, call.right, Or.inl call.ordered⟩ call.eid
    obtain ⟨compiled, min', max', _⟩ := indexingRange_frame run
    refine ⟨rix', ?_, compiled.trans fresh, min'.trans hmin, max'.trans hmax, fun v => ?_⟩
    · rw [List.foldlM_append, runs]
      exact bind_eq_ok.mpr ⟨rix, rfl, bind_eq_ok.mpr ⟨rix', run, rfl⟩⟩
    · rw [indexingRange_cell v fresh run, cells v, hmin, hmax, List.filter_append, List.map_append]
      congr 1
      by_cases placed : call.Placed min max v
      · refine (if_pos placed).trans ?_
        simp [placed]
      · refine (if_neg placed).trans ?_
        simp [placed]

theorem calls_answers {min max : Int64} (lt : min < max) (calls : List Call) (v : Int64) (eid : EntryID) :
    ∃ rix, calls.foldlM Call.run (freshRangeIdx min max lt) = .ok rix ∧
      (rix.compile.Answers v eid ↔ ∃ call ∈ calls, call.eid = eid ∧ call.Placed min max v) := by
  obtain ⟨rix, runs, _, _, _, cells⟩ := calls_cells lt calls
  refine ⟨rix, runs, ?_⟩
  rw [compile_answers, Covers, cells v]
  simp only [List.mem_map, List.mem_filter, decide_eq_true_eq]
  exact exists_congr fun call => by rw [and_assoc, and_comm (a := call.eid = eid)]

/-- Whatever ranges are indexed one after the other, no call panics, the cells tile the whole domain,
and once compiled the index returns for a value the one cell that contains it, with the entry ids of
the calls that cover the value, in order. -/
theorem indexingRange_represents (calls : List Call) {v : Int64} (below : v < Int64.maxValue) :
    ∃ start rix, newRangeIdx Int64.minValue Int64.maxValue = .ok start ∧ calls.foldlM Call.run start = .ok rix ∧
      RangeTiles Int64.minValue rix.items Int64.maxValue ∧
      ∃ i, rix.compile.retrieve v = some i ∧ rix.compile.rgEntries[i].containValue v = true ∧
        (∀ j : Fin rix.compile.rgEntries.length, rix.compile.rgEntries[j].containValue v = true → j = i) ∧
        rix.compile.rgEntries[i].entries.Pairwise (· ≤ ·) ∧
        rix.compile.rgEntries[i].entries.Perm ((calls.filter fun call => call.Covers v).map Call.eid) := by
  obtain ⟨rix, runs, fresh, min, max, cells⟩ :=
    calls_cells (show Int64.minValue < Int64.maxValue by decide) calls
  have tiles : RangeTiles Int64.minValue rix.items Int64.maxValue := by
    have tile := rix.items_tile
    rwa [fresh, min, max] at tile
  have found : ∃ i : Fin rix.compile.rgEntries.length,
      Contains RangeEntries.left RangeEntries.right v rix.compile.rgEntries[i] := by
    obtain ⟨pl, mem, inside⟩ := (sorted_tiles tiles).cover (Int64.le_iff_toInt_le.mpr v.le_toInt) below
    obtain ⟨i, bound, rfl⟩ := List.getElem_of_mem mem
    exact ⟨⟨i, bound⟩, inside⟩
  obtain ⟨i, inside⟩ := found
  have retrieved := mem_retrieve.mpr inside
  refine ⟨_, rix, rfl, runs, tiles, i, retrieved, containValue_iff.mpr inside, fun j contains => ?_, ?_, ?_⟩
  · have again := mem_retrieve.mpr (containValue_iff.mp contains)
    exact Option.some.inj (again.symm.trans retrieved)
  · rw [compile_cell inside]
    exact sortEntries_sorted _
  · have covering : calls.filter (fun call => call.Placed Int64.minValue Int64.maxValue v) =
        calls.filter fun call => call.Covers v := List.filter_congr fun call _ => by
      simp only [Call.placed_iff below]
    rw [compile_cell inside, ← covering, ← cells v]
    exact sortEntries_perm _

/-- Two overlapping ranges, and a value in both. -/
theorem indexingRange_represents_overlap :
    ∃ rix, [⟨0, 10, 7, by decide⟩, ⟨5, 5, 3, by decide⟩].foldlM Call.run
        (freshRangeIdx Int64.minValue Int64.maxValue (by decide)) = .ok rix ∧
      ∃ i, rix.compile.retrieve 5 = some i ∧ rix.compile.rgEntries[i].entries.Perm [7, 3] := by
  obtain ⟨start, rix, made, runs, _, i, retrieved, _, _, _, entries⟩ :=
    indexingRange_represents [⟨0, 10, 7, by decide⟩, ⟨5, 5, 3, by decide⟩] (v := 5) (by decide)
  obtain rfl := Except.ok.inj made
  exact ⟨rix, runs, i, retrieved, entries⟩

end RangeIdx

end BeIndexer
