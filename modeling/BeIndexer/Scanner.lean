import BeIndexer.IdTypes
import BeIndexer.Lib.Leapfrog
import BeIndexer.Lib.Search
import Mathlib.Algebra.Order.BigOperators.Group.List
import Mathlib.Algebra.Order.Group.Nat
import Mathlib.Data.List.GetD
import Mathlib.Data.List.Sort

/-!
# Posting list cursors (`index_scanner.go`)

An `EntriesCursor` walks one posting list, a `FieldCursor` a group of them and shows the least
current entry. Both carry what relates their cached fields to their lists, so a cursor whose
`curEID` or `current` is stale cannot be built.
-/

namespace BeIndexer

open SortedSearch Leapfrog

structure EntriesCursor where
  cursor : Nat
  entries : Entries
  curEID : EntryID
  cur_eq : curEID = entries.getD cursor NULLENTRY

namespace EntriesCursor

def idSize (ec : EntriesCursor) : Nat := ec.entries.length

/-- The cursor at position `i`, with the entry cached there. -/
def moveTo (entries : Entries) (i : Nat) : EntriesCursor where
  cursor := i
  entries := entries
  curEID := if h : i < entries.length then entries[i] else NULLENTRY
  cur_eq := by
    split
    · rename_i h
      simp [h]
    · rename_i h
      exact (List.getD_eq_default _ _ (Nat.le_of_not_lt h)).symm

end EntriesCursor

def newEntriesCursor (entries : Entries) : EntriesCursor := EntriesCursor.moveTo entries 0

namespace EntriesCursor

/-- `linearSkipTo`'s loop from position `i` on. -/
def linearFrom (entries : Entries) (id : EntryID) (i : Nat) : Nat :=
  if h : i < entries.length then
    if entries[i] < id then linearFrom entries id (i + 1) else i
  else i
termination_by entries.length - i

def linearSkipTo (ec : EntriesCursor) (id : EntryID) : EntriesCursor :=
  moveTo ec.entries (linearFrom ec.entries id ec.cursor)

def skipTo (ec : EntriesCursor) (id : EntryID) : EntriesCursor :=
  if id ≤ ec.curEID then ec
  else
    let probe := gallop ec.entries id ec.cursor 1 ec.cursor (by decide)
    -- the probe may stop beyond the list
    let rightSideIndex := min probe.2 ec.idSize
    moveTo ec.entries (bisect ec.entries id probe.1 rightSideIndex (Nat.min_le_right _ _))

@[simp] theorem skipTo_entries (ec : EntriesCursor) (id : EntryID) : (ec.skipTo id).entries = ec.entries := by
  unfold skipTo
  split <;> rfl

/-- The cursor stands on an entry below `id`, hence inside the list. -/
theorem below_inside {ec : EntriesCursor} {id : EntryID} (lt : ec.curEID < id) :
    ∃ h : ec.cursor < ec.entries.length, ec.entries[ec.cursor] = ec.curEID := by
  by_cases h : ec.cursor < ec.entries.length
  · exact ⟨h, by rw [ec.cur_eq]; simp [h]⟩
  · have null : ec.curEID = NULLENTRY := by
      rw [ec.cur_eq, List.getD_eq_default _ _ (Nat.le_of_not_lt h)]
    rw [null] at lt
    exact absurd lt (not_lt.mpr (UInt64.le_allOnes id))

def ahead (ec : EntriesCursor) : Entries := ec.entries.drop ec.cursor

def remaining (ec : EntriesCursor) : Nat := ec.entries.length - ec.cursor

theorem skipTo_moves {ec : EntriesCursor} {id : EntryID} (lt : ec.curEID < id) :
    (ec.skipTo id).remaining < ec.remaining := by
  obtain ⟨inside, value⟩ := below_inside lt
  have small : ∀ h : ec.cursor < ec.entries.length, ec.entries[ec.cursor] < id := fun _ => by rwa [value]
  have probe := gallop_bounds (show 0 < 1 by decide) small inside (Nat.lt_succ_self ec.cursor)
  obtain ⟨ge, less, ⟨h, below⟩, _⟩ := probe
  rw [skipTo, if_neg (not_le.mpr lt)]
  simp only [remaining, moveTo, idSize]
  have progress := bisect_progress (Nat.min_le_right
    (gallop ec.entries id ec.cursor 1 ec.cursor (by decide)).2 ec.entries.length)
    (Nat.lt_min.mpr ⟨less, h⟩) below
  omega

theorem skipTo_remaining_le (ec : EntriesCursor) (id : EntryID) : (ec.skipTo id).remaining ≤ ec.remaining := by
  rcases lt_or_ge ec.curEID id with lt | ge
  · exact Nat.le_of_lt (skipTo_moves lt)
  · rw [skipTo, if_pos ge]

def Sorted (ec : EntriesCursor) : Prop := ec.entries.Pairwise (· ≤ ·) ∧ ∀ e ∈ ec.entries, ValidEntry e

/-- On a sorted list the galloping skip stops at the first entry that is not below `id`. -/
theorem skipTo_firstFrom {ec : EntriesCursor} {id : EntryID} (sorted : ec.entries.Pairwise (· ≤ ·))
    (lt : ec.curEID < id) : FirstFrom ec.entries id ec.cursor (ec.skipTo id).cursor := by
  obtain ⟨inside, value⟩ := below_inside lt
  have small : ∀ h : ec.cursor < ec.entries.length, ec.entries[ec.cursor] < id := fun _ => by rwa [value]
  have probe := gallop_bounds (show 0 < 1 by decide) small inside (Nat.lt_succ_self ec.cursor)
  obtain ⟨ge, less, ⟨h, below⟩, stop⟩ := probe
  rw [skipTo, if_neg (not_le.mpr lt)]
  refine bisect_firstFrom sorted ge (Nat.le_min.mpr ⟨Nat.le_of_lt less, Nat.le_of_lt h⟩) ?_ ?_
  · -- everything before the last probed index is at most the element there
    intro i hi _ before
    exact lt_of_le_of_lt (List.pairwise_iff_getElem.mp sorted i _ hi h before) below
  · intro end_
    rcases Nat.le_total (gallop ec.entries id ec.cursor 1 ec.cursor (by decide)).2 ec.entries.length with le | ge
    · have same : min (gallop ec.entries id ec.cursor 1 ec.cursor (by decide)).2 ec.idSize =
          (gallop ec.entries id ec.cursor 1 ec.cursor (by decide)).2 := Nat.min_eq_left le
      simp only [same] at end_ ⊢
      exact stop end_
    · exact absurd (Nat.min_eq_right ge ▸ end_) (Nat.lt_irrefl _)

theorem mem_ahead_skipTo {ec : EntriesCursor} {id e : EntryID} (sorted : ec.entries.Pairwise (· ≤ ·)) :
    e ∈ (ec.skipTo id).ahead ↔ e ∈ ec.ahead ∧ id ≤ e := by
  rcases lt_or_ge ec.curEID id with lt | ge
  · simpa only [ahead, skipTo_entries] using (skipTo_firstFrom sorted lt).mem_drop sorted
  · rw [skipTo, if_pos ge]
    refine ⟨fun h => ⟨h, ?_⟩, And.left⟩
    -- the current entry is the least one ahead
    obtain ⟨i, hi, rfl⟩ := List.mem_drop_iff_getElem.mp h
    refine le_trans ge ?_
    rw [ec.cur_eq, List.getD_eq_getElem _ _ (show ec.cursor < ec.entries.length by omega)]
    rcases Nat.eq_zero_or_pos i with rfl | pos
    · simp
    · exact List.pairwise_iff_getElem.mp sorted _ _ _ _ (by omega)

theorem curEID_le {ec : EntriesCursor} {e : EntryID} (sorted : ec.entries.Pairwise (· ≤ ·)) (h : e ∈ ec.ahead) :
    ec.curEID ≤ e := by
  have ahead : e ∈ (ec.skipTo ec.curEID).ahead := by rwa [skipTo, if_pos le_rfl]
  exact ((mem_ahead_skipTo sorted).mp ahead).2

theorem curEID_mem {ec : EntriesCursor} (h : ec.curEID ≠ NULLENTRY) : ec.curEID ∈ ec.ahead := by
  have lt : ec.curEID < NULLENTRY := lt_of_le_of_ne (UInt64.le_allOnes _) h
  obtain ⟨inside, value⟩ := below_inside lt
  exact List.mem_drop_iff_getElem.mpr ⟨0, by omega, by simpa using value⟩

end EntriesCursor

abbrev EntriesCursors := List EntriesCursor

structure FieldCursor where
  current : EntriesCursor
  cursorGroup : EntriesCursors
  least : (∃ c ∈ cursorGroup, c.curEID = current.curEID) ∧ ∀ c ∈ cursorGroup, current.curEID ≤ c.curEID

abbrev FieldCursors := List FieldCursor

/-- The choice of `NewFieldCursor`: the first cursor with the least current entry. -/
def firstLeast (c : EntriesCursor) (cs : EntriesCursors) : EntriesCursor :=
  cs.foldl (fun current cursor => if cursor.curEID < current.curEID then cursor else current) c

theorem firstLeast_least (c : EntriesCursor) (cs : EntriesCursors) :
    (∃ d ∈ c :: cs, d.curEID = (firstLeast c cs).curEID) ∧ ∀ d ∈ c :: cs, (firstLeast c cs).curEID ≤ d.curEID := by
  induction cs generalizing c with
  | nil => simp [firstLeast]
  | cons d cs ih =>
    have step : firstLeast c (d :: cs) = firstLeast (if d.curEID < c.curEID then d else c) cs := rfl
    rw [step]
    by_cases lt : d.curEID < c.curEID
    · rw [if_pos lt]
      obtain ⟨⟨e, he, same⟩, least⟩ := ih d
      have head := least d List.mem_cons_self
      refine ⟨⟨e, List.mem_cons_of_mem _ he, same⟩, ?_⟩
      simp only [List.forall_mem_cons] at least ⊢
      exact ⟨le_trans head (le_of_lt lt), head, least.2⟩
    · rw [if_neg lt]
      obtain ⟨⟨e, he, same⟩, least⟩ := ih c
      have head := least c List.mem_cons_self
      refine ⟨⟨e, ?_, same⟩, ?_⟩
      · rcases List.mem_cons.mp he with rfl | later
        · exact List.mem_cons_self
        · exact List.mem_cons_of_mem _ (List.mem_cons_of_mem _ later)
      · simp only [List.forall_mem_cons] at least ⊢
        exact ⟨head, le_trans head (not_lt.mp lt), least.2⟩

/-- `NewFieldCursor` of a nonempty group. -/
def newFieldCursor (c : EntriesCursor) (cs : EntriesCursors) : FieldCursor where
  current := firstLeast c cs
  cursorGroup := c :: cs
  least := firstLeast_least c cs

/-- The choice of `FieldCursor.SkipTo`: the last cursor with the least current entry. -/
def lastLeast (start : EntryID × EntriesCursor) (cs : EntriesCursors) : EntryID × EntriesCursor :=
  cs.foldl (fun best cur => if cur.curEID ≤ best.1 then (cur.curEID, cur) else best) start

theorem lastLeast_least {start : EntryID × EntriesCursor} {cs : EntriesCursors} (head : start.1 = start.2.curEID) :
    let best := lastLeast start cs
    best.1 = best.2.curEID ∧ (best = start ∨ best.2 ∈ cs) ∧ best.1 ≤ start.1 ∧ ∀ c ∈ cs, best.1 ≤ c.curEID := by
  induction cs generalizing start with
  | nil => simp [lastLeast, head]
  | cons c cs ih =>
    have step : lastLeast start (c :: cs) =
        lastLeast (if c.curEID ≤ start.1 then (c.curEID, c) else start) cs := rfl
    simp only [step]
    split
    · rename_i le
      obtain ⟨same, source, bound, least⟩ := @ih (c.curEID, c) rfl
      refine ⟨same, Or.inr ?_, le_trans bound le, ?_⟩
      · rcases source with eq | mem
        · rw [eq]
          exact List.mem_cons_self
        · exact List.mem_cons_of_mem _ mem
      · exact List.forall_mem_cons.mpr ⟨bound, least⟩
    · rename_i gt
      obtain ⟨same, source, bound, least⟩ := ih head
      refine ⟨same, source.imp_right (List.mem_cons_of_mem _), bound, ?_⟩
      exact List.forall_mem_cons.mpr ⟨le_trans bound (le_of_lt (not_le.mp gt)), least⟩

namespace FieldCursor

def getCurEntryID (fc : FieldCursor) : EntryID := fc.current.curEID

def reachEnd (fc : FieldCursor) : Bool := fc.current.curEID.isNULLEntry

end FieldCursor

/-- The loop of `SkipTo` starts from `NULLENTRY`, which every cursor's entry is at most. -/
theorem skipped_least {current : EntriesCursor} {cs : EntriesCursors} (nonempty : cs ≠ []) :
    (∃ c ∈ cs, c.curEID = (lastLeast (NULLENTRY, current) cs).2.curEID) ∧
      ∀ c ∈ cs, (lastLeast (NULLENTRY, current) cs).2.curEID ≤ c.curEID := by
  cases cs with
  | nil => exact absurd rfl nonempty
  | cons c cs =>
    have step : lastLeast (NULLENTRY, current) (c :: cs) = lastLeast (c.curEID, c) cs := by
      simp [lastLeast, show c.curEID ≤ NULLENTRY from UInt64.le_allOnes _]
    obtain ⟨same, source, bound, least⟩ := @lastLeast_least (c.curEID, c) cs rfl
    rw [step, ← same]
    refine ⟨?_, List.forall_mem_cons.mpr ⟨bound, least⟩⟩
    rcases source with eq | mem
    · exact ⟨c, List.mem_cons_self, by rw [eq]⟩
    · exact ⟨_, List.mem_cons_of_mem _ mem, same.symm⟩

namespace FieldCursor

theorem group_ne_nil (fc : FieldCursor) : fc.cursorGroup ≠ [] := by
  obtain ⟨c, hc, _⟩ := fc.least.1
  exact List.ne_nil_of_mem hc

def skipTo (fc : FieldCursor) (id : EntryID) : FieldCursor where
  current := (lastLeast (NULLENTRY, fc.current) (fc.cursorGroup.map (·.skipTo id))).2
  cursorGroup := fc.cursorGroup.map (·.skipTo id)
  least := skipped_least (by simpa using fc.group_ne_nil)

def remaining (fc : FieldCursor) : Nat := (fc.cursorGroup.map EntriesCursor.remaining).sum

theorem skipTo_remaining_le (fc : FieldCursor) (id : EntryID) : (fc.skipTo id).remaining ≤ fc.remaining := by
  simp only [remaining, skipTo, List.map_map]
  exact List.sum_le_sum fun c _ => c.skipTo_remaining_le id

theorem skipTo_moves {fc : FieldCursor} {id : EntryID} (lt : fc.getCurEntryID < id) :
    (fc.skipTo id).remaining < fc.remaining := by
  obtain ⟨c, hc, same⟩ := fc.least.1
  simp only [remaining, skipTo, List.map_map]
  refine List.sum_lt_sum _ _ (fun c _ => c.skipTo_remaining_le id) ⟨c, hc, ?_⟩
  exact EntriesCursor.skipTo_moves (by rw [same]; exact lt)

/-! ### A field cursor as a tape -/

def Sorted (fc : FieldCursor) : Prop := ∀ c ∈ fc.cursorGroup, c.Sorted

/-- The entries of the group and those still ahead. -/
def tape (fc : FieldCursor) : Tape EntryID where
  all := {e | ∃ c ∈ fc.cursorGroup, e ∈ c.entries}
  rest := {e | ∃ c ∈ fc.cursorGroup, e ∈ c.ahead}
  rest_subset := fun _ ⟨c, hc, he⟩ => ⟨c, hc, List.mem_of_mem_drop he⟩

theorem Sorted.skipTo {fc : FieldCursor} (sorted : fc.Sorted) (id : EntryID) : (fc.skipTo id).Sorted := by
  intro d hd
  obtain ⟨c, hc, rfl⟩ := List.mem_map.mp hd
  simpa only [EntriesCursor.Sorted, EntriesCursor.skipTo_entries] using sorted c hc

theorem skipTo_all (fc : FieldCursor) (id : EntryID) : (fc.skipTo id).tape.all = fc.tape.all := by
  ext e
  simp [tape, skipTo]

theorem mem_skipTo_rest {fc : FieldCursor} {id e : EntryID} (sorted : fc.Sorted) :
    e ∈ (fc.skipTo id).tape.rest ↔ e ∈ fc.tape.rest ∧ id ≤ e := by
  simp only [tape, skipTo, Set.mem_ofPred_eq, List.mem_map, exists_exists_and_eq_and]
  constructor
  · rintro ⟨c, hc, he⟩
    obtain ⟨ahead, ge⟩ := (EntriesCursor.mem_ahead_skipTo (sorted c hc).1).mp he
    exact ⟨⟨c, hc, ahead⟩, ge⟩
  · rintro ⟨⟨c, hc, ahead⟩, ge⟩
    exact ⟨c, hc, (EntriesCursor.mem_ahead_skipTo (sorted c hc).1).mpr ⟨ahead, ge⟩⟩

theorem cur_le {fc : FieldCursor} {e : EntryID} (sorted : fc.Sorted) (h : e ∈ fc.tape.rest) : fc.getCurEntryID ≤ e := by
  obtain ⟨c, hc, he⟩ := h
  exact le_trans (fc.least.2 c hc) (EntriesCursor.curEID_le (sorted c hc).1 he)

theorem cur_mem {fc : FieldCursor} (h : fc.getCurEntryID ≠ NULLENTRY) : fc.getCurEntryID ∈ fc.tape.rest := by
  obtain ⟨c, hc, same⟩ := fc.least.1
  have here : c.curEID = fc.getCurEntryID := same
  exact ⟨c, hc, here ▸ EntriesCursor.curEID_mem (here ▸ h)⟩

theorem rest_valid {fc : FieldCursor} {e : EntryID} (sorted : fc.Sorted) (h : e ∈ fc.tape.rest) : ValidEntry e := by
  obtain ⟨c, hc, he⟩ := h
  exact (sorted c hc).2 e (List.mem_of_mem_drop he)

theorem reachEnd_iff {fc : FieldCursor} : fc.reachEnd = true ↔ fc.getCurEntryID = NULLENTRY := by
  simp only [reachEnd, EntryID.isNULLEntry, beq_iff_eq]
  rfl

theorem rest_empty {fc : FieldCursor} (sorted : fc.Sorted) (h : fc.getCurEntryID = NULLENTRY) : fc.tape.rest = ∅ := by
  ext e
  simp only [Set.mem_empty_iff_false, iff_false]
  intro he
  have ge := cur_le sorted he
  rw [h] at ge
  exact (rest_valid sorted he).ne_null (le_antisymm (UInt64.le_allOnes e) ge)

end FieldCursor

/-! ### Sorting the cursors -/

namespace FieldCursors

/-- `FieldCursors.Sort`: each cursor in turn sinks in front of the ones with a larger current entry. -/
def sort (s : FieldCursors) : FieldCursors :=
  s.foldl (fun acc fc => acc.orderedInsert (fun a b => a.getCurEntryID < b.getCurEntryID) fc) []

def Ordered (s : FieldCursors) : Prop := s.Pairwise (fun a b => a.getCurEntryID ≤ b.getCurEntryID)

theorem ordered_insert {s : FieldCursors} (ordered : Ordered s) (fc : FieldCursor) :
    Ordered (s.orderedInsert (fun a b => a.getCurEntryID < b.getCurEntryID) fc) := by
  induction s with
  | nil => simp [Ordered]
  | cons a s ih =>
    obtain ⟨head, tail⟩ := List.pairwise_cons.mp ordered
    rw [List.orderedInsert_cons]
    split
    · rename_i lt
      refine List.pairwise_cons.mpr ⟨?_, ordered⟩
      intro b hb
      rcases List.mem_cons.mp hb with rfl | later
      · exact le_of_lt lt
      · exact le_trans (le_of_lt lt) (head b later)
    · rename_i ge
      refine List.pairwise_cons.mpr ⟨?_, ih tail⟩
      intro b hb
      rcases (List.mem_orderedInsert _).mp hb with rfl | later
      · exact not_lt.mp ge
      · exact head b later

theorem sort_aux (s acc : FieldCursors) (ordered : Ordered acc) :
    Ordered (s.foldl (fun acc fc => acc.orderedInsert (fun a b => a.getCurEntryID < b.getCurEntryID) fc) acc) ∧
    (s.foldl (fun acc fc => acc.orderedInsert (fun a b => a.getCurEntryID < b.getCurEntryID) fc) acc).Perm
      (acc ++ s) := by
  induction s generalizing acc with
  | nil => simpa using ordered
  | cons fc s ih =>
    obtain ⟨sorted, perm⟩ := ih _ (ordered_insert ordered fc)
    refine ⟨sorted, perm.trans ?_⟩
    exact ((List.perm_orderedInsert _ fc acc).append_right s).trans List.perm_middle.symm

theorem sort_ordered (s : FieldCursors) : Ordered (sort s) := (sort_aux s [] List.Pairwise.nil).1

theorem sort_perm (s : FieldCursors) : (sort s).Perm s := (sort_aux s [] List.Pairwise.nil).2

end FieldCursors

end BeIndexer
