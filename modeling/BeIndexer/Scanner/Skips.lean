import BeIndexer.Scanner

/-!
# The skips as written (`index_scanner.go`)

`SkipTo` and `linearSkipTo` work on the fields of a cursor in place and read its entries by index. Here
they are written on the bare fields, every read checked and every loop counted. They do what the
skips of an `EntriesCursor` do, so a galloping run and a linear one go through the same states.
-/

namespace BeIndexer

open SortedSearch

/-- The fields of the source's `EntriesCursor`, without what relates them. -/
structure CursorFields where
  cursor : Nat
  entries : Entries
  idSize : Nat
  curEID : EntryID

namespace CursorFields

def entryAt (entries : Entries) (i : Nat) : Go EntryID :=
  match entries[i]? with
  | some e => .ok e
  | none => panicf "index out of range [%d] with length %d" [.int i, .int entries.length]

def new (entries : Entries) : Go CursorFields := do
  let eid ← if entries.length > 0 then entryAt entries 0 else pure NULLENTRY
  return { cursor := 0, entries := entries, idSize := entries.length, curEID := eid }

/-- Where both skips end: `curEID` is set from `cursor` and returned. -/
def settle (ec : CursorFields) (cursor : Nat) : Go (CursorFields × EntryID) :=
  if cursor ≥ ec.idSize then .ok ({ ec with cursor := cursor, curEID := NULLENTRY }, NULLENTRY)
  else do
    let e ← entryAt ec.entries cursor
    return ({ ec with cursor := cursor, curEID := e }, e)

/-- The loop of `linearSkipTo` over `ec.cursor`, for at most `fuel` rounds. -/
def linearLoop (ec : CursorFields) (id : EntryID) : (fuel cursor : Nat) → Go Nat
  | 0, _ => .error .hang
  | fuel + 1, cursor =>
    if cursor < ec.idSize then do
      let e ← entryAt ec.entries cursor
      if e < id then linearLoop ec id fuel (cursor + 1) else return cursor
    else return cursor

def linearSkipTo (fuel : Nat) (ec : CursorFields) (id : EntryID) : Go (CursorFields × EntryID) := do
  let cursor ← linearLoop ec id fuel ec.cursor
  ec.settle cursor

/-- The first loop of `SkipTo`, which leaves `ec.cursor` and `rightSideIndex`. -/
def probeLoop (ec : CursorFields) (id : EntryID) (oc : Nat) : (fuel cursor bound : Nat) → Go (Nat × Nat)
  | 0, _, _ => .error .hang
  | fuel + 1, cursor, bound =>
    let rightSideIndex := oc + bound
    if rightSideIndex < ec.idSize then do
      let e ← entryAt ec.entries rightSideIndex
      if e < id then probeLoop ec id oc fuel rightSideIndex (bound <<< 1) else return (cursor, rightSideIndex)
    else return (cursor, rightSideIndex)

/-- The second loop of `SkipTo`, which uses `bound` for the middle. -/
def halveLoop (ec : CursorFields) (id : EntryID) : (fuel cursor rightSideIndex : Nat) → Go Nat
  | 0, _, _ => .error .hang
  | fuel + 1, cursor, rightSideIndex =>
    if cursor < rightSideIndex then do
      let e ← entryAt ec.entries cursor
      if e < id then do
        let bound := (cursor + rightSideIndex) >>> 1
        let e ← entryAt ec.entries bound
        if e ≥ id then halveLoop ec id fuel cursor bound else halveLoop ec id fuel (bound + 1) rightSideIndex
      else return cursor
    else return cursor

def skipTo (fuel : Nat) (ec : CursorFields) (id : EntryID) : Go (CursorFields × EntryID) :=
  if ec.curEID ≥ id then .ok (ec, ec.curEID)
  else do
    let (cursor, rightSideIndex) ← probeLoop ec id ec.cursor fuel ec.cursor 1
    let rightSideIndex := if rightSideIndex > ec.idSize then ec.idSize else rightSideIndex
    let cursor ← halveLoop ec id fuel cursor rightSideIndex
    ec.settle cursor

/-- A cursor that is skipped to each id in turn: the state and the id after each skip. -/
def run (skip : CursorFields → EntryID → Go (CursorFields × EntryID)) :
    CursorFields → List EntryID → Go (List (CursorFields × EntryID))
  | _, [] => .ok []
  | ec, id :: ids => do
    let (next, eid) ← skip ec id
    let steps ← run skip next ids
    return (next, eid) :: steps

/-- One skip: it does not move back, it leaves only entries below `id` behind, and it returns the entry
it stands on, which is not below `id`, or `NULLENTRY` at the end. -/
def Lands (ec : CursorFields) (id : EntryID) (next : CursorFields) (eid : EntryID) : Prop :=
  next.entries = ec.entries ∧ ec.cursor ≤ next.cursor ∧ next.curEID = eid ∧
    (∀ i (h : i < ec.entries.length), ec.cursor ≤ i → i < next.cursor → ec.entries[i] < id) ∧
    ((∃ h : next.cursor < ec.entries.length, eid = ec.entries[next.cursor] ∧ id ≤ eid) ∨
      (next.cursor = ec.entries.length ∧ eid = NULLENTRY))

def Landings : CursorFields → List EntryID → List (CursorFields × EntryID) → Prop
  | _, [], [] => True
  | ec, id :: ids, (next, eid) :: steps => Lands ec id next eid ∧ Landings next ids steps
  | _, _, _ => False

theorem entryAt_inside {entries : Entries} {i : Nat} (h : i < entries.length) : entryAt entries i = .ok entries[i] := by
  unfold entryAt
  rw [List.getElem?_eq_getElem h]

theorem run_cons {skip : CursorFields → EntryID → Go (CursorFields × EntryID)} {ec next : CursorFields}
    {id eid : EntryID}
    {ids : List EntryID} {steps : List (CursorFields × EntryID)} (skipped : skip ec id = .ok (next, eid))
    (ran : run skip next ids = .ok steps) : run skip ec (id :: ids) = .ok ((next, eid) :: steps) := by
  unfold run
  rw [skipped]
  show (run skip next ids >>= _) = _
  rw [ran]
  rfl

end CursorFields

namespace EntriesCursor

/-- The fields of a cursor, as the source keeps them. -/
def fields (ec : EntriesCursor) : CursorFields := ⟨ec.cursor, ec.entries, ec.idSize, ec.curEID⟩

theorem new_fields (entries : Entries) : CursorFields.new entries = .ok (newEntriesCursor entries).fields := by
  unfold CursorFields.new
  by_cases some : entries.length > 0
  · rw [if_pos some, CursorFields.entryAt_inside some]
    simp only [newEntriesCursor, moveTo, fields, idSize, dif_pos some]
    rfl
  · rw [if_neg some]
    simp only [newEntriesCursor, moveTo, fields, idSize, dif_neg some]
    rfl

theorem settle_fields (ec : EntriesCursor) (i : Nat) :
    ec.fields.settle i = .ok ((moveTo ec.entries i).fields, (moveTo ec.entries i).curEID) := by
  unfold CursorFields.settle
  by_cases inside : i < ec.entries.length
  · rw [if_neg (show ¬ i ≥ ec.fields.idSize from Nat.not_le.mpr inside),
      show ec.fields.entries = ec.entries from rfl, CursorFields.entryAt_inside inside]
    simp only [moveTo, fields, idSize, dif_pos inside]
    rfl
  · rw [if_pos (show i ≥ ec.fields.idSize from Nat.le_of_not_lt inside)]
    simp only [moveTo, fields, idSize, dif_neg inside]

/-! ### The loops -/

variable (ec : EntriesCursor) (id : EntryID)

theorem linearLoop_eq {fuel i : Nat} (enough : ec.entries.length - i < fuel) :
    CursorFields.linearLoop ec.fields id fuel i = .ok (linearFrom ec.entries id i) := by
  induction fuel generalizing i with
  | zero => omega
  | succ fuel ih =>
    unfold CursorFields.linearLoop linearFrom
    by_cases inside : i < ec.entries.length
    · rw [if_pos (show i < ec.fields.idSize from inside), dif_pos inside,
        show ec.fields.entries = ec.entries from rfl, CursorFields.entryAt_inside inside]
      show (if ec.entries[i] < id then _ else _) = _
      split
      · apply ih
        omega
      · rfl
    · rw [if_neg (show ¬ i < ec.fields.idSize from inside), dif_neg inside]
      rfl

theorem probeLoop_eq {fuel oc cursor bound : Nat} (pos : 0 < bound) (enough : ec.entries.length - (oc + bound) < fuel) :
    CursorFields.probeLoop ec.fields id oc fuel cursor bound = .ok (gallop ec.entries id oc bound cursor pos) := by
  induction fuel generalizing cursor bound with
  | zero => omega
  | succ fuel ih =>
    unfold CursorFields.probeLoop gallop
    by_cases inside : oc + bound < ec.entries.length
    · simp only
      rw [if_pos (show oc + bound < ec.fields.idSize from inside), dif_pos inside,
        show ec.fields.entries = ec.entries from rfl, CursorFields.entryAt_inside inside]
      show (if ec.entries[oc + bound] < id then _ else _) = _
      split
      · apply ih
        rw [Nat.shiftLeft_eq]
        omega
      · rfl
    · simp only
      rw [if_neg (show ¬ oc + bound < ec.fields.idSize from inside), dif_neg inside]
      rfl

theorem halveLoop_eq {fuel cursor right : Nat} (inside : right ≤ ec.entries.length) (enough : right - cursor < fuel) :
    CursorFields.halveLoop ec.fields id fuel cursor right = .ok (bisect ec.entries id cursor right inside) := by
  induction fuel generalizing cursor right with
  | zero => omega
  | succ fuel ih =>
    unfold CursorFields.halveLoop bisect
    by_cases open_ : cursor < right
    · have mid := mid_lt open_
      rw [if_pos open_, dif_pos open_, show ec.fields.entries = ec.entries from rfl,
        CursorFields.entryAt_inside (show cursor < ec.entries.length by omega)]
      show (if ec.entries[cursor] < id then _ else _) = _
      split
      · show (CursorFields.entryAt ec.entries ((cursor + right) >>> 1) >>= _) = _
        rw [CursorFields.entryAt_inside (show (cursor + right) >>> 1 < ec.entries.length by omega)]
        show (if ec.entries[(cursor + right) >>> 1] ≥ id then _ else _) = _
        split
        · apply ih
          omega
        · apply ih
          omega
      · rfl
    · rw [if_neg open_, dif_neg open_]
      rfl

/-! ### One skip -/

theorem linearSkipTo_fields {fuel : Nat} (enough : ec.entries.length < fuel) :
    CursorFields.linearSkipTo fuel ec.fields id = .ok ((ec.linearSkipTo id).fields, (ec.linearSkipTo id).curEID) := by
  unfold CursorFields.linearSkipTo
  rw [linearLoop_eq ec id (show ec.entries.length - ec.fields.cursor < fuel by omega)]
  exact ec.settle_fields _

/-- The galloping skip returns on any list, sorted or not, and reads nothing outside it. -/
theorem skipTo_fields {fuel : Nat} (enough : ec.entries.length < fuel) :
    CursorFields.skipTo fuel ec.fields id = .ok ((ec.skipTo id).fields, (ec.skipTo id).curEID) := by
  unfold CursorFields.skipTo EntriesCursor.skipTo
  by_cases there : id ≤ ec.curEID
  · rw [if_pos there, if_pos (show ec.fields.curEID ≥ id from there)]
    rfl
  · rw [if_neg there, if_neg (show ¬ ec.fields.curEID ≥ id from there),
      probeLoop_eq ec id Nat.one_pos (show ec.entries.length - (ec.fields.cursor + 1) < fuel by omega)]
    have clamped : ∀ right,
      (if right > ec.fields.idSize then ec.fields.idSize else right) = min right ec.entries.length := by
      intro right
      show (if right > ec.entries.length then ec.entries.length else right) = _
      split <;> omega
    show (CursorFields.halveLoop ec.fields id fuel _ (if _ > ec.fields.idSize then ec.fields.idSize else _) >>= _) = _
    rw [clamped, halveLoop_eq ec id (Nat.min_le_right _ _) (by omega)]
    exact ec.settle_fields _

/-! ### Both skips land on the first entry that is not below the id -/

variable {ec}

theorem eq_of_cursor {a b : EntriesCursor} (entries : a.entries = b.entries) (cursor : a.cursor = b.cursor) :
    a = b := by
  have same : a.curEID = b.curEID := by rw [a.cur_eq, b.cur_eq, entries, cursor]
  cases a
  cases b
  simp_all

theorem linearFrom_firstFrom {entries : Entries} {i : Nat} (inside : i ≤ entries.length) :
    FirstFrom entries id i (linearFrom entries id i) := by
  induction i using linearFrom.induct entries id with
  | case1 i h less ih =>
    unfold linearFrom
    rw [dif_pos h, if_pos less]
    have next := ih h
    have moved := next.ge
    refine ⟨by omega, next.le, ?_, next.stop⟩
    intro j hj from_ before
    by_cases here : j = i
    · subst here
      exact less
    · exact next.below j hj (by omega) before
  | case2 i h notLess =>
    unfold linearFrom
    rw [dif_pos h, if_neg notLess]
    exact ⟨Nat.le_refl i, inside, fun j _ from_ before => by omega, fun _ => not_lt.mp notLess⟩
  | case3 i h =>
    unfold linearFrom
    rw [dif_neg h]
    exact ⟨Nat.le_refl i, inside, fun j _ from_ before => by omega, fun h' => absurd h' h⟩

theorem skipTo_first (sorted : ec.entries.Pairwise (· ≤ ·)) (inside : ec.cursor ≤ ec.entries.length) :
    FirstFrom ec.entries id ec.cursor (ec.skipTo id).cursor := by
  rcases lt_or_ge ec.curEID id with less | there
  · exact skipTo_firstFrom sorted less
  · rw [EntriesCursor.skipTo, if_pos there]
    refine ⟨Nat.le_refl _, inside, fun j _ from_ before => by omega, fun h => ?_⟩
    have here := ec.cur_eq
    rw [List.getD_eq_getElem _ _ h] at here
    rwa [← here]

theorem skipTo_eq_linear (sorted : ec.entries.Pairwise (· ≤ ·)) (inside : ec.cursor ≤ ec.entries.length) :
    ec.skipTo id = ec.linearSkipTo id := by
  apply eq_of_cursor
  · exact ec.skipTo_entries id
  · exact (skipTo_first id sorted inside).unique (linearFrom_firstFrom id inside)

variable {id}

theorem lands_of_first {next : EntriesCursor} (entries : next.entries = ec.entries)
    (first : FirstFrom ec.entries id ec.cursor next.cursor) :
    CursorFields.Lands ec.fields id next.fields next.curEID := by
  refine ⟨entries, first.ge, rfl, first.below, ?_⟩
  have here := next.cur_eq
  rw [entries] at here
  by_cases h : next.cursor < ec.entries.length
  · rw [List.getD_eq_getElem _ _ h] at here
    exact Or.inl ⟨h, here, here ▸ first.stop h⟩
  · have ended := first.le
    rw [List.getD_eq_default _ _ (Nat.le_of_not_lt h)] at here
    exact Or.inr ⟨show next.cursor = ec.entries.length by omega, here⟩

/-! ### Runs -/

theorem run_lands (ec : EntriesCursor) (sorted : ec.entries.Pairwise (· ≤ ·)) (inside : ec.cursor ≤ ec.entries.length)
    (ids : List EntryID) :
    ∃ steps, CursorFields.Landings ec.fields ids steps ∧ ∀ fuel, ec.entries.length < fuel →
      CursorFields.run (CursorFields.skipTo fuel) ec.fields ids = .ok steps ∧
      CursorFields.run (CursorFields.linearSkipTo fuel) ec.fields ids = .ok steps := by
  induction ids generalizing ec with
  | nil => exact ⟨[], trivial, fun fuel enough => ⟨rfl, rfl⟩⟩
  | cons id ids ih =>
    have first := skipTo_first id sorted inside
    have same := ec.skipTo_entries id
    obtain ⟨steps, landed, runs⟩ := ih (ec.skipTo id) (by rwa [same]) (by rw [same]; exact first.le)
    refine ⟨((ec.skipTo id).fields, (ec.skipTo id).curEID) :: steps, ⟨lands_of_first same first, landed⟩, ?_⟩
    intro fuel enough
    obtain ⟨galloped, walked⟩ := runs fuel (by rwa [same])
    constructor
    · apply CursorFields.run_cons _ galloped
      exact skipTo_fields ec id enough
    · apply CursorFields.run_cons _ walked
      rw [linearSkipTo_fields ec id enough, ← skipTo_eq_linear id sorted inside]

end EntriesCursor

/-- On a sorted list a run of galloping skips returns, panics nowhere and goes through the states of a
run of linear skips, each of which stands on the first entry that is not below its id. -/
theorem CursorFields.skipTo_gallops {entries : Entries} (sorted : entries.Pairwise (· ≤ ·)) (ids : List EntryID) :
    ∃ start steps, new entries = .ok start ∧ Landings start ids steps ∧
      ∀ fuel, entries.length < fuel →
        run (skipTo fuel) start ids = .ok steps ∧ run (linearSkipTo fuel) start ids = .ok steps := by
  obtain ⟨steps, landed, runs⟩ :=
    EntriesCursor.run_lands (newEntriesCursor entries) sorted (Nat.zero_le _) ids
  exact ⟨_, steps, EntriesCursor.new_fields entries, landed, runs⟩

/-- The second skip stands on the first of two equal entries and the third goes nowhere. -/
theorem CursorFields.skipTo_gallops_four :
    ∃ start steps, new [1, 4, 4, 9] = .ok start ∧ Landings start [3, 4, 2, 10] steps ∧
      ∀ fuel, 4 < fuel → run (skipTo fuel) start [3, 4, 2, 10] = .ok steps ∧
        run (linearSkipTo fuel) start [3, 4, 2, 10] = .ok steps :=
  skipTo_gallops (by decide) [3, 4, 2, 10]

end BeIndexer
