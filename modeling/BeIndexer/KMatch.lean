import BeIndexer.Scanner

/-!
# The K-match loops

`retrieveK` (`be_indexer_kgroups.go`) and the loop of `CompactBEIndex.RetrieveWithCollector`
(`be_indexer_compact.go`) repeat the same round over the sorted field cursors. They differ in how
many cursors have to meet and in when they stop. The results are the conjunctions passed to
`collector.Add`, in order.
-/

namespace BeIndexer

open Leapfrog

namespace FieldCursors

def remaining (s : FieldCursors) : Nat := (s.map FieldCursor.remaining).sum

/-- `for i := 0; i < needMatchCnt; i++ { fieldCursors[i].SkipTo(nextID) }`. -/
def skipFirst (needMatchCnt : Nat) (nextID : EntryID) (s : FieldCursors) : FieldCursors :=
  (s.take needMatchCnt).map (·.skipTo nextID) ++ s.drop needMatchCnt

/-- The loop of the exclude branch over the cursors from `needMatchCnt` on. -/
def skipOthers (needMatchCnt : Nat) (nextID : EntryID) (s : FieldCursors) : FieldCursors :=
  s.take needMatchCnt ++
    (s.drop needMatchCnt).map (fun fc => if fc.getCurEntryID < nextID then fc.skipTo nextID else fc)

/-- One round: `eid` and `endEID` are the current entries of the first and of the
`needMatchCnt`-th cursor. Returns the cursors, sorted again, and the conjunction added, if any. -/
def round (needMatchCnt : Nat) (eid endEID : EntryID) (s : FieldCursors) : FieldCursors × List ConjID :=
  let conjID := eid.getConjID
  let endConjID := endEID.getConjID
  if conjID = endConjID then
    let nextID := newEntryID endConjID true + 1
    if eid.isInclude then (sort (skipFirst needMatchCnt nextID s), [conjID])
    else (sort (skipFirst needMatchCnt nextID (skipOthers needMatchCnt nextID s)), [])
  else (sort (skipFirst needMatchCnt (newEntryID endConjID false) s), [])

theorem skipFirst_length (n : Nat) (id : EntryID) (s : FieldCursors) : (skipFirst n id s).length = s.length := by
  simp only [skipFirst, List.length_append, List.length_map, List.length_take, List.length_drop]
  omega

theorem skipOthers_length (n : Nat) (id : EntryID) (s : FieldCursors) : (skipOthers n id s).length = s.length := by
  simp only [skipOthers, List.length_append, List.length_map, List.length_take, List.length_drop]
  omega

theorem round_length (n : Nat) (eid endEID : EntryID) (s : FieldCursors) :
    (round n eid endEID s).1.length = s.length := by
  unfold round
  dsimp only
  split
  · split
    · rw [(sort_perm _).length_eq, skipFirst_length]
    · rw [(sort_perm _).length_eq, skipFirst_length, skipOthers_length]
  · rw [(sort_perm _).length_eq, skipFirst_length]

/-- The loop of `retrieveK` from sorted cursors. A round that moves no cursor repeats forever. -/
def retrieveKLoop (needMatchCnt : Nat) (s : FieldCursors) (pos : 0 < needMatchCnt)
    (enough : needMatchCnt ≤ s.length) : Go (List ConjID) :=
  if s[needMatchCnt - 1].getCurEntryID.isNULLEntry then .ok []
  else
    let next := round needMatchCnt s[0].getCurEntryID s[needMatchCnt - 1].getCurEntryID s
    if remaining next.1 < remaining s then do
      let later ← retrieveKLoop needMatchCnt next.1 pos (by rw [round_length]; exact enough)
      return next.2 ++ later
    else .error .hang
termination_by remaining s

end FieldCursors

/-- `retrieveK`. Its callers pass `util.MaxInt(k, 1)`, so the count is positive. -/
def retrieveK (fieldCursors : FieldCursors) (needMatchCnt : Nat) (pos : 0 < needMatchCnt) : Go (List ConjID) :=
  if enough : needMatchCnt ≤ fieldCursors.length then
    FieldCursors.retrieveKLoop needMatchCnt fieldCursors.sort pos
      (by rw [(FieldCursors.sort_perm _).length_eq]; exact enough)
  else .ok []

namespace FieldCursors

/-- Finished cursors stand at the end and are cut off. -/
def dropEnded (s : FieldCursors) : FieldCursors :=
  (s.reverse.dropWhile FieldCursor.reachEnd).reverse

/-- The `RETRIEVE` loop of `CompactBEIndex.RetrieveWithCollector` from sorted cursors. -/
def retrieveLoop (s : FieldCursors) : Go (List ConjID) :=
  if h : 0 < s.length then
    let eid := s[0].getCurEntryID
    let needMatchCnt := max 1 eid.getConjID.size
    if few : s.length < needMatchCnt then .ok []
    else
      let next := round needMatchCnt eid s[needMatchCnt - 1].getCurEntryID s
      if remaining (dropEnded next.1) < remaining s then do
        let later ← retrieveLoop (dropEnded next.1)
        return next.2 ++ later
      else .error .hang
  else .ok []
termination_by remaining s

/-! ### Facts about sorted cursors -/

theorem ordered_first {s : FieldCursors} (ordered : Ordered s) (h : 0 < s.length) {fc : FieldCursor} (mem : fc ∈ s) :
    s[0].getCurEntryID ≤ fc.getCurEntryID := by
  obtain ⟨i, hi, rfl⟩ := List.getElem_of_mem mem
  rcases Nat.eq_zero_or_pos i with rfl | pos
  · exact le_rfl
  · exact List.pairwise_iff_getElem.mp ordered 0 i h hi pos

theorem ordered_drop {s : FieldCursors} (ordered : Ordered s) {i : Nat} (h : i < s.length) {fc : FieldCursor}
    (mem : fc ∈ s.drop i) : s[i].getCurEntryID ≤ fc.getCurEntryID := by
  obtain ⟨j, hj, rfl⟩ := List.mem_drop_iff_getElem.mp mem
  rcases Nat.eq_zero_or_pos j with rfl | pos
  · simp
  · exact List.pairwise_iff_getElem.mp ordered i (i + j) h (by omega) (by omega)

theorem ordered_take {s : FieldCursors} (ordered : Ordered s) {i : Nat} (h : i < s.length) {fc : FieldCursor}
    (mem : fc ∈ s.take (i + 1)) : fc.getCurEntryID ≤ s[i].getCurEntryID := by
  obtain ⟨j, hj, rfl⟩ := List.mem_take_iff_getElem.mp mem
  rcases Nat.lt_or_eq_of_le (show j ≤ i by omega) with lt | rfl
  · exact List.pairwise_iff_getElem.mp ordered j i (by omega) h lt
  · exact le_rfl

theorem remaining_perm {s t : FieldCursors} (perm : s.Perm t) : remaining s = remaining t :=
  (perm.map _).sum_eq

theorem remaining_append (s t : FieldCursors) : remaining (s ++ t) = remaining s + remaining t := by
  simp [remaining]

theorem remaining_map_le {s : FieldCursors} {f : FieldCursor → FieldCursor}
    (le : ∀ fc ∈ s, (f fc).remaining ≤ fc.remaining) : remaining (s.map f) ≤ remaining s := by
  simp only [remaining, List.map_map]
  exact List.sum_le_sum le

theorem skipOthers_remaining (n : Nat) (id : EntryID) (s : FieldCursors) :
    remaining (skipOthers n id s) ≤ remaining s := by
  have tail : remaining ((s.drop n).map (fun fc => if fc.getCurEntryID < id then fc.skipTo id else fc)) ≤
      remaining (s.drop n) := by
    refine remaining_map_le fun fc _ => ?_
    split
    · exact fc.skipTo_remaining_le id
    · exact le_rfl
  have split := remaining_append (s.take n) (s.drop n)
  rw [List.take_append_drop] at split
  rw [skipOthers, remaining_append]
  omega

theorem skipFirst_remaining {n : Nat} {id : EntryID} {s : FieldCursors} {fc : FieldCursor} (pos : 0 < n)
    (first : s.head? = some fc) (lt : fc.getCurEntryID < id) : remaining (skipFirst n id s) < remaining s := by
  obtain ⟨rest, rfl⟩ := List.head?_eq_some_iff.mp first
  obtain ⟨n, rfl⟩ : ∃ m, n = m + 1 := ⟨n - 1, by omega⟩
  have moved : (fc.skipTo id).remaining < fc.remaining := FieldCursor.skipTo_moves lt
  have tail : remaining ((rest.take n).map (·.skipTo id)) ≤ remaining (rest.take n) :=
    remaining_map_le fun fc _ => fc.skipTo_remaining_le id
  have split := remaining_append (rest.take n) (rest.drop n)
  rw [List.take_append_drop] at split
  have whole : remaining (fc :: rest) = fc.remaining + remaining rest := by simp [remaining]
  have first : remaining (skipFirst (n + 1) id (fc :: rest)) =
      (fc.skipTo id).remaining + remaining ((rest.take n).map (·.skipTo id)) + remaining (rest.drop n) := by
    simp [skipFirst, remaining]
    omega
  omega

theorem skipOthers_head {n : Nat} (id : EntryID) (s : FieldCursors) (pos : 0 < n) :
    (skipOthers n id s).head? = s.head? := by
  obtain ⟨n, rfl⟩ : ∃ m, n = m + 1 := ⟨n - 1, by omega⟩
  cases s <;> simp [skipOthers]

/-! ### What one round may step over -/

/-- Entries grouped by conjunction; an exclude entry vetoes its conjunction. -/
def byConj : Grouping EntryID ConjID where
  key := EntryID.getConjID
  veto := fun e => e.isInclude = false

def tapes (s : FieldCursors) : List (Tape EntryID) := s.map FieldCursor.tape

def Sorted (s : FieldCursors) : Prop := ∀ fc ∈ s, fc.Sorted

theorem sorted_perm {s t : FieldCursors} (perm : s.Perm t) (sorted : Sorted s) : Sorted t :=
  fun fc hfc => sorted fc (perm.mem_iff.mpr hfc)

theorem skipFirst_sorted {n : Nat} {id : EntryID} {s : FieldCursors} (sorted : Sorted s) :
    Sorted (skipFirst n id s) := by
  intro fc hfc
  rcases List.mem_append.mp hfc with first | other
  · obtain ⟨gc, hgc, rfl⟩ := List.mem_map.mp first
    exact (sorted gc (List.mem_of_mem_take hgc)).skipTo id
  · exact sorted fc (List.mem_of_mem_drop other)

theorem skipOthers_sorted {n : Nat} {id : EntryID} {s : FieldCursors} (sorted : Sorted s) :
    Sorted (skipOthers n id s) := by
  intro fc hfc
  rcases List.mem_append.mp hfc with first | other
  · exact sorted fc (List.mem_of_mem_take first)
  · obtain ⟨gc, hgc, rfl⟩ := List.mem_map.mp other
    have before := sorted gc (List.mem_of_mem_drop hgc)
    split
    · exact before.skipTo id
    · exact before

theorem round_sorted (n : Nat) (eid endEID : EntryID) {s : FieldCursors} (sorted : Sorted s) :
    Sorted (round n eid endEID s).1 := by
  unfold round
  dsimp only
  split
  · split
    · exact sorted_perm (sort_perm _).symm (skipFirst_sorted sorted)
    · exact sorted_perm (sort_perm _).symm (skipFirst_sorted (skipOthers_sorted sorted))
  · exact sorted_perm (sort_perm _).symm (skipFirst_sorted sorted)

/-- Skipping a cursor to `id` steps over entries of `lost` conjunctions only, if all others lie
at or above `id`. -/
theorem skipTo_skipped {lost : ConjID → Prop} {fc : FieldCursor} {id : EntryID} (sorted : fc.Sorted)
    (keep : ∀ e ∈ fc.tape.rest, ¬ lost e.getConjID → id ≤ e) : Skipped byConj lost fc.tape (fc.skipTo id).tape :=
  ⟨⟨fc.skipTo_all id, fun _ he => ((FieldCursor.mem_skipTo_rest sorted).mp he).1⟩,
    fun e he stays => (FieldCursor.mem_skipTo_rest sorted).mpr ⟨he, keep e he stays⟩⟩

theorem skipFirst_skipped {lost : ConjID → Prop} {n : Nat} {id : EntryID} {s : FieldCursors}
    {dead : List (Tape EntryID)}
    (sorted : Sorted s) (keep : ∀ fc ∈ s, ∀ e ∈ fc.tape.rest, ¬ lost e.getConjID → id ≤ e) :
    List.Forall₂ (Skipped byConj lost) (tapes s ++ dead) (tapes (skipFirst n id s) ++ dead) := by
  have first : List.Forall₂ (Skipped byConj lost) (tapes (s.take n)) (tapes ((s.take n).map (·.skipTo id))) := by
    rw [tapes, tapes, List.map_map, List.forall₂_map_left_iff, List.forall₂_map_right_iff, List.forall₂_same]
    intro fc hfc
    have mem := List.mem_of_mem_take hfc
    exact skipTo_skipped (sorted fc mem) (keep fc mem)
  have other : ∀ l : List (Tape EntryID), List.Forall₂ (Skipped byConj lost) l l :=
    fun l => List.forall₂_same.mpr fun t _ => Skipped.refl lost t
  have split : tapes s = tapes (s.take n) ++ tapes (s.drop n) := by
    rw [tapes, tapes, tapes, ← List.map_append, List.take_append_drop]
  have joined : tapes (skipFirst n id s) = tapes ((s.take n).map (·.skipTo id)) ++ tapes (s.drop n) := by
    simp [tapes, skipFirst]
  rw [split, joined]
  exact List.rel_append (List.rel_append first (other _)) (other _)

theorem skipOthers_skipped {lost : ConjID → Prop} {n : Nat} {id : EntryID} {s : FieldCursors}
    {dead : List (Tape EntryID)}
    (sorted : Sorted s) (keep : ∀ fc ∈ s, ∀ e ∈ fc.tape.rest, ¬ lost e.getConjID → id ≤ e) :
    List.Forall₂ (Skipped byConj lost) (tapes s ++ dead) (tapes (skipOthers n id s) ++ dead) := by
  have last : List.Forall₂ (Skipped byConj lost) (tapes (s.drop n))
      (tapes ((s.drop n).map (fun fc => if fc.getCurEntryID < id then fc.skipTo id else fc))) := by
    rw [tapes, tapes, List.map_map, List.forall₂_map_left_iff, List.forall₂_map_right_iff, List.forall₂_same]
    intro fc hfc
    have mem := List.mem_of_mem_drop hfc
    simp only [Function.comp_apply]
    split
    · exact skipTo_skipped (sorted fc mem) (keep fc mem)
    · exact Skipped.refl lost _
  have other : ∀ l : List (Tape EntryID), List.Forall₂ (Skipped byConj lost) l l :=
    fun l => List.forall₂_same.mpr fun t _ => Skipped.refl lost t
  have split : tapes s = tapes (s.take n) ++ tapes (s.drop n) := by
    rw [tapes, tapes, tapes, ← List.map_append, List.take_append_drop]
  have joined : tapes (skipOthers n id s) = tapes (s.take n) ++
      tapes ((s.drop n).map (fun fc => if fc.getCurEntryID < id then fc.skipTo id else fc)) := by
    simp [tapes, skipOthers]
  rw [split, joined]
  exact List.rel_append (List.rel_append (other _) last) (other _)

/-- Nothing below `id` is ahead once the first cursors skipped to it and the others stood at it. -/
theorem skipFirst_ge {n : Nat} {id e : EntryID} {s : FieldCursors} {dead : List (Tape EntryID)} {t : Tape EntryID}
    (sorted : Sorted s) (exhausted : ∀ t ∈ dead, t.rest = ∅)
    (others : ∀ fc ∈ s.drop n, ∀ e ∈ fc.tape.rest, id ≤ e)
    (ht : t ∈ tapes (skipFirst n id s) ++ dead) (he : e ∈ t.rest) : id ≤ e := by
  rcases List.mem_append.mp ht with live | gone
  · obtain ⟨fc, hfc, rfl⟩ := List.mem_map.mp live
    rcases List.mem_append.mp hfc with first | other
    · obtain ⟨gc, hgc, rfl⟩ := List.mem_map.mp first
      exact ((FieldCursor.mem_skipTo_rest (sorted gc (List.mem_of_mem_take hgc))).mp he).2
    · exact others fc other e he
  · rw [exhausted t gone] at he
    exact absurd he (Set.notMem_empty e)

section Round

variable {need : ConjID → Nat} {s : FieldCursors} {dead : List (Tape EntryID)} {taken : Set ConjID} {n : Nat}

theorem mem_rest_ge (ordered : Ordered s) (sorted : Sorted s) (exhausted : ∀ t ∈ dead, t.rest = ∅) (h : 0 < s.length)
    {t : Tape EntryID} (ht : t ∈ tapes s ++ dead) {e : EntryID} (he : e ∈ t.rest) :
    ValidEntry e ∧ s[0].getCurEntryID ≤ e := by
  rcases List.mem_append.mp ht with live | gone
  · obtain ⟨fc, hfc, rfl⟩ := List.mem_map.mp live
    exact ⟨FieldCursor.rest_valid (sorted fc hfc) he,
      le_trans (ordered_first ordered h hfc) (FieldCursor.cur_le (sorted fc hfc) he)⟩
  · rw [exhausted t gone] at he
    exact absurd he (Set.notMem_empty e)

/-- Fewer than `n` tapes have a conjunction ahead that none has from the `n`-th cursor on. -/
theorem count_ahead_lt {c : ConjID} (exhausted : ∀ t ∈ dead, t.rest = ∅) (pos : 0 < n) (enough : n ≤ s.length)
    (late : ∀ fc ∈ s.drop (n - 1), ∀ e ∈ fc.tape.rest, e.getConjID ≠ c) :
    count (byConj.Ahead c) (tapes s ++ dead) < n := by
  have split : tapes s = tapes (s.take (n - 1)) ++ tapes (s.drop (n - 1)) := by
    rw [tapes, tapes, tapes, ← List.map_append, List.take_append_drop]
  have after : count (byConj.Ahead c) (tapes (s.drop (n - 1))) = 0 := by
    apply count_eq_zero
    rintro t ht ⟨e, he, same⟩
    obtain ⟨fc, hfc, rfl⟩ := List.mem_map.mp ht
    exact late fc hfc e he same
  have none : count (byConj.Ahead c) dead = 0 := by
    apply count_eq_zero
    rintro t ht ⟨e, he, _⟩
    rw [exhausted t ht] at he
    exact absurd he (Set.notMem_empty e)
  have early := count_le_length (byConj.Ahead c) (tapes (s.take (n - 1)))
  rw [split, count_append, count_append, after, none]
  simp only [tapes, List.length_map, List.length_take] at early
  simp only [tapes]
  omega

theorem round_skip (ordered : Ordered s) (sorted : Sorted s) (exhausted : ∀ t ∈ dead, t.rest = ∅)
    (pos : 0 < n) (enough : n ≤ s.length) (matched : need s[0].getCurEntryID.getConjID = n)
    (mono : ∀ c d, ValidConjID d → c ≤ d → need c ≤ need d) (positive : ∀ c, 0 < need c)
    (scan : Scan byConj need (tapes s ++ dead) taken) :
    Scan byConj need
      (tapes (skipFirst n (newEntryID s[n - 1].getCurEntryID.getConjID false) s) ++ dead) taken := by
  have valid := getConjID_valid s[n - 1].getCurEntryID
  have step : List.Forall₂ (Skipped byConj (· < s[n - 1].getCurEntryID.getConjID)) (tapes s ++ dead)
      (tapes (skipFirst n (newEntryID s[n - 1].getCurEntryID.getConjID false) s) ++ dead) := by
    refine skipFirst_skipped sorted fun fc _ e _ stays => ?_
    exact (firstOfConj_le valid).mpr (not_lt.mp stays)
  refine scan.discard step ?_ positive ?_
  · intro c before some
    have few : count (byConj.Ahead c) (tapes s ++ dead) < n := by
      refine count_ahead_lt exhausted pos enough fun fc hfc e he same => ?_
      have ge := le_trans (ordered_drop ordered (by omega) hfc)
        (FieldCursor.cur_le (sorted fc (List.mem_of_mem_drop hfc)) he)
      exact absurd (getConjID_mono ge) (not_le.mpr (same ▸ before))
    -- the conjunction is ahead of some cursor, so it is not before the first cursor's
    simp only [Spent, not_forall, not_not] at some
    obtain ⟨t, ht, e, he, rfl⟩ := some
    obtain ⟨_, ge⟩ := mem_rest_ge ordered sorted exhausted (by omega) ht he
    have := mono _ _ (getConjID_valid e) (getConjID_mono ge)
    rw [matched] at this
    exact lt_of_lt_of_le few this
  · rintro c before t ht ⟨e, he, rfl⟩
    refine absurd ((firstOfConj_le valid).mp (skipFirst_ge sorted exhausted ?_ ht he)) (not_le.mpr before)
    intro fc hfc e he
    have mem : fc ∈ s.drop (n - 1) := by
      have : s.drop n = (s.drop (n - 1)).drop 1 := by rw [List.drop_drop]; congr 1; omega
      exact List.mem_of_mem_drop (this ▸ hfc)
    have ge := le_trans (ordered_drop ordered (by omega) mem)
      (FieldCursor.cur_le (sorted fc (List.mem_of_mem_drop hfc)) he)
    exact (firstOfConj_le valid).mpr (getConjID_mono ge)

theorem first_live (ordered : Ordered s) (enough : n ≤ s.length) (pos : 0 < n)
    (live : s[n - 1].getCurEntryID ≠ NULLENTRY) : s[0].getCurEntryID ≠ NULLENTRY := by
  intro null
  have le := ordered_first ordered (by omega) (List.getElem_mem (show n - 1 < s.length by omega))
  rw [null] at le
  exact live (le_antisymm (UInt64.le_allOnes _) le)

theorem keep_past (ordered : Ordered s) (sorted : Sorted s) (h : 0 < s.length) {fc : FieldCursor} (hfc : fc ∈ s)
    {e : EntryID} (he : e ∈ fc.tape.rest) (other : ¬ e.getConjID = s[0].getCurEntryID.getConjID) :
    newEntryID s[0].getCurEntryID.getConjID true + 1 ≤ e := by
  have valid := FieldCursor.rest_valid (sorted fc hfc) he
  have ge := le_trans (ordered_first ordered h hfc) (FieldCursor.cur_le (sorted fc hfc) he)
  refine (valid.pastConj_le (getConjID_valid _)).mpr (lt_of_le_of_ne (getConjID_mono ge) ?_)
  exact fun same => other same.symm

/-- When the first and the `n`-th cursor meet, all cursors between them have the conjunction ahead. -/
theorem count_front (ordered : Ordered s) (pos : 0 < n) (enough : n ≤ s.length)
    (live : s[n - 1].getCurEntryID ≠ NULLENTRY)
    (meet : s[0].getCurEntryID.getConjID = s[n - 1].getCurEntryID.getConjID) :
    count (byConj.Ahead s[0].getCurEntryID.getConjID) (tapes (s.take n)) = n := by
  rw [count_eq_length, tapes, List.length_map, List.length_take, Nat.min_eq_left enough]
  intro t ht
  obtain ⟨fc, hfc, rfl⟩ := List.mem_map.mp ht
  have le := ordered_take ordered (show n - 1 < s.length by omega) (by rwa [Nat.sub_add_cancel pos])
  have ge := ordered_first ordered (by omega) (List.mem_of_mem_take hfc)
  -- between the first and the n-th cursor every current entry belongs to the conjunction
  refine ⟨fc.getCurEntryID, FieldCursor.cur_mem ?_, le_antisymm ?_ (getConjID_mono ge)⟩
  · intro null
    rw [null] at le
    exact live (le_antisymm (UInt64.le_allOnes _) le)
  · rw [meet]
    exact getConjID_mono le

theorem round_take (ordered : Ordered s) (sorted : Sorted s) (exhausted : ∀ t ∈ dead, t.rest = ∅)
    (pos : 0 < n) (enough : n ≤ s.length) (live : s[n - 1].getCurEntryID ≠ NULLENTRY)
    (matched : need s[0].getCurEntryID.getConjID = n)
    (meet : s[0].getCurEntryID.getConjID = s[n - 1].getCurEntryID.getConjID)
    (incl : s[0].getCurEntryID.isInclude = true) (scan : Scan byConj need (tapes s ++ dead) taken) :
    Scan byConj need (tapes (skipFirst n (newEntryID s[0].getCurEntryID.getConjID true + 1) s) ++ dead)
      (insert s[0].getCurEntryID.getConjID taken) := by
  refine scan.take ?_ (by omega) ?_ ?_
  · exact skipFirst_skipped sorted fun fc hfc e he => keep_past ordered sorted (by omega) hfc he
  · have split : tapes s = tapes (s.take n) ++ tapes (s.drop n) := by
      rw [tapes, tapes, tapes, ← List.map_append, List.take_append_drop]
    rw [matched, split, count_append, count_append, count_front ordered pos enough live meet]
    omega
  · intro t ht e he same excl
    obtain ⟨valid, ge⟩ := mem_rest_ge ordered sorted exhausted (by omega) ht he
    have first := FieldCursor.rest_valid (sorted _ (List.getElem_mem (show 0 < s.length by omega)))
      (FieldCursor.cur_mem (first_live ordered enough pos live))
    -- an exclude entry of the conjunction would stand before the include entry of the first cursor
    rw [UInt64.le_iff_toNat_le, valid.toNat, first.toNat, incl, show e.getConjID = _ from same,
      show e.isInclude = false from excl] at ge
    simp at ge

theorem round_veto (ordered : Ordered s) (sorted : Sorted s) (exhausted : ∀ t ∈ dead, t.rest = ∅)
    (pos : 0 < n) (enough : n ≤ s.length) (live : s[n - 1].getCurEntryID ≠ NULLENTRY)
    (excl : s[0].getCurEntryID.isInclude = false) (scan : Scan byConj need (tapes s ++ dead) taken) :
    Scan byConj need
      (tapes (skipFirst n (newEntryID s[0].getCurEntryID.getConjID true + 1)
        (skipOthers n (newEntryID s[0].getCurEntryID.getConjID true + 1) s)) ++ dead) taken := by
  set id := newEntryID s[0].getCurEntryID.getConjID true + 1 with hid
  have sorted' : Sorted (skipOthers n id s) := skipOthers_sorted sorted
  have others : ∀ fc ∈ (skipOthers n id s).drop n, ∀ e ∈ fc.tape.rest, id ≤ e := by
    intro fc hfc e he
    have length : (s.take n).length = n := by rw [List.length_take]; omega
    rw [skipOthers, List.drop_append, length, Nat.sub_self, List.drop_zero,
      List.drop_of_length_le (by omega), List.nil_append] at hfc
    obtain ⟨gc, hgc, rfl⟩ := List.mem_map.mp hfc
    have before := sorted gc (List.mem_of_mem_drop hgc)
    split at he
    · exact ((FieldCursor.mem_skipTo_rest before).mp he).2
    · rename_i reached
      exact le_trans (not_lt.mp reached) (FieldCursor.cur_le before he)
  have step : List.Forall₂ (Skipped byConj (· = s[0].getCurEntryID.getConjID)) (tapes s ++ dead)
      (tapes (skipFirst n id (skipOthers n id s)) ++ dead) := by
    have first : List.Forall₂ (Skipped byConj (· = s[0].getCurEntryID.getConjID)) (tapes s ++ dead)
        (tapes (skipOthers n id s) ++ dead) :=
      skipOthers_skipped sorted fun fc hfc e he => keep_past ordered sorted (by omega) hfc he
    refine forall₂_skipped_trans first (skipFirst_skipped sorted' fun fc hfc e he other => ?_)
    obtain ⟨t, ht, adv⟩ := advanced_mem (forall₂_advanced first)
      (List.mem_append_left dead (List.mem_map_of_mem hfc))
    obtain ⟨valid, ge⟩ := mem_rest_ge ordered sorted exhausted (by omega) ht (adv.2 he)
    refine (valid.pastConj_le (getConjID_valid _)).mpr (lt_of_le_of_ne (getConjID_mono ge) ?_)
    exact fun same => other same.symm
  refine scan.veto step ?_ ?_
  · have mem := List.getElem_mem (show 0 < s.length by omega)
    exact ⟨_, List.mem_append_left dead (List.mem_map_of_mem mem), _,
      FieldCursor.cur_mem (first_live ordered enough pos live), rfl, excl⟩
  · rintro t ht ⟨e, he, same⟩
    have ge := skipFirst_ge sorted' exhausted others ht he
    rw [UInt64.le_iff_toNat_le, hid, pastConj_toNat (getConjID_valid _), ← show e.getConjID = _ from same] at ge
    have valid : ValidEntry e := by
      rcases List.mem_append.mp ht with live | gone
      · obtain ⟨fc, hfc, rfl⟩ := List.mem_map.mp live
        exact FieldCursor.rest_valid (skipFirst_sorted sorted' fc hfc) he
      · rw [exhausted t gone] at he
        exact absurd he (Set.notMem_empty e)
    rw [valid.toNat] at ge
    split at ge <;> omega

theorem round_scan (ordered : Ordered s) (sorted : Sorted s) (exhausted : ∀ t ∈ dead, t.rest = ∅)
    (pos : 0 < n) (enough : n ≤ s.length) (live : s[n - 1].getCurEntryID ≠ NULLENTRY)
    (matched : need s[0].getCurEntryID.getConjID = n)
    (mono : ∀ c d, ValidConjID d → c ≤ d → need c ≤ need d) (positive : ∀ c, 0 < need c)
    (scan : Scan byConj need (tapes s ++ dead) taken) :
    Scan byConj need (tapes (round n s[0].getCurEntryID s[n - 1].getCurEntryID s).1 ++ dead)
      (taken ∪ {c | c ∈ (round n s[0].getCurEntryID s[n - 1].getCurEntryID s).2}) := by
  have resort : ∀ {u : FieldCursors} {taken' : Set ConjID}, Scan byConj need (tapes u ++ dead) taken' →
      Scan byConj need (tapes (sort u) ++ dead) taken' :=
    fun scan => scan.perm (((sort_perm _).symm.map _).append_right dead)
  unfold round
  dsimp only
  split
  · rename_i meet
    rw [← meet]
    split
    · rename_i incl
      have next := resort (round_take ordered sorted exhausted pos enough live matched meet incl scan)
      rwa [show taken ∪ {c | c ∈ [s[0].getCurEntryID.getConjID]} = insert s[0].getCurEntryID.getConjID taken by
        ext c; simp [or_comm]]
    · rename_i excl
      simpa using resort (round_veto ordered sorted exhausted pos enough live (by simpa using excl) scan)
  · simpa using resort (round_skip ordered sorted exhausted pos enough matched mono positive scan)

theorem round_remaining (ordered : Ordered s) (sorted : Sorted s)
    (pos : 0 < n) (enough : n ≤ s.length) (live : s[n - 1].getCurEntryID ≠ NULLENTRY) :
    remaining (round n s[0].getCurEntryID s[n - 1].getCurEntryID s).1 < remaining s := by
  have first := FieldCursor.rest_valid (sorted _ (List.getElem_mem (show 0 < s.length by omega)))
    (FieldCursor.cur_mem (first_live ordered enough pos live))
  have head : s.head? = some s[0] := by rw [List.head?_eq_getElem?]; exact List.getElem?_eq_getElem _
  have past : s[0].getCurEntryID < newEntryID s[0].getCurEntryID.getConjID true + 1 := by
    rw [UInt64.lt_iff_toNat_lt, pastConj_toNat (getConjID_valid _), first.toNat]
    split <;> omega
  unfold round
  dsimp only
  split
  · rename_i meet
    rw [← meet]
    split
    · rw [remaining_perm (sort_perm _)]
      exact skipFirst_remaining pos head past
    · rw [remaining_perm (sort_perm _)]
      exact lt_of_lt_of_le (skipFirst_remaining pos ((skipOthers_head _ s pos).trans head) past)
        (skipOthers_remaining n _ s)
  · rename_i apart
    rw [remaining_perm (sort_perm _)]
    refine skipFirst_remaining pos head ?_
    have le := getConjID_mono (ordered_first ordered (by omega) (List.getElem_mem (show n - 1 < s.length by omega)))
    by_contra stays
    exact apart (le_antisymm le ((firstOfConj_le (getConjID_valid _)).mp (not_lt.mp stays)))

end Round

/-! ### The whole scan -/

theorem skipFirst_all (n : Nat) (id : EntryID) (s : FieldCursors) :
    (tapes (skipFirst n id s)).map Tape.all = (tapes s).map Tape.all := by
  have split : tapes s = tapes (s.take n) ++ tapes (s.drop n) := by
    rw [tapes, tapes, tapes, ← List.map_append, List.take_append_drop]
  rw [split]
  simp only [tapes, skipFirst, List.map_append, List.map_map, Function.comp_def, FieldCursor.skipTo_all]

theorem skipOthers_all (n : Nat) (id : EntryID) (s : FieldCursors) :
    (tapes (skipOthers n id s)).map Tape.all = (tapes s).map Tape.all := by
  have split : tapes s = tapes (s.take n) ++ tapes (s.drop n) := by
    rw [tapes, tapes, tapes, ← List.map_append, List.take_append_drop]
  have either : ∀ fc : FieldCursor,
      (if fc.getCurEntryID < id then fc.skipTo id else fc).tape.all = fc.tape.all := by
    intro fc
    split
    · exact fc.skipTo_all id
    · rfl
  rw [split]
  simp only [tapes, skipOthers, List.map_append, List.map_map, Function.comp_def, either]

theorem round_all (n : Nat) (eid endEID : EntryID) (s : FieldCursors) :
    ((tapes (round n eid endEID s).1).map Tape.all).Perm ((tapes s).map Tape.all) := by
  have resort : ∀ u : FieldCursors, ((tapes (sort u)).map Tape.all).Perm ((tapes u).map Tape.all) :=
    fun u => ((sort_perm u).map _).map _
  unfold round
  dsimp only
  split
  · split
    · exact skipFirst_all n _ s ▸ resort _
    · exact skipOthers_all n _ s ▸ skipFirst_all n _ (skipOthers n _ s) ▸ resort _
  · exact skipFirst_all n _ s ▸ resort _

theorem round_ordered (n : Nat) (eid endEID : EntryID) (s : FieldCursors) : Ordered (round n eid endEID s).1 := by
  unfold round
  dsimp only
  split
  · split <;> exact sort_ordered _
  · exact sort_ordered _

theorem retrieveKLoop_exact (n : Nat) (s : FieldCursors) (pos : 0 < n) (enough : n ≤ s.length)
    (ordered : Ordered s) (sorted : Sorted s) {taken : Set ConjID}
    (scan : Scan byConj (fun _ => n) (tapes s) taken) :
    ∃ adds, retrieveKLoop n s pos enough = .ok adds ∧
      ∀ c, c ∈ adds ∨ c ∈ taken ↔ Hit byConj (fun _ => n) (tapes s) c := by
  induction rounds : remaining s using Nat.strongRecOn generalizing s taken with
  | ind k ih =>
    rw [retrieveKLoop]
    split
    · rename_i ended
      have null : s[n - 1].getCurEntryID = NULLENTRY := by simpa [EntryID.isNULLEntry] using ended
      refine ⟨[], rfl, fun c => ?_⟩
      simp only [List.not_mem_nil, false_or]
      refine scan.exact (fun _ => pos) (fun c _ => ?_) c
      have few : count (byConj.Ahead c) (tapes s ++ []) < n := by
        refine count_ahead_lt (by simp) pos enough fun fc hfc e he => ?_
        have ge := ordered_drop ordered (by omega) hfc
        rw [null] at ge
        rw [FieldCursor.rest_empty (sorted fc (List.mem_of_mem_drop hfc)) (le_antisymm (UInt64.le_allOnes _) ge)] at he
        exact absurd he (Set.notMem_empty e)
      simpa using few
    · rename_i running
      have live : s[n - 1].getCurEntryID ≠ NULLENTRY := by simpa [EntryID.isNULLEntry] using running
      have unread : Scan byConj (fun _ => n) (tapes s ++ []) taken := by simpa using scan
      have next := round_scan ordered sorted (by simp) pos enough live rfl (fun _ _ _ _ => le_rfl) (fun _ => pos) unread
      have progress := round_remaining ordered sorted pos enough live
      rw [List.append_nil] at next
      obtain ⟨adds, run, adds_iff⟩ := ih _ (rounds ▸ progress) _ (by rw [round_length]; exact enough)
        (round_ordered _ _ _ _) (round_sorted _ _ _ sorted) next rfl
      dsimp only
      rw [if_pos progress, run]
      refine ⟨_, rfl, fun c => ?_⟩
      rw [← hit_all (round_all n _ _ s), ← adds_iff c, List.mem_append]
      simp only [Set.mem_union, Set.mem_ofPred_eq, or_comm, or_left_comm]

theorem dropEnded_split (s : FieldCursors) :
    ∃ ended : FieldCursors, s = dropEnded s ++ ended ∧ ∀ fc ∈ ended, fc.reachEnd = true := by
  refine ⟨(s.reverse.takeWhile FieldCursor.reachEnd).reverse, ?_, fun fc hfc => ?_⟩
  · rw [dropEnded, ← List.reverse_append, List.takeWhile_append_dropWhile, List.reverse_reverse]
  · have all := List.all_takeWhile (l := s.reverse) (p := FieldCursor.reachEnd)
    exact List.all_eq_true.mp all fc (List.mem_reverse.mp hfc)

theorem dropEnded_ordered {s : FieldCursors} (ordered : Ordered s) : Ordered (dropEnded s) := by
  obtain ⟨ended, split, _⟩ := dropEnded_split s
  exact (List.pairwise_append.mp (split ▸ ordered)).1

theorem dropEnded_live {s : FieldCursors} (ordered : Ordered s) {fc : FieldCursor} (hfc : fc ∈ dropEnded s) :
    fc.getCurEntryID ≠ NULLENTRY := by
  have nonempty : s.reverse.dropWhile FieldCursor.reachEnd ≠ [] := by
    intro empty
    rw [dropEnded, empty] at hfc
    simp at hfc
  have lastLive := List.head_dropWhile_not FieldCursor.reachEnd nonempty
  obtain ⟨last, front, eq⟩ := List.exists_cons_of_ne_nil nonempty
  simp only [eq, List.head_cons] at lastLive
  have kept := dropEnded_ordered ordered
  rw [dropEnded, eq, List.reverse_cons] at hfc kept
  have le : fc.getCurEntryID ≤ last.getCurEntryID := by
    rcases List.mem_append.mp hfc with before | isLast
    · exact (List.pairwise_append.mp kept).2.2 fc before last List.mem_cons_self
    · rw [List.mem_singleton.mp isLast]
  intro null
  rw [null] at le
  have ended : last.reachEnd = true := FieldCursor.reachEnd_iff.mpr (le_antisymm (UInt64.le_allOnes _) le)
  rw [ended] at lastLive
  exact absurd lastLive (by decide)

theorem dropEnded_dead {s : FieldCursors} {dead : List (Tape EntryID)} (sorted : Sorted s)
    (exhausted : ∀ t ∈ dead, t.rest = ∅) :
    ∃ dead', (∀ t ∈ dead', t.rest = ∅) ∧ tapes s ++ dead = tapes (dropEnded s) ++ dead' := by
  obtain ⟨ended, split, atEnd⟩ := dropEnded_split s
  refine ⟨tapes ended ++ dead, ?_, ?_⟩
  · intro t ht
    rcases List.mem_append.mp ht with cut | gone
    · obtain ⟨fc, hfc, rfl⟩ := List.mem_map.mp cut
      have mem : fc ∈ s := by
        rw [split]
        exact List.mem_append_right _ hfc
      exact FieldCursor.rest_empty (sorted fc mem) (FieldCursor.reachEnd_iff.mp (atEnd fc hfc))
    · exact exhausted t gone
  · conv_lhs => rw [split]
    simp [tapes]

theorem dropEnded_sorted {s : FieldCursors} (sorted : Sorted s) : Sorted (dropEnded s) := by
  obtain ⟨ended, split, _⟩ := dropEnded_split s
  intro fc hfc
  apply sorted
  rw [split]
  exact List.mem_append_left _ hfc

theorem dropEnded_remaining (s : FieldCursors) : remaining (dropEnded s) ≤ remaining s := by
  obtain ⟨ended, split, _⟩ := dropEnded_split s
  have parts := remaining_append (dropEnded s) ended
  rw [← split] at parts
  omega

/-- The number of conjuncts a conjunction id of the compact index has to match. -/
def needMatch (c : ConjID) : Nat := max 1 c.size

theorem needMatch_mono (c d : ConjID) (hd : ValidConjID d) (le : c ≤ d) : needMatch c ≤ needMatch d := by
  have := size_mono hd le
  simp only [needMatch]
  omega

theorem needMatch_pos (c : ConjID) : 0 < needMatch c := by
  simp only [needMatch]
  omega

/-- When the conjunction of the first cursor needs more cursors than there are, every one does. -/
theorem retrieveLoop_done {s : FieldCursors} {dead : List (Tape EntryID)} {taken : Set ConjID} (ordered : Ordered s)
    (sorted : Sorted s) (exhausted : ∀ t ∈ dead, t.rest = ∅)
    (few : ∀ h : 0 < s.length, s.length < needMatch s[0].getCurEntryID.getConjID)
    (scan : Scan byConj needMatch (tapes s ++ dead) taken) (c : ConjID) :
    c ∈ taken ↔ Hit byConj needMatch (tapes s ++ dead) c := by
  refine scan.exact needMatch_pos (fun c some => ?_) c
  simp only [Spent, not_forall, not_not] at some
  obtain ⟨t, ht, e, he, rfl⟩ := some
  have nonempty : 0 < s.length := by
    rcases List.mem_append.mp ht with live | gone
    · obtain ⟨fc, hfc, rfl⟩ := List.mem_map.mp live
      exact List.length_pos_of_mem hfc
    · rw [exhausted t gone] at he
      exact absurd he (Set.notMem_empty e)
  obtain ⟨_, ge⟩ := mem_rest_ge ordered sorted exhausted nonempty ht he
  have need := needMatch_mono _ _ (getConjID_valid e) (getConjID_mono ge)
  have none : count (byConj.Ahead (byConj.key e)) dead = 0 := by
    apply count_eq_zero
    rintro t ht ⟨e, he, _⟩
    rw [exhausted t ht] at he
    exact absurd he (Set.notMem_empty e)
  have some := count_le_length (byConj.Ahead (byConj.key e)) (tapes s)
  rw [count_append, none]
  simp only [tapes, List.length_map] at some ⊢
  have := few nonempty
  change _ < needMatch e.getConjID
  omega

theorem retrieveLoop_exact (s : FieldCursors) (dead : List (Tape EntryID)) (ordered : Ordered s) (sorted : Sorted s)
    (live : ∀ fc ∈ s, fc.getCurEntryID ≠ NULLENTRY) (exhausted : ∀ t ∈ dead, t.rest = ∅) {taken : Set ConjID}
    (scan : Scan byConj needMatch (tapes s ++ dead) taken) :
    ∃ adds, retrieveLoop s = .ok adds ∧
      ∀ c, c ∈ adds ∨ c ∈ taken ↔ Hit byConj needMatch (tapes s ++ dead) c := by
  induction rounds : remaining s using Nat.strongRecOn generalizing s dead taken with
  | ind k ih =>
    rw [retrieveLoop]
    split
    · rename_i nonempty
      dsimp only
      split
      · rename_i few
        refine ⟨[], rfl, fun c => ?_⟩
        simp only [List.not_mem_nil, false_or]
        exact retrieveLoop_done ordered sorted exhausted (fun _ => few) scan c
      · rename_i enough
        have pos := needMatch_pos s[0].getCurEntryID.getConjID
        have le : needMatch s[0].getCurEntryID.getConjID ≤ s.length := not_lt.mp enough
        have alive := live _ (List.getElem_mem (show needMatch s[0].getCurEntryID.getConjID - 1 < s.length by omega))
        have next := round_scan ordered sorted exhausted pos le alive rfl needMatch_mono needMatch_pos scan
        have progress := round_remaining ordered sorted pos le alive
        have all := round_all (needMatch s[0].getCurEntryID.getConjID) s[0].getCurEntryID
          s[needMatch s[0].getCurEntryID.getConjID - 1].getCurEntryID s
        have ordered' := round_ordered (needMatch s[0].getCurEntryID.getConjID) s[0].getCurEntryID
          s[needMatch s[0].getCurEntryID.getConjID - 1].getCurEntryID s
        have sorted' := round_sorted (needMatch s[0].getCurEntryID.getConjID) s[0].getCurEntryID
          s[needMatch s[0].getCurEntryID.getConjID - 1].getCurEntryID sorted
        simp only [needMatch] at next progress all ordered' sorted'
        generalize hr : round (max 1 s[0].getCurEntryID.getConjID.size) s[0].getCurEntryID
          s[max 1 s[0].getCurEntryID.getConjID.size - 1].getCurEntryID s = r at next progress all ordered' sorted' ⊢
        obtain ⟨dead', exhausted', joined⟩ := dropEnded_dead sorted' exhausted
        have shrinks : remaining (dropEnded r.1) < remaining s := (dropEnded_remaining r.1).trans_lt progress
        obtain ⟨adds, run, adds_iff⟩ := ih _ (rounds ▸ shrinks) (dropEnded r.1) dead' (dropEnded_ordered ordered')
          (dropEnded_sorted sorted') (fun fc hfc => dropEnded_live ordered' hfc) exhausted' (joined ▸ next) rfl
        rw [if_pos shrinks, run]
        refine ⟨_, rfl, fun c => ?_⟩
        have same : Hit byConj needMatch (tapes s ++ dead) c ↔
            Hit byConj needMatch (tapes (dropEnded r.1) ++ dead') c := by
          rw [← joined]
          refine hit_all ?_
          rw [List.map_append, List.map_append]
          exact (all.append_right _).symm
        rw [same, ← adds_iff c, List.mem_append]
        simp only [Set.mem_union, Set.mem_ofPred_eq, or_assoc, or_comm]
    · rename_i empty
      refine ⟨[], rfl, fun c => ?_⟩
      simp only [List.not_mem_nil, false_or]
      exact retrieveLoop_done ordered sorted exhausted (fun h => absurd h empty) scan c

def Unread (s : FieldCursors) : Prop := ∀ fc ∈ s, fc.tape.rest = fc.tape.all

theorem unread_scan {need : ConjID → Nat} {s : FieldCursors} (unread : Unread s) : Scan byConj need (tapes s) ∅ := by
  refine Scan.start _ fun t ht => ?_
  obtain ⟨fc, hfc, rfl⟩ := List.mem_map.mp ht
  exact unread fc hfc

theorem sort_unread {s : FieldCursors} (unread : Unread s) : Unread (sort s) :=
  fun fc hfc => unread fc ((sort_perm s).mem_iff.mp hfc)

end FieldCursors

/-! ### Cursors that were just made -/

/-- A cursor just made over a nonempty sorted posting list of entry ids of conjunctions. -/
def EntriesCursor.Fresh (ec : EntriesCursor) : Prop :=
  ∃ entries, ec = newEntriesCursor entries ∧ entries ≠ [] ∧ entries.Pairwise (· ≤ ·) ∧ ∀ e ∈ entries, ValidEntry e

theorem EntriesCursor.Fresh.cur_mem {ec : EntriesCursor} (fresh : ec.Fresh) : ec.curEID ∈ ec.entries := by
  obtain ⟨entries, rfl, nonempty, _⟩ := fresh
  obtain ⟨e, rest, rfl⟩ := List.exists_cons_of_ne_nil nonempty
  simp [newEntriesCursor, EntriesCursor.moveTo]

theorem newFieldCursor_fresh {c : EntriesCursor} {cs : EntriesCursors} (fresh : ∀ d ∈ c :: cs, d.Fresh) :
    (newFieldCursor c cs).Sorted ∧ (newFieldCursor c cs).tape.rest = (newFieldCursor c cs).tape.all ∧
      (newFieldCursor c cs).getCurEntryID ≠ NULLENTRY := by
  refine ⟨fun d hd => ?_, ?_, ?_⟩
  · obtain ⟨entries, rfl, _, sorted, valid⟩ := fresh d hd
    exact ⟨sorted, valid⟩
  · ext e
    refine ⟨fun ⟨d, hd, he⟩ => ⟨d, hd, List.mem_of_mem_drop he⟩, fun ⟨d, hd, he⟩ => ⟨d, hd, ?_⟩⟩
    obtain ⟨entries, rfl, _⟩ := fresh d hd
    exact he
  · obtain ⟨d, hd, same⟩ := (newFieldCursor c cs).least.1
    obtain ⟨entries, made, _, _, valid⟩ := fresh d hd
    have mem := (fresh d hd).cur_mem
    rw [FieldCursor.getCurEntryID, ← same]
    refine (valid d.curEID ?_).ne_null
    rw [made] at mem ⊢
    exact mem

open FieldCursors in
/-- `retrieveK` ends, and adds exactly the conjunctions that `needMatchCnt` fields include and none excludes. -/
theorem retrieveK_adds {s : FieldCursors} {n : Nat} (pos : 0 < n) (sorted : Sorted s) (unread : Unread s) :
    ∃ adds, retrieveK s n pos = .ok adds ∧ ∀ c, c ∈ adds ↔ Hit byConj (fun _ => n) (tapes s) c := by
  unfold retrieveK
  split
  · rename_i enough
    obtain ⟨adds, run, adds_iff⟩ := retrieveKLoop_exact n s.sort pos
      (by rw [(sort_perm _).length_eq]; exact enough) (sort_ordered _) (sorted_perm (sort_perm _).symm sorted)
      (unread_scan (sort_unread unread))
    refine ⟨adds, run, fun c => ?_⟩
    have perm : (tapes s.sort).Perm (tapes s) := (sort_perm s).map FieldCursor.tape
    rw [← hit_perm perm]
    simpa using adds_iff c
  · rename_i few
    refine ⟨[], rfl, fun c => ?_⟩
    simp only [List.not_mem_nil, false_iff]
    intro hit
    have bound := count_le_length (byConj.Holds c) (tapes s)
    have need := hit.1
    simp only [tapes, List.length_map] at bound need
    omega

open FieldCursors in
/-- The compact loop ends, and adds exactly the conjunctions that their size of fields include and
none excludes. -/
theorem retrieveLoop_adds {s : FieldCursors} (sorted : Sorted s) (unread : Unread s)
    (live : ∀ fc ∈ s, fc.getCurEntryID ≠ NULLENTRY) :
    ∃ adds, retrieveLoop s.sort = .ok adds ∧ ∀ c, c ∈ adds ↔ Hit byConj needMatch (tapes s) c := by
  obtain ⟨adds, run, adds_iff⟩ := retrieveLoop_exact s.sort [] (sort_ordered _)
    (sorted_perm (sort_perm _).symm sorted) (fun fc hfc => live fc ((sort_perm s).mem_iff.mp hfc)) (by simp)
    (by simpa using unread_scan (sort_unread unread))
  refine ⟨adds, run, fun c => ?_⟩
  have perm : (tapes s.sort).Perm (tapes s) := (sort_perm s).map FieldCursor.tape
  rw [← hit_perm perm]
  simpa using adds_iff c

end BeIndexer
