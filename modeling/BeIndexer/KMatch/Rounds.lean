import BeIndexer.KMatch
import Mathlib.Logic.Relation

/-!
# The rounds of the K-match loops

Both loops on cursors that were just made, whatever lists they are over: what they add, and what
every round they can reach does to the cursors.
-/

namespace BeIndexer

open Leapfrog

/-! ### What the loops have to find -/

/-- Some posting list of the group has an entry of the conjunction. -/
def FieldCursor.HasConj (c : ConjID) (fc : FieldCursor) : Prop :=
  ∃ ec ∈ fc.cursorGroup, ∃ e ∈ ec.entries, e.getConjID = c

instance (c : ConjID) (fc : FieldCursor) : Decidable (fc.HasConj c) :=
  inferInstanceAs (Decidable (∃ ec ∈ fc.cursorGroup, ∃ e ∈ ec.entries, e.getConjID = c))

/-- Some posting list of the group has the exclude entry of the conjunction. -/
def FieldCursor.Excludes (c : ConjID) (fc : FieldCursor) : Prop :=
  ∃ ec ∈ fc.cursorGroup, newEntryID c false ∈ ec.entries

instance (c : ConjID) (fc : FieldCursor) : Decidable (fc.Excludes c) :=
  inferInstanceAs (Decidable (∃ ec ∈ fc.cursorGroup, newEntryID c false ∈ ec.entries))

namespace FieldCursors

/-- At least `n` of the cursors have entries of the conjunction and none has its exclude entry. -/
def Meet (s : FieldCursors) (n : Nat) (c : ConjID) : Prop :=
  n ≤ s.countP (fun fc => fc.HasConj c) ∧ ∀ fc ∈ s, ¬ fc.Excludes c

instance (s : FieldCursors) (n : Nat) (c : ConjID) : Decidable (s.Meet n c) :=
  inferInstanceAs (Decidable (_ ∧ _))

theorem hit_iff_meet {s : FieldCursors} (sorted : Sorted s) {need : ConjID → Nat} {c : ConjID} (some : 0 < need c) :
    Hit byConj need (tapes s) c ↔ s.Meet (need c) c := by
  have holds : ∀ fc : FieldCursor, byConj.Holds c fc.tape ↔ fc.HasConj c := by
    intro fc
    constructor
    · rintro ⟨e, ⟨ec, hec, he⟩, key⟩
      exact ⟨ec, hec, e, he, key⟩
    · rintro ⟨ec, hec, e, he, key⟩
      exact ⟨e, ⟨ec, hec, he⟩, key⟩
  have counts : count (byConj.Holds c) (tapes s) = s.countP fun fc => fc.HasConj c := by
    rw [count, tapes, List.countP_map]
    exact List.countP_congr fun fc _ => by simpa using holds fc
  rw [Hit, counts, Meet]
  refine and_congr_right fun enough => ?_
  -- enough cursors have the conjunction, so its id is a valid one
  have valid : ValidConjID c := by
    obtain ⟨fc, hfc, has⟩ := List.countP_pos_iff.mp (lt_of_lt_of_le some enough)
    obtain ⟨ec, hec, e, he, rfl⟩ := of_decide_eq_true has
    exact getConjID_valid e
  constructor
  · rintro none fc hfc ⟨ec, hec, he⟩
    refine none fc.tape (List.mem_map_of_mem hfc) _ ⟨ec, hec, he⟩ (getConjID_newEntryID valid false) ?_
    exact isInclude_newEntryID valid false
  · intro none t ht e he key veto
    obtain ⟨fc, hfc, rfl⟩ := List.mem_map.mp ht
    obtain ⟨ec, hec, he⟩ := he
    refine none fc hfc ⟨ec, hec, ?_⟩
    have entry := ((sorted fc hfc ec hec).2 e he).eq
    rw [show e.getConjID = c from key, show e.isInclude = false from veto] at entry
    rwa [← entry]

/-! ### Rounds -/

/-- One turn of the loop of `retrieveK`. -/
def RoundK (n : Nat) (s s' : FieldCursors) : Prop :=
  ∃ first last, s[0]? = some first ∧ s[n - 1]? = some last ∧ last.getCurEntryID ≠ NULLENTRY ∧
    s' = (round n first.getCurEntryID last.getCurEntryID s).1

/-- One turn of the loop of the compact index. -/
def RoundLoop (s s' : FieldCursors) : Prop :=
  ∃ first last, s[0]? = some first ∧ s[needMatch first.getCurEntryID.getConjID - 1]? = some last ∧
    s' = dropEnded (round (needMatch first.getCurEntryID.getConjID) first.getCurEntryID last.getCurEntryID s).1

end FieldCursors

/-- No cursor of the group goes back. -/
def FieldCursor.GoesOn (fc gc : FieldCursor) : Prop :=
  List.Forall₂ (fun c d : EntriesCursor => d.entries = c.entries ∧ c.cursor ≤ d.cursor) fc.cursorGroup gc.cursorGroup

theorem FieldCursor.GoesOn.refl (fc : FieldCursor) : fc.GoesOn fc := List.forall₂_same.mpr fun _ _ => ⟨rfl, le_rfl⟩

theorem FieldCursor.GoesOn.trans {fc gc hc : FieldCursor} (first : fc.GoesOn gc) (second : gc.GoesOn hc) :
    fc.GoesOn hc := by
  refine forall₂_join (fun d c e h₁ h₂ => ⟨h₂.1.trans h₁.1, h₁.2.trans h₂.2⟩) first.flip second

theorem FieldCursor.skipTo_goesOn {fc : FieldCursor} (sorted : fc.Sorted) (id : EntryID) :
    fc.GoesOn (fc.skipTo id) := by
  rw [GoesOn, skipTo, List.forall₂_map_right_iff, List.forall₂_same]
  intro c hc
  refine ⟨c.skipTo_entries id, ?_⟩
  rcases lt_or_ge c.curEID id with lt | ge
  · exact (EntriesCursor.skipTo_firstFrom (sorted c hc).1 lt).ge
  · rw [EntriesCursor.skipTo, if_pos ge]

namespace FieldCursors

theorem skipFirst_goesOn {s : FieldCursors} (sorted : Sorted s) (n : Nat) (id : EntryID) :
    List.Forall₂ FieldCursor.GoesOn s (skipFirst n id s) := by
  have first : List.Forall₂ FieldCursor.GoesOn (s.take n) ((s.take n).map (·.skipTo id)) := by
    rw [List.forall₂_map_right_iff, List.forall₂_same]
    exact fun fc hfc => FieldCursor.skipTo_goesOn (sorted fc (List.mem_of_mem_take hfc)) id
  have other : List.Forall₂ FieldCursor.GoesOn (s.drop n) (s.drop n) :=
    List.forall₂_same.mpr fun fc _ => FieldCursor.GoesOn.refl fc
  have whole : List.Forall₂ FieldCursor.GoesOn (s.take n ++ s.drop n) _ := List.rel_append first other
  rwa [List.take_append_drop] at whole

theorem skipOthers_goesOn {s : FieldCursors} (sorted : Sorted s) (n : Nat) (id : EntryID) :
    List.Forall₂ FieldCursor.GoesOn s (skipOthers n id s) := by
  have first : List.Forall₂ FieldCursor.GoesOn (s.take n) (s.take n) :=
    List.forall₂_same.mpr fun fc _ => FieldCursor.GoesOn.refl fc
  have other : List.Forall₂ FieldCursor.GoesOn (s.drop n)
      ((s.drop n).map fun fc => if fc.getCurEntryID < id then fc.skipTo id else fc) := by
    rw [List.forall₂_map_right_iff, List.forall₂_same]
    intro fc hfc
    split
    · exact FieldCursor.skipTo_goesOn (sorted fc (List.mem_of_mem_drop hfc)) id
    · exact FieldCursor.GoesOn.refl fc
  have whole : List.Forall₂ FieldCursor.GoesOn (s.take n ++ s.drop n) _ := List.rel_append first other
  rwa [List.take_append_drop] at whole

theorem round_goesOn {s : FieldCursors} (sorted : Sorted s) (n : Nat) (eid endEID : EntryID) :
    ∃ moved, (round n eid endEID s).1.Perm moved ∧ List.Forall₂ FieldCursor.GoesOn s moved := by
  unfold round
  dsimp only
  split
  · split
    · exact ⟨_, sort_perm _, skipFirst_goesOn sorted _ _⟩
    · refine ⟨_, sort_perm _, ?_⟩
      exact forall₂_join (R := fun gc fc => fc.GoesOn gc) (fun _ _ _ first second => first.trans second)
        (skipOthers_goesOn sorted n _).flip
        (skipFirst_goesOn (skipOthers_sorted sorted) _ _)
  · exact ⟨_, sort_perm _, skipFirst_goesOn sorted _ _⟩

/-- The cursors go on to be those of `s'` and some that are finished, and fewer entries are ahead. -/
def Advances (s s' : FieldCursors) : Prop :=
  ∃ moved ended, (s' ++ ended).Perm moved ∧ (∀ fc ∈ ended, fc.reachEnd = true) ∧
    List.Forall₂ FieldCursor.GoesOn s moved ∧ remaining moved < remaining s

theorem RoundK.advances {n : Nat} {s s' : FieldCursors} (pos : 0 < n) (ordered : Ordered s) (sorted : Sorted s)
    (step : RoundK n s s') : Advances s s' := by
  obtain ⟨first, last, head, nth, live, rfl⟩ := step
  obtain ⟨inside, rfl⟩ := List.getElem?_eq_some_iff.mp nth
  obtain ⟨_, rfl⟩ := List.getElem?_eq_some_iff.mp head
  obtain ⟨moved, perm, goesOn⟩ := round_goesOn sorted n s[0].getCurEntryID s[n - 1].getCurEntryID
  refine ⟨moved, [], by simpa using perm, by simp, goesOn, ?_⟩
  rw [← remaining_perm perm]
  exact round_remaining ordered sorted pos (by omega) live

theorem RoundLoop.advances {s s' : FieldCursors} (ordered : Ordered s) (sorted : Sorted s)
    (live : ∀ fc ∈ s, fc.getCurEntryID ≠ NULLENTRY) (step : RoundLoop s s') : Advances s s' := by
  obtain ⟨first, last, head, nth, rfl⟩ := step
  have pos := needMatch_pos first.getCurEntryID.getConjID
  generalize needMatch first.getCurEntryID.getConjID = n at pos nth ⊢
  obtain ⟨inside, rfl⟩ := List.getElem?_eq_some_iff.mp nth
  obtain ⟨_, rfl⟩ := List.getElem?_eq_some_iff.mp head
  obtain ⟨moved, perm, goesOn⟩ := round_goesOn sorted n s[0].getCurEntryID s[n - 1].getCurEntryID
  obtain ⟨ended, split, atEnd⟩ := dropEnded_split (round n s[0].getCurEntryID s[n - 1].getCurEntryID s).1
  refine ⟨moved, ended, ?_, atEnd, goesOn, ?_⟩
  · rwa [← split]
  · rw [← remaining_perm perm]
    exact round_remaining ordered sorted pos (by omega) (live _ (List.getElem_mem inside))

theorem reachedK {n : Nat} {s t : FieldCursors} (ordered : Ordered s) (sorted : Sorted s)
    (rounds : Relation.ReflTransGen (RoundK n) s t) : Ordered t ∧ Sorted t := by
  induction rounds with
  | refl => exact ⟨ordered, sorted⟩
  | tail _ step ih =>
    obtain ⟨first, last, _, _, _, rfl⟩ := step
    exact ⟨round_ordered _ _ _ _, round_sorted _ _ _ ih.2⟩

theorem reachedLoop {s t : FieldCursors} (ordered : Ordered s) (sorted : Sorted s)
    (live : ∀ fc ∈ s, fc.getCurEntryID ≠ NULLENTRY) (rounds : Relation.ReflTransGen RoundLoop s t) :
    Ordered t ∧ Sorted t ∧ ∀ fc ∈ t, fc.getCurEntryID ≠ NULLENTRY := by
  induction rounds with
  | refl => exact ⟨ordered, sorted, live⟩
  | @tail t u _ step ih =>
    obtain ⟨first, last, _, _, rfl⟩ := step
    have ordered' := round_ordered (needMatch first.getCurEntryID.getConjID) first.getCurEntryID last.getCurEntryID t
    have sorted' := round_sorted (needMatch first.getCurEntryID.getConjID) first.getCurEntryID last.getCurEntryID ih.2.1
    generalize (round (needMatch first.getCurEntryID.getConjID) first.getCurEntryID last.getCurEntryID t).1 = r
      at ordered' sorted' ⊢
    obtain ⟨ended, split, _⟩ := dropEnded_split r
    refine ⟨(List.pairwise_append.mp (split ▸ ordered')).1, fun fc hfc => sorted' fc ?_,
      fun fc hfc => dropEnded_live ordered' hfc⟩
    rw [split]
    exact List.mem_append_left _ hfc

end FieldCursors

/-- The current entry is the least of the current entries of the group. -/
def FieldCursor.ShowsLeast (fc : FieldCursor) : Prop :=
  (∃ c ∈ fc.cursorGroup, c.curEID = fc.getCurEntryID) ∧ ∀ c ∈ fc.cursorGroup, fc.getCurEntryID ≤ c.curEID

open FieldCursors in
/-- On cursors that were just made both loops end and add exactly the conjunctions that enough
cursors have and none excludes; every round on the way advances, and every cursor shows its least
entry. -/
theorem kmatch_exact {groups : List (EntriesCursor × EntriesCursors)}
    (fresh : ∀ g ∈ groups, ∀ c ∈ g.1 :: g.2, c.Fresh) :
    let s : FieldCursors := groups.map fun g => newFieldCursor g.1 g.2
    (∀ (n : Nat) (pos : 0 < n),
      (∃ adds, retrieveK s n pos = .ok adds ∧ ∀ c, c ∈ adds ↔ s.Meet n c) ∧
      ∀ t, Relation.ReflTransGen (RoundK n) s.sort t →
        (∀ fc ∈ t, fc.ShowsLeast) ∧ ∀ t', RoundK n t t' → Advances t t') ∧
    (∃ adds, retrieveLoop s.sort = .ok adds ∧ ∀ c, c ∈ adds ↔ s.Meet (max 1 c.size) c) ∧
    ∀ t, Relation.ReflTransGen RoundLoop s.sort t →
      (∀ fc ∈ t, fc.ShowsLeast) ∧ ∀ t', RoundLoop t t' → Advances t t' := by
  intro s
  have each : ∀ fc ∈ s, fc.Sorted ∧ fc.tape.rest = fc.tape.all ∧ fc.getCurEntryID ≠ NULLENTRY := by
    intro fc hfc
    obtain ⟨g, hg, rfl⟩ := List.mem_map.mp hfc
    exact newFieldCursor_fresh (fresh g hg)
  have sorted : Sorted s := fun fc hfc => (each fc hfc).1
  have unread : Unread s := fun fc hfc => (each fc hfc).2.1
  have live : ∀ fc ∈ s, fc.getCurEntryID ≠ NULLENTRY := fun fc hfc => (each fc hfc).2.2
  have sorted' : Sorted s.sort := sorted_perm (sort_perm s).symm sorted
  have live' : ∀ fc ∈ s.sort, fc.getCurEntryID ≠ NULLENTRY := fun fc hfc => live fc ((sort_perm s).mem_iff.mp hfc)
  refine ⟨fun n pos => ⟨?_, fun t rounds => ⟨fun fc _ => fc.least, fun t' step => ?_⟩⟩, ?_,
    fun t rounds => ⟨fun fc _ => fc.least, fun t' step => ?_⟩⟩
  · obtain ⟨adds, run, added⟩ := retrieveK_adds pos sorted unread
    exact ⟨adds, run, fun c => (added c).trans (hit_iff_meet sorted pos)⟩
  · obtain ⟨ordered, sorted⟩ := reachedK (sort_ordered s) sorted' rounds
    exact step.advances pos ordered sorted
  · obtain ⟨adds, run, added⟩ := retrieveLoop_adds sorted unread live
    exact ⟨adds, run, fun c => (added c).trans (hit_iff_meet sorted (needMatch_pos c))⟩
  · obtain ⟨ordered, sorted, live⟩ := reachedLoop (sort_ordered s) sorted' live' rounds
    exact step.advances ordered sorted live

open FieldCursors in
/-- Two cursors that share the conjunction with document 3 and size 2. -/
theorem kmatch_exact_pair :
    let c := newEntriesCursor [newEntryID (packConjID 3 0 2) true]
    let s : FieldCursors := [newFieldCursor c [], newFieldCursor c []]
    (∀ d ∈ [c], d.Fresh) ∧ s.Meet 2 (packConjID 3 0 2) ∧
      ∃ adds, retrieveK s 2 (by decide) = .ok adds ∧ packConjID 3 0 2 ∈ adds := by
  intro c s
  have valid : ValidConjID (packConjID 3 0 2) := packConjID_valid (by decide) (by decide) (by decide)
  have fresh : ∀ d ∈ [c], d.Fresh := by
    intro d hd
    obtain rfl := List.mem_singleton.mp hd
    exact ⟨_, rfl, by simp, by simp, by simpa using ⟨_, _, valid, rfl⟩⟩
  have meet : s.Meet 2 (packConjID 3 0 2) := by decide +kernel
  have groups : ∀ g ∈ [(c, ([] : EntriesCursors)), (c, [])], ∀ d ∈ g.1 :: g.2, d.Fresh := by simpa using fresh
  obtain ⟨adds, run, added⟩ := ((kmatch_exact groups).1 2 (by decide)).1
  exact ⟨fresh, meet, adds, run, (added _).mpr meet⟩

end BeIndexer
