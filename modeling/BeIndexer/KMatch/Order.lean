import BeIndexer.KMatch

/-!
# The order in which the loops add conjunctions

A round that adds a conjunction moves the cursors it needed past it. As long as fewer than twice as many
cursors have the conjunction, it is added once, and both loops add in ascending order.
-/

namespace BeIndexer

open Leapfrog

namespace FieldCursors

/-- The rounds of either loop, from the cursors to the conjunctions that they add. After a round cursors
may be dropped. -/
inductive Collects (need : ConjID → Nat) : FieldCursors → List ConjID → Prop
  | stop (s : FieldCursors) : Collects need s []
  | round {s t : FieldCursors} {later : List ConjID} (nonempty : 0 < s.length)
      (enough : need s[0].getCurEntryID.getConjID - 1 < s.length)
      (live : s[need s[0].getCurEntryID.getConjID - 1].getCurEntryID ≠ NULLENTRY)
      (kept : t.Sublist (round (need s[0].getCurEntryID.getConjID) s[0].getCurEntryID
        s[need s[0].getCurEntryID.getConjID - 1].getCurEntryID s).1)
      (rest : Collects need t later) :
      Collects need s ((round (need s[0].getCurEntryID.getConjID) s[0].getCurEntryID
        s[need s[0].getCurEntryID.getConjID - 1].getCurEntryID s).2 ++ later)

section Round

variable {s t : FieldCursors} {n : Nat} {c : ConjID}

theorem round_advanced (n : Nat) (eid endEID : EntryID) (sorted : Sorted s) :
    ∃ us, us.Perm (tapes (round n eid endEID s).1) ∧ List.Forall₂ Advanced (tapes s) us := by
  have first : ∀ (u : FieldCursors) (id : EntryID), Sorted u →
      List.Forall₂ (Skipped byConj fun _ => True) (tapes u) (tapes (skipFirst n id u)) := by
    intro u id sorted
    have skipped : List.Forall₂ (Skipped byConj fun _ => True) (tapes u ++ []) (tapes (skipFirst n id u) ++ []) :=
      skipFirst_skipped sorted (by simp)
    simpa using skipped
  have others : ∀ id, List.Forall₂ (Skipped byConj fun _ => True) (tapes s) (tapes (skipOthers n id s)) := by
    intro id
    have skipped : List.Forall₂ (Skipped byConj fun _ => True) (tapes s ++ []) (tapes (skipOthers n id s) ++ []) :=
      skipOthers_skipped sorted (by simp)
    simpa using skipped
  have resort : ∀ u : FieldCursors, (tapes u).Perm (tapes (sort u)) := fun u => (sort_perm u).symm.map _
  unfold round
  dsimp only
  split
  · split
    · exact ⟨_, resort _, forall₂_advanced (first s _ sorted)⟩
    · exact ⟨_, resort _, forall₂_advanced (forall₂_skipped_trans (others _) (first _ _ (skipOthers_sorted sorted)))⟩
  · exact ⟨_, resort _, forall₂_advanced (first s _ sorted)⟩

theorem round_count_le (n : Nat) (eid endEID : EntryID) (sorted : Sorted s) (c : ConjID)
    (kept : t.Sublist (round n eid endEID s).1) :
    count (byConj.Ahead c) (tapes t) ≤ count (byConj.Ahead c) (tapes s) := by
  obtain ⟨us, perm, advanced⟩ := round_advanced n eid endEID sorted
  calc count (byConj.Ahead c) (tapes t)
      ≤ count (byConj.Ahead c) (tapes (round n eid endEID s).1) := count_sublist _ (kept.map _)
    _ = count (byConj.Ahead c) us := (count_perm _ perm).symm
    _ ≤ count (byConj.Ahead c) (tapes s) := count_ahead_advanced c advanced

/-- A round that adds a conjunction takes it from as many cursors as it needs. -/
theorem round_count_add (ordered : Ordered s) (sorted : Sorted s) (pos : 0 < n) (enough : n ≤ s.length)
    (first : 0 < s.length) (last : n - 1 < s.length) (live : s[n - 1].getCurEntryID ≠ NULLENTRY)
    (added : c ∈ (round n s[0].getCurEntryID s[n - 1].getCurEntryID s).2) :
    c = s[0].getCurEntryID.getConjID ∧
      count (byConj.Ahead c) (tapes (round n s[0].getCurEntryID s[n - 1].getCurEntryID s).1) + n =
        count (byConj.Ahead c) (tapes s) := by
  unfold round at added ⊢
  dsimp only at added ⊢
  split at added
  · rename_i meet
    split at added
    · rename_i incl
      rw [if_pos meet, if_pos incl]
      obtain rfl := List.mem_singleton.mp added
      refine ⟨rfl, ?_⟩
      have split : tapes s = tapes (s.take n) ++ tapes (s.drop n) := by
        rw [tapes, tapes, tapes, ← List.map_append, List.take_append_drop]
      have joined : ∀ id, tapes (skipFirst n id s) = tapes ((s.take n).map (·.skipTo id)) ++ tapes (s.drop n) := by
        intro id
        simp [tapes, skipFirst]
      -- the first cursors have moved past the conjunction
      have none : count (byConj.Ahead s[0].getCurEntryID.getConjID)
          (tapes ((s.take n).map (·.skipTo (newEntryID s[n - 1].getCurEntryID.getConjID true + 1)))) = 0 := by
        apply count_eq_zero
        rintro t ht ⟨e, he, same⟩
        obtain ⟨_, hgc, rfl⟩ := List.mem_map.mp ht
        obtain ⟨fc, hfc, rfl⟩ := List.mem_map.mp hgc
        have fcSorted := sorted fc (List.mem_of_mem_take hfc)
        obtain ⟨ahead, past⟩ := (FieldCursor.mem_skipTo_rest fcSorted).mp he
        have valid := FieldCursor.rest_valid fcSorted ahead
        have above := (valid.pastConj_le (getConjID_valid _)).mp past
        rw [← meet, ← same] at above
        exact lt_irrefl _ above
      have resort := count_perm (byConj.Ahead s[0].getCurEntryID.getConjID)
        ((sort_perm (skipFirst n (newEntryID s[n - 1].getCurEntryID.getConjID true + 1) s)).map FieldCursor.tape)
      rw [← tapes, ← tapes, joined, count_append, none] at resort
      rw [resort, split, count_append, count_front ordered pos enough live meet]
      omega
    · cases added
  · cases added

end Round

theorem round_adds (n : Nat) (eid endEID : EntryID) (s : FieldCursors) :
    (round n eid endEID s).2 = [] ∨ (round n eid endEID s).2 = [eid.getConjID] := by
  unfold round
  dsimp only
  split
  · split
    · exact Or.inr rfl
    · exact Or.inl rfl
  · exact Or.inl rfl

/-! ### The order -/

/-- Both loops add in ascending order, and each conjunction once, if for a conjunction that they add there
are fewer than twice as many cursors as it needs. -/
theorem Collects.ascending {need : ConjID → Nat} {s : FieldCursors} {adds : List ConjID} (positive : ∀ c, 0 < need c)
    (collects : Collects need s adds) (ordered : Ordered s) (sorted : Sorted s)
    (once : ∀ c ∈ adds, count (byConj.Ahead c) (tapes s) < 2 * need c) :
    adds.Pairwise (· < ·) ∧ ∀ c ∈ adds, need c ≤ count (byConj.Ahead c) (tapes s) := by
  induction collects with
  | stop s => simp
  | @round s t later nonempty enough live kept rest ih =>
    have pos := positive s[0].getCurEntryID.getConjID
    have le : need s[0].getCurEntryID.getConjID ≤ s.length := by omega
    have ordered' := (round_ordered (need s[0].getCurEntryID.getConjID) s[0].getCurEntryID
      s[need s[0].getCurEntryID.getConjID - 1].getCurEntryID s).sublist kept
    have sorted' : Sorted t := fun fc hfc => round_sorted _ _ _ sorted fc (kept.subset hfc)
    have fewer := fun c => round_count_le _ _ _ sorted c kept
    obtain ⟨ascending, ahead⟩ := ih ordered' sorted'
      fun c mem => (fewer c).trans_lt (once c (List.mem_append_right _ mem))
    have added := fun c => round_count_add (c := c) ordered sorted pos le nonempty (by omega) live
    refine ⟨List.pairwise_append.mpr ⟨?_, ascending, ?_⟩, ?_⟩
    · rcases round_adds (need s[0].getCurEntryID.getConjID) s[0].getCurEntryID
        s[need s[0].getCurEntryID.getConjID - 1].getCurEntryID s with none | one
      · rw [none]
        exact List.Pairwise.nil
      · rw [one]
        exact List.pairwise_singleton _ _
    · intro c hc d hd
      obtain ⟨rfl, taken⟩ := added c hc
      have needed := ahead d hd
      have some : 0 < count (byConj.Ahead d) (tapes s) := (positive d).trans_le (needed.trans (fewer d))
      have after : s[0].getCurEntryID.getConjID ≤ d := by
        obtain ⟨tape, mem, e, he, rfl⟩ := exists_of_count_pos some
        have mem : tape ∈ tapes s ++ [] := by simpa using mem
        exact getConjID_mono (mem_rest_ge ordered sorted (by simp) nonempty mem he).2
      refine lt_of_le_of_ne after ?_
      rintro rfl
      -- the cursors that are left are too few to add it again
      have left := count_sublist (byConj.Ahead s[0].getCurEntryID.getConjID) (kept.map FieldCursor.tape)
      have bound := once _ (List.mem_append_left _ hc)
      rw [← tapes, ← tapes] at left
      omega
    · intro c hc
      rcases List.mem_append.mp hc with now | after
      · obtain ⟨rfl, taken⟩ := added c now
        omega
      · exact (ahead c after).trans (fewer c)

end FieldCursors

end BeIndexer
