import BeIndexer.KMatch
import BeIndexer.Refinement.Build
import BeIndexer.Refinement.Compile
import BeIndexer.Retrieval.Matching

/-!
# The cursors of a query

`initCursors` makes one field cursor for every field of the query that has something to say. On a
compiled container these cursors hold the answers of the posting lists from before it was compiled.
-/

namespace BeIndexer

open Leapfrog FieldCursors

variable [FloatOps]

/-! ### Holders -/

namespace DefaultEntriesHolder

variable {h : DefaultEntriesHolder} {desc : FieldDesc} {v : Value} {cs : EntriesCursors}

theorem getEntries_new (run : h.compileEntries.getEntries desc v = .ok cs) : cs.New := by
  obtain ⟨tokens, _, done⟩ := bind_eq_ok.mp run
  obtain rfl := Except.ok.inj done
  intro c mem
  obtain ⟨token, found, rfl⟩ := List.mem_map.mp mem
  have nonempty := (List.mem_filter.mp found).2
  rw [Bool.not_eq_true', List.isEmpty_eq_false_iff] at nonempty
  exact ⟨_, rfl, nonempty, sortEntries_sorted _⟩

theorem getEntries_ids (run : h.compileEntries.getEntries desc v = .ok cs) (e : EntryID) :
    e ∈ cs.ids ↔ (Postings.ofHolder desc.id (.default h)).Answers v e := by
  obtain ⟨tokens, tokenized, done⟩ := bind_eq_ok.mp run
  obtain rfl := Except.ok.inj done
  simp only [EntriesCursors.ids, Set.mem_ofPred_eq, Postings.ofHolder, Postings.Answers, List.mem_map, List.mem_filter]
  constructor
  · rintro ⟨_, ⟨token, ⟨mem, _⟩, rfl⟩, he⟩
    exact ⟨tokens, tokenized, token, mem, mem_sortEntries.mp he⟩
  · rintro ⟨tokens', tokenized', token, mem, he⟩
    obtain rfl := Except.ok.inj (tokenized.symm.trans tokenized')
    have he' : e ∈ h.compileEntries.plEntries ⟨desc.id, token⟩ := mem_sortEntries.mpr he
    exact ⟨_, ⟨token, ⟨mem, by simp [List.ne_nil_of_mem he']⟩, rfl⟩, he'⟩

end DefaultEntriesHolder

namespace EntriesHolder

def Reads (v : Value) : EntriesHolder → Prop
  | .default _ => ∃ tokens, tokenizeAssign v = .ok tokens
  | .range h => ∃ ids, parseIntegers v h.option.enableFloat2Int = .ok ids
  | _ => True

variable [AhoMachine] {h h' : EntriesHolder} {desc : FieldDesc} {v : Value}

theorem getEntries_reads {cs : EntriesCursors} (compiled : h.compileEntries = .ok h')
    (run : h'.getEntries desc v = .ok cs) : h.Reads v := by
  cases h with
  | default h =>
    obtain rfl := Except.ok.inj compiled
    obtain ⟨tokens, tokenized, _⟩ := bind_eq_ok.mp run
    exact ⟨tokens, tokenized⟩
  | range h =>
    obtain rfl := Except.ok.inj compiled
    obtain ⟨ids, parsed, _⟩ := bind_eq_ok.mp run
    exact ⟨ids, parsed⟩
  | _ => trivial

theorem getEntries_answers (served : (Postings.ofHolder desc.id h).Served) (compiled : h.compileEntries = .ok h')
    (reads : h.Reads v) :
    ∃ cs, h'.getEntries desc v = .ok cs ∧ cs.New ∧ ∀ e, e ∈ cs.ids ↔ (Postings.ofHolder desc.id h).Answers v e := by
  cases h with
  | default h =>
    obtain rfl := Except.ok.inj compiled
    obtain ⟨tokens, tokenized⟩ := reads
    have run : ∃ cs, h.compileEntries.getEntries desc v = .ok cs := by
      rw [DefaultEntriesHolder.getEntries, tokenized]
      exact ⟨_, rfl⟩
    obtain ⟨cs, run⟩ := run
    exact ⟨cs, run, DefaultEntriesHolder.getEntries_new run, DefaultEntriesHolder.getEntries_ids run⟩
  | range h =>
    obtain rfl := Except.ok.inj compiled
    obtain ⟨ids, parsed⟩ := reads
    have run : ∃ cs, h.compileEntries.getEntries v = .ok cs := by
      have parsed' : parseIntegers v h.compileEntries.option.enableFloat2Int = .ok ids := parsed
      rw [RangeHolder.getEntries, parsed']
      change ∃ cs, (if ids.isEmpty then .ok [] else _) = Except.ok cs
      split
      · exact ⟨_, rfl⟩
      · exact ⟨_, rfl⟩
    obtain ⟨cs, run⟩ := run
    refine ⟨cs, run, RangeHolder.getEntries_new run, fun e => ?_⟩
    rw [RangeHolder.getEntries_ids parsed run]
    constructor
    · rintro ⟨id, mem, covers⟩
      exact ⟨ids, parsed, id, mem, covers⟩
    · rintro ⟨ids', parsed', id, mem, covers⟩
      obtain rfl := Except.ok.inj (parsed.symm.trans parsed')
      exact ⟨id, mem, covers⟩
  | optimizedRange h => exact served.elim
  | acMatcher h => exact served.elim

end EntriesHolder

/-! ### Containers -/

/-- The cursors of one field: they hold the answer and have not been moved. -/
structure Answered (answer : Set EntryID) (cs : FieldCursors) : Prop where
  carries : Carries answer (tapes cs)
  ready : ∀ fc ∈ cs, fc.Sorted ∧ fc.tape.rest = fc.tape.all ∧ fc.getCurEntryID ≠ NULLENTRY

omit [FloatOps] in
theorem answered_none : Answered ∅ [] := ⟨Or.inl ⟨rfl, rfl⟩, by simp⟩

def EntriesCursors.toField : EntriesCursors → FieldCursors
  | [] => []
  | c :: cs => [newFieldCursor c cs]

omit [FloatOps] in
theorem answered_ids {cs : EntriesCursors} (made : cs.New) (valid : ∀ e ∈ cs.ids, ValidEntry e) :
    Answered cs.ids cs.toField := by
  cases cs with
  | nil =>
    have none : EntriesCursors.ids [] = ∅ := by
      ext e
      simp [EntriesCursors.ids]
    rw [none]
    exact answered_none
  | cons c cs =>
    refine ⟨Or.inr ⟨_, rfl, rfl⟩, ?_⟩
    intro fc mem
    rw [List.mem_singleton.mp mem]
    refine newFieldCursor_fresh fun d hd => ?_
    obtain ⟨entries, rfl, nonempty, sorted⟩ := made d hd
    exact ⟨entries, rfl, nonempty, sorted, fun e he => valid e ⟨_, hd, he⟩⟩

namespace EntriesContainer

def Reads (c : EntriesContainer) (t : FieldTable) (assign : Sigma fun _ : BEField => Value) : Prop :=
  ∀ desc h, t.find assign.1 = some desc → c.getFieldHolder desc = some h → h.Reads assign.2

variable [AhoMachine] {c c' : EntriesContainer} {t : FieldTable} {assign : Sigma fun _ : BEField => Value}

omit [FloatOps] in
theorem compile_getFieldHolder (compiled : c.compileEntries = .ok c') (desc : FieldDesc) :
    Compiled (c.getFieldHolder desc) (c'.getFieldHolder desc) := by
  obtain ⟨default, holders⟩ := compileEntries_spec compiled
  unfold getFieldHolder
  split
  · exact Or.inr ⟨_, _, rfl, rfl, by rw [default]; rfl⟩
  · exact holders desc.field

theorem initFieldCursor_reads {cs : FieldCursors} (compiled : c.compileEntries = .ok c')
    (run : initFieldCursor t c' assign = .ok cs) : c.Reads t assign := by
  intro desc h known held
  unfold initFieldCursor at run
  rw [known] at run
  rcases compile_getFieldHolder compiled desc with ⟨missing, _⟩ | ⟨g, g', before, after, done⟩
  · rw [missing] at held
    cases held
  · rw [before] at held
    obtain rfl := Option.some.inj held
    simp only [after] at run
    obtain ⟨_, asked, _⟩ := bind_eq_ok.mp run
    exact EntriesHolder.getEntries_reads done asked

theorem initFieldCursor_answers (compiled : c.compileEntries = .ok c') (served : (c.postings t assign.1).Served)
    (valid : ∀ e, (c.postings t assign.1).Answers assign.2 e → ValidEntry e) (reads : c.Reads t assign) :
    ∃ cs, initFieldCursor t c' assign = .ok cs ∧ Answered {e | (c.postings t assign.1).Answers assign.2 e} cs := by
  unfold initFieldCursor
  cases known : t.find assign.1 with
  | none =>
    have none : {e | (c.postings t assign.1).Answers assign.2 e} = ∅ := by
      ext e
      simp only [postings, known, Set.mem_ofPred_eq, Set.mem_empty_iff_false, iff_false]
      exact Postings.empty_answers _ _
    rw [none]
    exact ⟨[], rfl, answered_none⟩
  | some desc =>
    rcases compile_getFieldHolder compiled desc with ⟨missing, missing'⟩ | ⟨h, h', before, after, done⟩
    · -- the field has no holder yet
      have none : {e | (c.postings t assign.1).Answers assign.2 e} = ∅ := by
        ext e
        simp only [Set.mem_ofPred_eq, Set.mem_empty_iff_false, iff_false]
        rw [postings_new known missing] at served ⊢
        exact Postings.fresh_answers served _ _
      rw [none]
      simp only [missing']
      exact ⟨[], rfl, answered_none⟩
    · have shown : c.postings t assign.1 = .ofHolder desc.id h := postings_known known (by rw [heldBy, before]; rfl)
      rw [shown] at served valid ⊢
      obtain ⟨cs, asked, made, ids⟩ := EntriesHolder.getEntries_answers served done (reads desc h known before)
      have same : {e | (Postings.ofHolder desc.id h).Answers assign.2 e} = cs.ids := by
        ext e
        exact (ids e).symm
      simp only [after, asked]
      rw [same]
      refine ⟨cs.toField, ?_, answered_ids made fun e he => valid e ((ids e).mp he)⟩
      cases cs <;> rfl

end EntriesContainer

/-! ### Indexers -/

omit [FloatOps] in
theorem wildcardCursor_answered {wildcard : Entries} (sorted : wildcard.Pairwise (· ≤ ·))
    (valid : ∀ e ∈ wildcard, ValidEntry e) : Answered {e | e ∈ wildcard} (wildcardCursor wildcard) := by
  unfold wildcardCursor
  split
  · rename_i empty
    have none : {e | e ∈ wildcard} = ∅ := by
      ext e
      simp [List.isEmpty_iff.mp empty]
    rw [none]
    exact answered_none
  · rename_i nonempty
    have made : EntriesCursors.New [newEntriesCursor wildcard] := by
      intro c mem
      rw [List.mem_singleton.mp mem]
      exact ⟨wildcard, rfl, by simpa using nonempty, sorted⟩
    have ids : EntriesCursors.ids [newEntriesCursor wildcard] = {e | e ∈ wildcard} := by
      ext e
      simp [EntriesCursors.ids, newEntriesCursor, EntriesCursor.moveTo]
    have answered := answered_ids made (ids ▸ valid)
    rwa [ids] at answered

variable [AhoMachine]

theorem initCursorsFrom_answers {wild : FieldCursors} {zeros : Set EntryID} {t : FieldTable} {c : EntriesContainer}
    {assigns : List (Sigma fun _ : BEField => Value)} {answer : (Sigma fun _ : BEField => Value) → Set EntryID}
    (wildcard : Answered zeros wild)
    (each : ∀ a ∈ assigns, ∃ cs, initFieldCursor t c a = .ok cs ∧ Answered (answer a) cs) :
    ∃ cursors, initCursorsFrom wild t c assigns = .ok cursors ∧ Sorted cursors ∧ Unread cursors ∧
      (∀ fc ∈ cursors, fc.getCurEntryID ≠ NULLENTRY) ∧
      ∀ need id, Hit byConj need (tapes cursors) id ↔
        Hit byConj need ((zeros :: assigns.map answer).map Tape.unread) id := by
  obtain ⟨found, run, answered⟩ := mapM_related (S := fun a cs => Answered (answer a) cs)
    (List.forall₂_same.mpr each)
  have ready : ∀ fc ∈ wild ++ found.flatten,
      fc.Sorted ∧ fc.tape.rest = fc.tape.all ∧ fc.getCurEntryID ≠ NULLENTRY := by
    intro fc mem
    rcases List.mem_append.mp mem with first | later
    · exact wildcard.ready fc first
    · obtain ⟨cs, hcs, mem⟩ := List.mem_flatten.mp later
      obtain ⟨a, _, ofField⟩ := forall₂_right answered hcs
      exact ofField.ready fc mem
  refine ⟨wild ++ found.flatten, by rw [initCursorsFrom, run]; rfl, fun fc mem => (ready fc mem).1,
    fun fc mem => (ready fc mem).2.1, fun fc mem => (ready fc mem).2.2, fun need id => ?_⟩
  have carried : List.Forall₂ Carries (zeros :: assigns.map answer) ((wild :: found).map tapes) := by
    refine .cons wildcard.carries ?_
    rw [List.forall₂_map_left_iff, List.forall₂_map_right_iff]
    exact answered.imp fun _ _ ofField => ofField.carries
  have joined : tapes (wild ++ found.flatten) = ((wild :: found).map tapes).flatten := by
    simp [tapes, List.map_flatten]
    rfl
  rw [joined]
  exact hit_carried carried id

end BeIndexer
