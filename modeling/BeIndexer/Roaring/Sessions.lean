import BeIndexer.Roaring.Live

/-!
# Scanners that are asked more than once (`ivt_scanner.go`)

A scanner keeps the conjunctions that all its queries had in common, until it is reset. It may start from
the conjunctions of hinted documents, of which it knows as many for each document as any document had
when the index was built.
-/

namespace BeIndexer.Roaring

open Calls

namespace IvtScanner

variable {s s' : IvtScanner} {q : Assignments} {indexer : IvtBEIndexer}

/-- A scanner since it was made or reset: the hints it was given, and what it was asked then, without an error. -/
def Session (indexer : IvtBEIndexer) (s : IvtScanner) (hints : Option (List Int64)) (qs : List Assignments) : Prop :=
  Run indexer s ((hints.map Request.withHint).toList ++ qs.map fun q => .retrieve q (.ok ()))

namespace Run

variable {calls : List Request}

theorem eq_new (ran : Run indexer s []) : s = newScanner indexer := by
  generalize none : [] = calls at ran
  cases ran with
  | new => rfl
  | reset before => exact Fresh.eq_new (Or.inr ⟨_, ⟨_, before⟩, rfl⟩)
  | hinted | retrieved => simp at none

theorem of_withHint {hints : List Int64} (ran : Run indexer s' (calls ++ [.withHint hints])) :
    ∃ s, Run indexer s calls ∧ s.withHint hints = .ok s' := by
  generalize log : calls ++ [.withHint hints] = log' at ran
  cases ran with
  | new | reset => simp at log
  | hinted before run =>
    obtain ⟨rfl, same⟩ := List.append_inj' log rfl
    obtain rfl := Request.withHint.inj (List.singleton_inj.mp same)
    exact ⟨_, before, run⟩
  | retrieved => simp at log

theorem of_retrieve {r : Except GoError Unit} (ran : Run indexer s' (calls ++ [.retrieve q r])) :
    ∃ (s : IvtScanner) (visit : s.indexer.data.Visit), Run indexer s calls ∧
      s.retrieveFrom q visit.1 = .ok (s', r) := by
  generalize log : calls ++ [.retrieve q r] = log' at ran
  cases ran with
  | new | reset => simp at log
  | hinted => simp at log
  | retrieved before run =>
    obtain ⟨rfl, same⟩ := List.append_inj' log rfl
    obtain ⟨rfl, rfl⟩ := Request.retrieve.inj (List.singleton_inj.mp same)
    exact ⟨_, _, before, run⟩

end Run

/-! ### One more query -/

theorem retrieveFrom_under {es : List (Sigma fun _ : BEField => BEContainer)} (under : s.Under)
    (run : s.retrieveFrom q es = .ok (s', .ok ())) : s'.Under := by
  induction es generalizing s with
  | nil =>
    obtain ⟨rfl, _⟩ := Prod.mk.inj (Except.ok.inj run)
    exact under
  | cons e es ih =>
    cases ended : s.ended with
    | true =>
      rw [retrieveFrom_ended ended] at run
      obtain ⟨rfl, _⟩ := Prod.mk.inj (Except.ok.inj run)
      exact under
    | false =>
      obtain ⟨pl, _, later⟩ := retrieveFrom_answered ended run
      exact ih (mergeFieldResult_under under pl).1 later

theorem retrieveFrom_inited {e : Sigma fun _ : BEField => BEContainer}
    {es : List (Sigma fun _ : BEField => BEContainer)}
    (inited : s.inited = true) (ends : s.ended = true → s.conjIDResults = ∅)
    (run : s.retrieveFrom q (e :: es) = .ok (s', .ok ())) :
    s'.inited = true ∧ (s'.ended = true → s'.conjIDResults = ∅) ∧
      ∀ id, id ∈ s'.conjIDResults ↔ id ∈ s.conjIDResults ∧ Common q (e :: es) id := by
  cases ended : s.ended with
  | true =>
    rw [retrieveFrom_ended ended] at run
    obtain ⟨rfl, _⟩ := Prod.mk.inj (Except.ok.inj run)
    exact ⟨inited, ends, by simp [ends ended]⟩
  | false =>
    obtain ⟨pl, answered, later⟩ := retrieveFrom_answered ended run
    obtain ⟨under, merged⟩ := mergeFieldResult_inited inited pl
    obtain ⟨inited', ended'⟩ := retrieveFrom_under under later
    refine ⟨inited', by simp [ended'], fun id => ?_⟩
    rw [retrieveFrom_common under later, merged, common_cons answered, Finset.mem_inter, and_assoc]

theorem Common.perm {es fs : List (Sigma fun _ : BEField => BEContainer)} {id : ConjunctionID} (perm : es.Perm fs) :
    Common q es id ↔ Common q fs id :=
  ⟨fun common => common.of_subset fun _ mem _ _ => perm.mem_iff.mpr mem,
    fun common => common.of_subset fun _ mem _ _ => perm.mem_iff.mp mem⟩

/-! ### Sessions -/

namespace Session

variable {hints : Option (List Int64)} {qs : List Assignments}

/-- The ids that a scanner starts from. -/
def Starts (indexer : IvtBEIndexer) (hints : Option (List Int64)) (id : ConjunctionID) : Prop :=
  ∀ hs, hints = some hs → ∃ hint ∈ hs, ∃ idx < indexer.docMaxConjSize, newConjunctionID idx hint = .ok id

/-- What a scanner has kept: it is new, or has the ids that it started from and all queries have in common. -/
def Keeps (indexer : IvtBEIndexer) (s : IvtScanner) (hints : Option (List Int64)) (qs : List Assignments) : Prop :=
  (s = newScanner indexer ∧ hints = none ∧ qs = []) ∨
  (s.indexer = indexer ∧ s.inited = true ∧ (s.ended = true → s.conjIDResults = ∅) ∧
    ∀ id, id ∈ s.conjIDResults ↔ Starts indexer hints id ∧ ∀ q ∈ qs, Common q indexer.data.entries id)

theorem Keeps.same (keeps : Keeps indexer s hints qs) : s.indexer = indexer := by
  rcases keeps with ⟨rfl, _⟩ | ⟨same, _⟩
  · rfl
  · exact same

theorem Keeps.retrieved (keeps : Keeps indexer s hints qs) (configured : indexer.data.entries ≠ [])
    {es : List (Sigma fun _ : BEField => BEContainer)} (perm : es.Perm indexer.data.entries)
    (run : s.retrieveFrom q es = .ok (s', .ok ())) : Keeps indexer s' hints (qs ++ [q]) := by
  refine Or.inr ⟨(retrieveFrom_indexer run).trans keeps.same, ?_⟩
  cases es with
  | nil => exact absurd (List.nil_perm.mp perm) configured
  | cons e es =>
    rcases keeps with ⟨rfl, rfl, rfl⟩ | ⟨_, inited, ends, ids⟩
    · obtain ⟨pl, answered, later⟩ := retrieveFrom_answered rfl run
      obtain ⟨inited, ended⟩ := retrieveFrom_under (mergeFieldResult_new indexer pl).1 later
      refine ⟨inited, by simp [ended], fun id => ?_⟩
      rw [retrieveFrom_new_common run, Common.perm perm]
      simp [Starts]
    · obtain ⟨inited', ends', narrowed⟩ := retrieveFrom_inited inited ends run
      refine ⟨inited', ends', fun id => ?_⟩
      rw [narrowed, ids, Common.perm perm, List.forall_mem_append, List.forall_mem_singleton, and_assoc]

theorem retrieved {visit : s.indexer.data.Visit} (session : Session indexer s hints qs)
    (run : s.retrieveFrom q visit.1 = .ok (s', .ok ())) : Session indexer s' hints (qs ++ [q]) := by
  unfold Session
  rw [List.map_append, ← List.append_assoc]
  exact Run.retrieved session run

theorem keeps (session : Session indexer s hints qs) (configured : indexer.data.entries ≠ []) :
    Keeps indexer s hints qs := by
  unfold Session at session
  induction qs using List.reverseRecOn generalizing s with
  | nil =>
    cases hints with
    | none => exact Or.inl ⟨Run.eq_new session, rfl, rfl⟩
    | some hs =>
      have hinted : Run indexer s ([] ++ [.withHint hs]) := session
      obtain ⟨s₀, before, run⟩ := hinted.of_withHint
      obtain rfl := before.eq_new
      rw [withHint_new] at run
      obtain rfl := Except.ok.inj run
      refine Or.inr ⟨rfl, rfl, nofun, fun id => ?_⟩
      rw [mem_hinted]
      simp [Starts]
  | append_singleton qs q ih =>
    rw [List.map_append, ← List.append_assoc] at session
    obtain ⟨s₀, visit, before, run⟩ := Run.of_retrieve session
    have kept := ih before
    obtain rfl := kept.same
    exact kept.retrieved configured visit.2 run

variable [AhoMachine] {h : Heap} {l : Ledger} {is : List IndexerRef} {i : IndexerRef}

end Session

end IvtScanner

end BeIndexer.Roaring
